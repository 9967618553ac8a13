import SqlComposer.Proofs.Call.CallFrames

/-!
# Queries that span several statements

A query spans several statements if rows that belong to its rows are inserted with it, or a row in
its place. Two methods make a query span several statements, and both of them mark it as one that
needs a transaction. Every other method keeps the mark and what it stands for, or starts from a
fresh query without either.
-/

namespace SqlComposer

namespace Query

/-- Whether running a query may take insertions besides its own statement. -/
def spans (query : Query) : Bool :=
  !query.clauses.related.isEmpty || query.clauses.fallback.isSome

/-- A query is marked exactly if it spans several statements. A selection has no related rows yet,
which is why an insertion can start from it with its own. -/
structure Marked (query : Query) : Prop where
  mark : query.clauses.inTransaction = query.spans
  selects : query.clauses.verb = .select → query.clauses.related = []

/-- A method leaves the mark and what it stands for as they were, and turns nothing back into a
selection. -/
structure Kept (query next : Query) : Prop where
  mark : next.clauses.inTransaction = query.clauses.inTransaction
  related : next.clauses.related = query.clauses.related
  fallback : next.clauses.fallback = query.clauses.fallback
  selects : next.clauses.verb = .select → query.clauses.verb = .select

variable {query next : Query}

theorem Marked.kept (marked : query.Marked) (kept : query.Kept next) : next.Marked where
  mark := by
    unfold spans
    rw [kept.mark, kept.related, kept.fallback]
    exact marked.mark
  selects h := by
    rw [kept.related]
    exact marked.selects (kept.selects h)

theorem marked_ofTable (table : Table) (catalog : Option Catalog) (log : Option LogSettings) :
    Marked ⟨.ofTable table, catalog, log⟩ :=
  ⟨rfl, fun _ ↦ rfl⟩

theorem marked_ofRaw (fragment : Fragment) : Marked (.ofRaw fragment) := ⟨rfl, fun _ ↦ rfl⟩

theorem marked_json (query : Query) : query.json.Marked := ⟨rfl, fun _ ↦ rfl⟩

theorem marked_sibling {name : String} (h : query.sibling name = .ok next) : next.Marked := by
  obtain ⟨table, -, rfl⟩ := sibling_eq_ok.1 h
  exact marked_ofTable _ _ _

/-! ## Statements and rows in their place -/

theorem kept_pushUpdate {assignments : List Assignment}
    (h : query.pushUpdate assignments = .ok next) : query.Kept next := by
  obtain ⟨_, _, rfl⟩ := pushUpdate_eq_ok h
  simp only [countingRows_eq]
  exact ⟨rfl, rfl, rfl, nofun⟩

theorem kept_update {data : Payload} (h : query.update data = .ok next) : query.Kept next := by
  obtain ⟨_, _, _, _, h⟩ := update_eq_ok h
  exact kept_pushUpdate h

/-- An insertion is marked for the rows that are inserted with its own. -/
theorem Marked.inserting (marked : query.Marked) (selects : query.clauses.verb = .select)
    (insertion : Insertion Statement) (many : Bool) (readBack : List String)
    (related : List RelatedInsert) : (query.inserting insertion many readBack related).Marked := by
  refine ⟨?_, nofun⟩
  simp only [Query.inserting, modify, spans, marked.mark, marked.selects selects, List.isEmpty_nil,
    Bool.not_true, Bool.false_or, Bool.or_comm]

theorem Marked.becomes (marked : query.Marked) (becomes : query.Becomes next) : next.Marked := by
  cases becomes with
  | plans many hverb => exact marked.inserting hverb _ many _ _
  | inserts many hverb => exact marked.inserting hverb _ many [] []
  | deletes =>
    simp only [countingRows_eq]
    exact marked.kept ⟨rfl, rfl, rfl, nofun⟩
  | settles | truncates | describes | copies => exact marked.kept ⟨rfl, rfl, rfl, nofun⟩

theorem Marked.orCreate (marked : query.Marked) {row : Payload}
    (h : query.orCreate row = .ok next) : next.Marked := by
  obtain ⟨_, _, _, _, _, rfl⟩ := orCreate_eq_ok h
  exact ⟨by simp [modify, spans], marked.selects⟩

theorem Marked.upsert (marked : query.Marked) {data row : Payload}
    (h : query.upsert data row = .ok next) : next.Marked := by
  rcases upsert_eq_ok.1 h with ⟨-, h⟩ | ⟨-, updated, hupdated, h⟩
  · exact marked.orCreate h
  · exact (marked.kept (kept_update hupdated)).orCreate h

end Query

/-! ## All methods -/

theorem Call.Frames.kept {query next : Query} {call : Call} (frames : call.Frames query next) :
    query.Kept next :=
  ⟨frames.inTransaction, frames.related, frames.fallback, fun h ↦ frames.verb ▸ h⟩

/-- Every method keeps a query marked exactly if it spans several statements. -/
theorem Call.marked_apply {query next : Query} {call : Call} (marked : query.Marked)
    (h : call.apply query = .ok next) : next.Marked := by
  cases call with
  | sibling => exact Query.marked_sibling h
  | json => exact Except.ok.inj h ▸ Query.marked_json query
  | insert | insertMany | insertRaw | insertFrom | ignoreConflict | mergeConflict | setConflict
  | delete | truncate | describe | copy => exact marked.becomes (becomes_apply h rfl)
  | update => exact marked.kept (Query.kept_update h)
  | updateRaw | increment | decrement => exact marked.kept (Query.kept_pushUpdate h)
  | orCreate => exact marked.orCreate h
  | upsert => exact marked.upsert h
  | _ => exact marked.kept (frames_apply h rfl).kept

/-- The queries that methods lead to are marked exactly if they span several statements. -/
theorem Query.Reachable.marked {supplied : Fragment → Prop} {query : Query}
    (reached : query.Reachable supplied) : query.Marked := by
  induction reached with
  | ofTable table catalog log => exact Query.marked_ofTable table catalog log
  | ofRaw => exact Query.marked_ofRaw _
  | call _ _ _ _ done ih => exact Call.marked_apply ih done

end SqlComposer
