import SqlComposer.Proofs.Insertion.EmbeddedInsertions

/-!
# Related rows and the insertion that asks for them

Rows of other tables stand in the clauses of the insertion that asks for them, apart from the rows
that it writes itself, and are tied to these by numbers of rows and columns. Only a selection, which
asks for no related rows, becomes another statement; so the numbers keep pointing at cells that are
there. The one exception is the description of columns, which takes the place of any statement: in
the place of an insertion it leaves the related rows behind, and nothing else ever does.
-/

namespace SqlComposer

variable {Sub : Type}

/-! ## Numbers of rows and columns -/

/-- A related insertion is tied to a row that is there: a row before fills the cell of its foreign
key, and rows behind refer to a key that is handed back. -/
def RelatedInsert.Addresses (columns : List String) (rows : List (List Cell))
    (readBack : List String) : RelatedInsert → Prop
  | before row column relation _ =>
    row < rows.length ∧ column < columns.length ∧ columns[column]? = some relation.foreignKey
  | after row relation _ => row < rows.length ∧ relation.primaryKey ∈ readBack

/-- Whether a verb describes columns. -/
def Verb.describes : Verb Sub → Bool
  | describe _ => true
  | _ => false

/-- The statement inserts rows of cells. -/
def Clauses.InsertsRows (clauses : Clauses Sub) : Prop :=
  ∃ columns rows conflict, clauses.verb = .insert ⟨columns, .rows rows, conflict⟩

/-- What is said about the rows of an insertion fits them, and what needs a transaction runs in one.
-/
structure Clauses.Fitting (clauses : Clauses Sub) : Prop where
  addressed : ∀ {columns rows conflict}, clauses.verb = .insert ⟨columns, .rows rows, conflict⟩ →
    ∀ related ∈ clauses.related, related.Addresses columns rows clauses.readBack
  awaits : clauses.Awaits
  width : ∀ {columns rows conflict}, clauses.verb = .insert ⟨columns, .rows rows, conflict⟩ →
    ∀ cells ∈ rows, cells.length = columns.length
  relatedScoped : clauses.related ≠ [] → clauses.inTransaction
  fallbackScoped : clauses.fallback.isSome → clauses.inTransaction

/-- The clauses stand for a statement with the rows that it asks for: related rows belong to an
insertion of rows, and fit it. -/
structure Clauses.Represented (clauses : Clauses Sub) : Prop extends clauses.Fitting where
  owned : clauses.related ≠ [] → clauses.InsertsRows

namespace Clauses

variable {clauses other : Clauses Sub}

/-- A statement that inserts no rows of cells fits if what it takes over is in a transaction. -/
theorem Fitting.of_verb (verb : ¬clauses.InsertsRows)
    (relatedScoped : clauses.related ≠ [] → clauses.inTransaction)
    (fallbackScoped : clauses.fallback.isSome → clauses.inTransaction) : clauses.Fitting where
  addressed hverb := absurd ⟨_, _, _, hverb⟩ verb
  awaits := awaits_of_verb fun insertion rows hverb hsource ↦ by
    obtain ⟨columns, source, conflict⟩ := insertion
    cases hsource
    exact verb ⟨_, _, _, hverb⟩
  width hverb := absurd ⟨_, _, _, hverb⟩ verb
  relatedScoped := relatedScoped
  fallbackScoped := fallbackScoped

/-- Clauses as methods lead to them: they fit, related rows belong to an insertion or were left
behind by one, the rows of a query go into columns with names, and the row in place of the statement
has what it asks for. -/
structure Kept (clauses : Clauses Statement) : Prop extends clauses.Fitting where
  origin : clauses.related ≠ [] → clauses.InsertsRows ∨ clauses.verb.describes
  sourced : ∀ {columns sub conflict}, clauses.verb = .insert ⟨columns, .query sub, conflict⟩ →
    columns ≠ []
  replaced : ∀ fallback, clauses.fallback = some fallback → fallback.clauses.Represented

variable {clauses other : Clauses Statement}

theorem Kept.represented_iff (kept : clauses.Kept) :
    clauses.Represented ↔ (clauses.related ≠ [] → clauses.verb.describes = false) := by
  constructor
  · intro represented some
    obtain ⟨columns, rows, conflict, hverb⟩ := represented.owned some
    rw [hverb]
    rfl
  · intro apart
    refine ⟨kept.toFitting, fun some ↦ (kept.origin some).resolve_right ?_⟩
    rw [apart some]
    exact Bool.false_ne_true

/-- A statement that neither inserts rows nor describes columns asks for no related rows. -/
theorem Kept.related_eq_nil (kept : clauses.Kept) (verb : clauses.verb.describes = false)
    (rows : ¬clauses.InsertsRows) : clauses.related = [] := by
  by_contra some
  rcases kept.origin some with hrows | hdescribes
  · exact rows hrows
  · rw [verb] at hdescribes
    cases hdescribes

theorem Kept.congr (kept : clauses.Kept) (verb : other.verb = clauses.verb)
    (related : other.related = clauses.related) (readBack : other.readBack = clauses.readBack)
    (inTransaction : other.inTransaction = clauses.inTransaction)
    (fallback : other.fallback = clauses.fallback) : other.Kept where
  addressed h := by
    rw [related, readBack]
    exact kept.addressed (verb ▸ h)
  awaits := kept.awaits.congr verb related
  width h := kept.width (verb ▸ h)
  relatedScoped h := by
    rw [inTransaction]
    exact kept.relatedScoped (related ▸ h)
  fallbackScoped h := by
    rw [inTransaction]
    exact kept.fallbackScoped (fallback ▸ h)
  origin h := by
    rw [InsertsRows, verb]
    exact kept.origin (related ▸ h)
  sourced h := kept.sourced (verb ▸ h)
  replaced := by
    rw [fallback]
    exact kept.replaced

/-- Another statement, which inserts no rows of cells, takes the place of one. -/
theorem Kept.turn (kept : clauses.Kept) (verb : ¬other.InsertsRows)
    (sourced : ∀ {columns sub conflict}, other.verb = .insert ⟨columns, .query sub, conflict⟩ →
      columns ≠ [])
    (origin : other.related ≠ [] → other.verb.describes)
    (related : other.related ≠ [] → clauses.related ≠ [])
    (inTransaction : clauses.inTransaction → other.inTransaction)
    (fallback : other.fallback = clauses.fallback) : other.Kept where
  toFitting := .of_verb verb (fun h ↦ inTransaction (kept.relatedScoped (related h)))
    fun h ↦ inTransaction (kept.fallbackScoped (fallback ▸ h))
  origin h := .inr (origin h)
  sourced := sourced
  replaced := by
    rw [fallback]
    exact kept.replaced

/-- A selection with nothing to run around it. -/
theorem Kept.of_select (verb : clauses.verb = .select) (related : clauses.related = [])
    (fallback : clauses.fallback = none) : clauses.Kept where
  toFitting := .of_verb (fun ⟨_, _, _, h⟩ ↦ by cases verb.symm.trans h) (absurd related)
    fun h ↦ by simp [fallback] at h
  origin := absurd related
  sourced h := by cases verb.symm.trans h
  replaced _ h := by cases fallback.symm.trans h

end Clauses

/-! ## Methods -/

namespace Query

variable {query next : Query}

/-- A method leaves what a query inserts alone, and what runs around it. -/
structure Leaves (query next : Query) : Prop where
  verb : next.clauses.verb = query.clauses.verb
  related : next.clauses.related = query.clauses.related
  readBack : next.clauses.readBack = query.clauses.readBack
  inTransaction : next.clauses.inTransaction = query.clauses.inTransaction
  fallback : next.clauses.fallback = query.clauses.fallback

theorem Leaves.kept (leaves : query.Leaves next) (kept : query.clauses.Kept) : next.clauses.Kept :=
  kept.congr leaves.verb leaves.related leaves.readBack leaves.inTransaction leaves.fallback

end Query

/-! ## Turning into other statements -/

namespace Clauses

variable {query next : Query}

/-- An insertion of rows asks for the related rows of its plan. -/
theorem Kept.planned {table : Table} {plan : RowPlan} {payloads : List Payload}
    (kept : query.clauses.Kept)
    (planned : RowPlan.ofPayloads table query.catalog.isSome payloads = .ok plan) (many : Bool) :
    (query.planned plan many).clauses.Kept := by
  have hheight : plan.cells.length = payloads.length := by
    rw [RowPlan.cells, List.length_map, (RowPlan.rows_ofPayloads planned).length_eq]
  refine ⟨⟨?_, ?_, ?_, ?_, ?_⟩, fun _ ↦ .inl ⟨_, _, _, rfl⟩, (fun h ↦ by cases h),
    kept.replaced⟩
  · rintro _ _ _ ⟨⟩ related hrelated
    have hfits := RowPlan.fits_related planned related hrelated
    cases related with
    | before row column relation data =>
      obtain ⟨-, hrow, hmem, rfl⟩ := hfits
      have hinside := List.idxOf_lt_length_of_mem hmem
      exact ⟨hheight ▸ hrow, hinside,
        by rw [List.getElem?_eq_getElem hinside, List.getElem_idxOf]⟩
    | after row relation rows => exact ⟨hheight ▸ hfits.2, RowPlan.mem_readBack hrelated⟩
  · exact Query.awaits_planned query plan many
  · rintro _ _ _ ⟨⟩ cells hcells
    obtain ⟨parts, -, rfl⟩ := List.mem_map.1 hcells
    rw [RowPlan.rowCells, List.length_map]
  · intro hsome
    change (query.clauses.inTransaction || !plan.related.isEmpty) = true
    rw [Bool.or_eq_true, Bool.not_eq_true', List.isEmpty_eq_false_iff]
    exact .inr hsome
  · intro hsome
    change (query.clauses.inTransaction || !plan.related.isEmpty) = true
    rw [kept.fallbackScoped hsome, Bool.true_or]

/-- An insertion of what is no row of cells asks for no related rows. -/
theorem Kept.inserting {insertion : Insertion Statement} (kept : query.clauses.Kept) (many : Bool)
    (source : ∀ rows, insertion.source ≠ .rows rows)
    (sourced : ∀ sub, insertion.source = .query sub → insertion.columns ≠ []) :
    (query.inserting insertion many [] []).clauses.Kept := by
  refine kept.turn ?_ ?_ (absurd rfl) (absurd rfl) (fun h ↦ ?_) rfl
  · rintro ⟨columns, rows, conflict, hverb⟩
    cases hverb
    exact source rows rfl
  · rintro columns sub conflict ⟨⟩
    exact sourced sub rfl
  · change (query.clauses.inTransaction || false) = true
    rw [h, Bool.true_or]

/-- A reaction to conflicts is part of the insertion, whose rows stay the same. -/
theorem Kept.settle {insertion : Insertion Statement} (kept : query.clauses.Kept)
    (hverb : query.clauses.verb = .insert insertion) (conflict : Option Conflict) :
    (query.modify fun clauses ↦
      { clauses with verb := .insert { insertion with conflict } }).clauses.Kept := by
  have hretains := (Query.Becomes.settles conflict hverb).retains
  obtain ⟨columns, source, earlier⟩ := insertion
  refine ⟨⟨?_, hretains.awaits kept.awaits, ?_, kept.relatedScoped, kept.fallbackScoped⟩,
    fun hsome ↦ ?_, ?_, kept.replaced⟩
  · rintro _ _ _ ⟨⟩
    exact kept.addressed hverb
  · rintro _ _ _ ⟨⟩
    exact kept.width hverb
  · rcases kept.origin hsome with ⟨_, _, _, hrows⟩ | hdescribes
    · cases hverb.symm.trans hrows
      exact .inl ⟨_, _, _, rfl⟩
    · rw [hverb] at hdescribes
      cases hdescribes
  · rintro _ _ _ ⟨⟩
    exact kept.sourced hverb

theorem Kept.pushUpdate {assignments : List Assignment} (kept : query.clauses.Kept)
    (h : query.pushUpdate assignments = .ok next) : next.clauses.Kept := by
  obtain ⟨earlier, hquery, rfl⟩ := Query.pushUpdate_eq_ok h
  have halone : query.clauses.related = [] := by
    rcases hquery with hverb | ⟨hverb, -⟩ <;>
    · refine kept.related_eq_nil (by rw [hverb]; rfl) ?_
      rintro ⟨_, _, _, h⟩
      cases hverb.symm.trans h
  simp only [Query.countingRows_eq]
  refine kept.turn ?_ (fun h ↦ by cases h) (absurd halone) id id rfl
  rintro ⟨_, _, _, h⟩
  cases h

theorem Kept.update {data : Payload} (kept : query.clauses.Kept)
    (h : query.update data = .ok next) : next.clauses.Kept := by
  obtain ⟨_, _, _, _, h⟩ := Query.update_eq_ok h
  exact kept.pushUpdate h

/-- A statement that only a selection becomes has no related rows left. -/
theorem Kept.ofSelect {other : Clauses Statement} (kept : query.clauses.Kept)
    (selects : query.clauses.verb = .select) (verb : ∀ insertion, other.verb ≠ .insert insertion)
    (related : other.related = query.clauses.related)
    (inTransaction : other.inTransaction = query.clauses.inTransaction)
    (fallback : other.fallback = query.clauses.fallback) : other.Kept := by
  have halone : other.related = [] := related.trans <|
    kept.related_eq_nil (by rw [selects]; rfl) fun ⟨_, _, _, h⟩ ↦ by cases selects.symm.trans h
  exact kept.turn (fun ⟨_, _, _, h⟩ ↦ verb _ h) (fun h ↦ absurd h (verb _)) (absurd halone)
    (absurd halone) (fun h ↦ inTransaction.trans h) fallback

/-- The description of columns takes the place of any statement, and keeps its related rows. -/
theorem Kept.becomes (kept : query.clauses.Kept) (becomes : query.Becomes next) :
    next.clauses.Kept := by
  cases becomes with
  | plans many _ planned => exact kept.planned planned many
  | inserts many _ source named => exact kept.inserting many source named
  | settles conflict hverb => exact kept.settle hverb conflict
  | deletes hverb =>
    simp only [Query.countingRows_eq]
    exact kept.ofSelect hverb nofun rfl rfl rfl
  | truncates _ hverb | copies _ hverb => exact kept.ofSelect hverb nofun rfl rfl rfl
  | describes =>
    refine kept.turn ?_ (fun h ↦ by cases h) (fun _ ↦ rfl) id id rfl
    rintro ⟨_, _, _, h⟩
    cases h

theorem Kept.orCreate {row : Payload} (kept : query.clauses.Kept)
    (h : query.orCreate row = .ok next) : next.clauses.Kept := by
  obtain ⟨table, inserted, -, -, hinserted, rfl⟩ := Query.orCreate_eq_ok h
  have hinserted : inserted.clauses.Kept ∧ inserted.clauses.InsertsRows := by
    obtain ⟨_, plan, -, hplan, -, -, rfl⟩ := Query.insertRows_eq_ok.1 hinserted
    have hbase : (query.withClauses (Query.fallbackBase query.clauses table)).clauses.Kept :=
      .of_select rfl rfl rfl
    exact ⟨hbase.planned hplan false, _, _, _, rfl⟩
  refine ⟨⟨kept.addressed, kept.awaits, kept.width, fun _ ↦ rfl, fun _ ↦ rfl⟩, kept.origin,
    kept.sourced, ?_⟩
  rintro _ ⟨⟩
  exact ⟨hinserted.1.toFitting, fun _ ↦ hinserted.2⟩

end Clauses

/-! ## Calls -/

namespace Call

variable {call : Call} {query next : Query}

/-- All calls that do not turn a query into another statement leave what it inserts alone. -/
theorem leaves_apply (done : call.apply query = .ok next) (stays : call.turns = false) :
    query.Leaves next :=
  have frames := frames_apply done stays
  ⟨frames.verb, frames.related, frames.readBack, frames.inTransaction, frames.fallback⟩

/-- Every call keeps related rows where they belong, or leaves them behind in a description. -/
theorem kept_apply (kept : query.clauses.Kept) (done : call.apply query = .ok next) :
    next.clauses.Kept := by
  cases call with
  | sibling =>
    obtain ⟨table, -, rfl⟩ := Query.sibling_eq_ok.1 done
    exact .of_select rfl rfl rfl
  | json =>
    cases done
    exact .of_select rfl rfl rfl
  | insert | insertMany | insertRaw | insertFrom | ignoreConflict | mergeConflict | setConflict
  | delete | truncate | describe | copy => exact kept.becomes (becomes_apply done rfl)
  | update => exact kept.update done
  | updateRaw | increment | decrement => exact kept.pushUpdate done
  | orCreate => exact kept.orCreate done
  | upsert =>
    rcases Query.upsert_eq_ok.1 done with ⟨-, done⟩ | ⟨-, updated, hupdated, done⟩
    · exact kept.orCreate done
    · exact (kept.update hupdated).orCreate done
  | _ => exact (leaves_apply done rfl).kept kept

end Call

/-! ## Queries -/

namespace Query

theorem Reachable.kept {supplied : Fragment → Prop} {query : Query}
    (reached : query.Reachable supplied) : query.clauses.Kept := by
  induction reached with
  | ofTable => exact .of_select rfl rfl rfl
  | ofRaw => exact .of_select rfl rfl rfl
  | call _ _ _ _ done ih => exact Call.kept_apply ih done

/-- Calls lead to queries whose related rows belong to their insertion and fit it, except where the
columns of its table are described in the place of the insertion. What fits and what runs in a
transaction does so even there, and the row in place of a query is never affected. -/
theorem Reachable.represented_unless_describing {supplied : Fragment → Prop} {query : Query}
    (reached : query.Reachable supplied) :
    (query.clauses.Represented ↔
      (query.clauses.related ≠ [] → query.clauses.verb.describes = false)) ∧
    query.clauses.Fitting ∧
    ∀ fallback, query.clauses.fallback = some fallback → fallback.clauses.Represented :=
  ⟨reached.kept.represented_iff, reached.kept.toFitting, reached.kept.replaced⟩

/-- The insertion of a post with its author and a comment represents both. -/
theorem represented_publishing : Blog.publishing.Reachable (fun _ ↦ True) ∧
    Blog.publishing.clauses.related =
      [.before 0 1 Blog.author (Blog.text "name" "Ada"),
        .after 0 Blog.comments [Blog.text "body" "Deep"]] ∧
    Blog.publishing.clauses.Represented :=
  ⟨Blog.reachable_publishing, rfl,
    (Reachable.represented_unless_describing Blog.reachable_publishing).1.2 fun _ ↦ rfl⟩

/-- Described in the place of that insertion, the columns of the table come with the author and the
comment. -/
theorem not_represented_described : ∃ described, Blog.publishing.describe none = .ok described ∧
    described.Reachable (fun _ ↦ True) ∧ described.clauses.verb = .describe none ∧
    described.clauses.related =
      [.before 0 1 Blog.author (Blog.text "name" "Ada"),
        .after 0 Blog.comments [Blog.text "body" "Deep"]] ∧
    ¬described.clauses.Represented := by
  refine ⟨_, rfl, ?_, rfl, rfl, ?_⟩
  · exact @Reachable.call _ Blog.publishing _ (.describe none) (fun _ ↦ False)
      Blog.reachable_publishing trivial (fun _ ↦ False.elim) rfl
  · intro represented
    obtain ⟨columns, rows, conflict, hverb⟩ := represented.owned (List.cons_ne_nil _ _)
    cases hverb

end Query
end SqlComposer
