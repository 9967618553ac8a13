import Mathlib.Data.List.Induction
import Mathlib.Data.List.Nodup
import SqlComposer.Proofs.Call.CarriedClauses
import SqlComposer.Proofs.Insertion.RelatedRowNumbers
import SqlComposer.Proofs.Statement.WrittenChanges

/-!
# The columns that an update assigns

An update assigns, in order, the columns that the calls name which led to it, and behind them the
column that its table stamps. A call that sets columns to values leaves out the stamped column and
columns that the table does not have. A call that adds to a column or takes something off leaves out
none, and no call looks at what others assign. So the columns are distinct exactly if the calls name
different ones and no call adds to the stamp or takes something off it.
-/

namespace SqlComposer

/-! ## What calls assign -/

/-- The column that an assignment is to, unless it is a fragment. -/
def Assignment.column? : Assignment → Option String
  | set column _ | increment column _ | decrement column _ => some column
  | raw _ => none

/-- The keys of a payload that an update of a table assigns. -/
def Table.assignable (table : Table) (data : Payload) : List String :=
  data.keys.filter fun key ↦ table.updatedAt != some key && table.takesKey key

/-- The columns that a payload gives values for are those of its keys that the table takes. -/
theorem Payload.map_fst_columnValues {data : Payload} {table : Table} {purpose : String}
    {values : List (String × Term)} (h : data.columnValues table purpose = .ok values) :
    values.map Prod.fst = data.keys.filter table.takesKey := by
  simp only [columnValues, bind_eq_ok, pure_eq_ok] at h
  obtain ⟨options, hoptions, rfl⟩ := h
  have hrelated := forall₂_of_mapM hoptions
  clear hoptions
  rw [← data.map_fst_entries]
  generalize data.entries = entries at hrelated ⊢
  induction hrelated with
  | nil => rfl
  | @cons entry option entries options hentry hrest ih =>
    obtain ⟨key, held⟩ := entry
    cases held with
    | value term =>
      cases hentry
      by_cases htakes : table.takesKey key <;> simpa [htakes] using ih
    | create | createMany => cases hentry

namespace Call

/-- The columns that a call names for an update of a table. -/
def assigns (table : Table) : Call → List String
  | update data | upsert data _ => table.assignable data
  | increment column _ | decrement column _ => [column]
  | _ => []

/-- Whether a call adds to a column or takes something off it. -/
def shifts (column : String) : Call → Prop
  | increment shifted _ | decrement shifted _ => shifted = column
  | _ => False

/-- Whether a call assigns by a fragment. -/
def splices : Call → Bool
  | updateRaw _ => true
  | _ => false

/-- The calls behind the last one that starts another query. -/
def latest (calls : List Call) : List Call :=
  calls.foldl (fun earlier call ↦ if call.continues then earlier ++ [call] else []) []

theorem latest_append_singleton (calls : List Call) (call : Call) :
    latest (calls ++ [call]) = if call.continues then latest calls ++ [call] else [] := by
  simp [latest]

end Call

namespace Query

variable {query next start : Query} {table : Table} {columns : List String}

/-- The columns that a query assigns, unless it neither updates nor may be updated. -/
def Assigned (query : Query) (columns : List String) : Prop :=
  match query.clauses.verb with
  | .select => columns = []
  | .update assignments => assignments.map Assignment.column? = columns.map some
  | _ => True

theorem Assigned.of_verb (h : query.Assigned columns)
    (verb : next.clauses.verb = query.clauses.verb) : next.Assigned columns := by
  unfold Assigned at h ⊢
  rwa [verb]

/-- What an update is given is assigned behind what it assigns already. -/
theorem exists_of_pushUpdate {assignments : List Assignment}
    (h : query.pushUpdate assignments = .ok next) :
    next.clauses.table = query.clauses.table ∧ ∃ earlier,
      next.clauses.verb = .update (earlier ++ assignments) ∧
      (query.clauses.verb = .update earlier ∨ query.clauses.verb = .select ∧ earlier = []) := by
  obtain ⟨earlier, hquery, rfl⟩ := pushUpdate_eq_ok h
  simp only [countingRows_eq]
  exact ⟨rfl, earlier, rfl, hquery⟩

/-- Further assignments append their columns to those assigned. -/
theorem Assigned.pushUpdate {assignments : List Assignment} {added : List String}
    (pushed : query.pushUpdate assignments = .ok next) (h : query.Assigned columns)
    (named : assignments.map Assignment.column? = added.map some) :
    next.Assigned (columns ++ added) := by
  obtain ⟨-, earlier, hnext, hquery⟩ := exists_of_pushUpdate pushed
  have hearlier : earlier.map Assignment.column? = columns.map some := by
    unfold Assigned at h
    rcases hquery with hverb | ⟨hverb, rfl⟩
    · rwa [hverb] at h
    · rw [hverb] at h
      rw [h]
      rfl
  unfold Assigned
  rw [hnext]
  change (earlier ++ assignments).map Assignment.column? = (columns ++ added).map some
  rw [List.map_append, List.map_append, hearlier, named]

/-- An update assigns those columns of its payload that it may. -/
theorem Assigned.update {data : Payload} (done : query.update data = .ok next)
    (target : next.clauses.table = some table)
    (h : query.clauses.table = some table → query.Assigned columns) :
    next.Assigned (columns ++ table.assignable data) := by
  obtain ⟨found, values, hfound, hvalues, hpushed⟩ := update_eq_ok done
  -- The keys were taken for the table that the query is on before, which is the one behind.
  have htable := (exists_of_pushUpdate hpushed).1.symm.trans target
  cases Option.some.inj ((Clauses.requireTable_eq_ok.1 hfound).symm.trans htable)
  refine .pushUpdate hpushed (h htable) ?_
  have hnames := Payload.map_fst_columnValues hvalues
  calc
    _ = ((values.map Prod.fst).filter fun key ↦ table.updatedAt != some key).map some := by
      simp only [List.filter_map, List.map_map]
      rfl
    _ = (table.assignable data).map some := by
      rw [hnames, List.filter_filter, Table.assignable]

theorem Assigned.orCreate {row : Payload} (done : query.orCreate row = .ok next)
    (h : query.Assigned columns) : next.Assigned columns :=
  h.of_verb (Spares.orCreate done).verb

theorem table_orCreate {row : Payload} (done : query.orCreate row = .ok next) :
    next.clauses.table = query.clauses.table := by
  obtain ⟨_, _, _, _, _, rfl⟩ := orCreate_eq_ok done
  rfl

/-- An upsert with nothing to assign does not update. -/
theorem Assigned.upsert {data row : Payload} (done : query.upsert data row = .ok next)
    (target : next.clauses.table = some table)
    (h : query.clauses.table = some table → query.Assigned columns) :
    next.Assigned (columns ++ table.assignable data) := by
  rcases upsert_eq_ok.1 done with ⟨hempty, done⟩ | ⟨-, updated, hupdated, hcreated⟩
  · have hnone : table.assignable data = [] := by
      rw [Table.assignable, ← data.map_fst_entries, List.isEmpty_iff.1 hempty]
      rfl
    rw [hnone, List.append_nil]
    exact .orCreate done (h ((table_orCreate done).symm.trans target))
  · exact .orCreate hcreated (.update hupdated ((table_orCreate hcreated).symm.trans target) h)

/-- A statement that is made of another does not update. -/
theorem Becomes.assigned (becomes : query.Becomes next) : next.Assigned columns := by
  cases becomes with
  | deletes =>
    simp only [countingRows_eq]
    trivial
  | _ => trivial

/-- What a call names is assigned behind what the query assigns already. -/
theorem Assigned.apply {call : Call} (done : call.apply query = .ok next)
    (continues : call.continues) (spliceless : call.splices = false)
    (target : next.clauses.table = some table)
    (h : query.clauses.table = some table → query.Assigned columns) :
    next.Assigned (columns ++ call.assigns table) := by
  cases call with
  | sibling | json => cases continues
  | updateRaw => cases spliceless
  | update => exact .update done target h
  | increment | decrement =>
    exact .pushUpdate done (h ((exists_of_pushUpdate done).1.symm.trans target)) rfl
  | orCreate =>
    change next.Assigned (columns ++ [])
    rw [List.append_nil]
    exact .orCreate done (h ((table_orCreate done).symm.trans target))
  | upsert => exact .upsert done target h
  | insert | insertMany | insertRaw | insertFrom | ignoreConflict | mergeConflict | setConflict
  | delete | truncate | describe | copy => exact (Call.becomes_apply done rfl).assigned
  | _ =>
    have frames := Call.frames_apply done rfl
    change next.Assigned (columns ++ [])
    rw [List.append_nil]
    exact (h (frames.table.symm.trans target)).of_verb frames.verb

/-- A query is updated with the columns that the calls name behind the last one that starts another
query. -/
theorem IsNew.assigned {calls : List Call} (new : start.IsNew)
    (built : calls.foldlM Call.apply start = .ok query)
    (spliceless : ∀ call ∈ calls, call.splices = false)
    (target : query.clauses.table = some table) :
    query.Assigned ((Call.latest calls).flatMap (Call.assigns table)) := by
  -- From the end, since the last call adds to what the ones before it led to, or starts over.
  induction calls using List.reverseRecOn generalizing query with
  | nil =>
    cases built
    cases new <;> rfl
  | append_singleton calls call ih =>
    simp only [List.foldlM_append, List.foldlM_cons, List.foldlM_nil, bind_pure,
      bind_eq_ok] at built
    obtain ⟨between, hbetween, hlast⟩ := built
    rw [List.forall_mem_append, List.forall_mem_singleton] at spliceless
    rw [Call.latest_append_singleton]
    split
    · rename_i hcontinues
      rw [List.flatMap_append, List.flatMap_singleton]
      exact .apply hlast hcontinues spliceless.2 target fun htable ↦
        ih hbetween spliceless.1 htable
    · rename_i hfresh
      cases call with
      | sibling name =>
        obtain ⟨table, rfl⟩ := exists_of_sibling hlast
        rfl
      | json =>
        cases hlast
        rfl
      | _ => exact absurd rfl hfresh

end Query

/-! ## The list of assignments -/

/-- An assignment to a column is written with the column in front. -/
theorem Assignment.exists_of_code {assignment : Assignment} {column : String} {item : Code}
    (named : assignment.column? = some column) (h : assignment.code = .ok item) :
    ∃ value, item = .name column :: .word " = " :: value := by
  cases assignment with
  | raw => cases named
  | set | increment | decrement =>
    cases named
    obtain ⟨value, -, h⟩ := bind_eq_ok.1 h
    cases h
    exact ⟨_, rfl⟩

/-- Each assignment is written as its column, an equals sign and a value. -/
theorem Assignment.items_of_mapM {assignments : List Assignment} {names : List String}
    {items : List Code} (named : assignments.map column? = names.map some)
    (h : assignments.mapM code = .ok items) :
    List.Forall₂ (fun name item ↦ ∃ value, item = .name name :: .word " = " :: value) names
      items := by
  have hitems := forall₂_of_mapM h
  clear h
  induction hitems generalizing names with
  | nil =>
    cases List.map_eq_nil_iff.1 named.symm
    exact .nil
  | cons hitem _ ih =>
    obtain ⟨name, rest, rfl, hname, hrest⟩ := List.map_eq_cons_iff.1 named.symm
    exact .cons (exists_of_code hname.symm hitem) (ih hrest.symm)

namespace Call

theorem nodup_assigns (call : Call) (table : Table) : (call.assigns table).Nodup := by
  cases call with
  | update data | upsert data => exact data.distinct.filter _
  | increment | decrement => exact List.nodup_singleton _
  | _ => exact List.nodup_nil

/-- Only a call that adds to the stamp of its table or takes something off it names it. -/
theorem mem_assigns_stamp {call : Call} {table : Table} {column : String}
    (stamped : table.updatedAt = some column) :
    column ∈ call.assigns table ↔ call.shifts column := by
  cases call with
  | update | upsert => simp [assigns, shifts, Table.assignable, stamped]
  | increment | decrement => simp [assigns, shifts, eq_comm]
  | _ => simp [assigns, shifts]

/-- The columns that calls name are distinct from each other and from the stamp of the table exactly
if no two of the calls name the same one and none names the stamp. -/
theorem nodup_assigned_iff {calls : List Call} {table : Table} :
    (calls.flatMap (assigns table) ++ table.updatedAt.toList).Nodup ↔
      calls.Pairwise (fun one other ↦ (one.assigns table).Disjoint (other.assigns table)) ∧
        ∀ column, table.updatedAt = some column → ∀ call ∈ calls, ¬call.shifts column := by
  have hnames : (calls.flatMap (assigns table)).Nodup ↔
      calls.Pairwise fun one other ↦ (one.assigns table).Disjoint (other.assigns table) := by
    rw [List.nodup_flatMap]
    exact and_iff_right fun call _ ↦ call.nodup_assigns table
  have hstamp : (calls.flatMap (assigns table)).Disjoint table.updatedAt.toList ↔
      ∀ column, table.updatedAt = some column → ∀ call ∈ calls, ¬call.shifts column := by
    cases hstamped : table.updatedAt with
    | none => simp
    | some column => simp [← mem_assigns_stamp hstamped]
  have hsingle : table.updatedAt.toList.Nodup := by
    cases table.updatedAt <;> simp
  rw [List.nodup_append', hnames, hstamp]
  exact and_congr_right fun _ ↦ and_iff_right hsingle

end Call

namespace Query

variable {query start : Query} {table : Table} {calls : List Call} {sql : CompiledSql}

/-- An update assigns the columns that the calls name, in their order, and last of all the stamp of
the table, once each unless two calls name the same column or a call adds to the stamp or takes
something off it. -/
theorem assigned_once (new : start.IsNew) (built : calls.foldlM Call.apply start = .ok query)
    (spliceless : ∀ call ∈ calls, call.splices = false)
    (target : query.clauses.table = some table) {assignments : List Assignment}
    (updates : query.clauses.verb = .update assignments) (compiled : query.compile = .ok sql) :
    ∃ names items declarations conditions returning,
      names = (Call.latest calls).flatMap (Call.assigns table) ∧
      sql = (declarations ++ (.word "UPDATE " ::
          (Statement.foldClauses Clauses.code query.clauses).targetCode table ++ .word " SET " ::
          Code.separated ", " (items ++ (table.updatedAt.map Assignment.stamp).toList)) ++
        Code.restriction conditions ++ returning : Code).compile ∧
      List.Forall₂ (fun name item ↦ ∃ value, item = .name name :: .word " = " :: value) names
        items ∧
      ((names ++ table.updatedAt.toList).Nodup ↔
        (Call.latest calls).Pairwise
            (fun one other ↦ (one.assigns table).Disjoint (other.assigns table)) ∧
          ∀ column, table.updatedAt = some column →
            ∀ call ∈ Call.latest calls, ¬call.shifts column) := by
  have hassigned := new.assigned built spliceless target
  unfold Assigned at hassigned
  rw [updates] at hassigned
  obtain ⟨code, hcode, rfl⟩ := map_eq_ok.1 compiled
  have hverb : (Statement.foldClauses Clauses.code query.clauses).verb = .update assignments := by
    rw [Statement.verb_fold, updates, Statement.foldVerb]
  have htarget := (Statement.table_fold Clauses.code query.clauses).trans target
  obtain ⟨declarations, change, -, hchange, rfl⟩ := Clauses.code_eq_ok hcode
  obtain ⟨_, update, returning, hfound, hupdate, -, rfl⟩ := Clauses.update_eq_ok hverb hchange
  cases Option.some.inj (hfound.symm.trans htarget)
  obtain ⟨-, values, formula, hvalues, -, rfl⟩ := Clauses.updateCode_eq_ok hupdate
  simp only [Assignment.listCode, bind_eq_ok, refusing_eq_ok, pure_eq_ok] at hvalues
  obtain ⟨_, items, hitems, rfl⟩ := hvalues
  refine ⟨_, items, declarations, Clauses.restricting false formula, returning, rfl, ?_, ?_, ?_⟩
  · simp only [List.append_assoc, List.cons_append]
  · exact Assignment.items_of_mapM hassigned hitems
  · exact Call.nodup_assigned_iff

end Query

/-! ## Articles that know when they were changed -/

namespace Article

def table : Table :=
  { Table.named "article" with
    columns := [.plain "id" .integer, .plain "title" .text, .plain "views" .integer,
      .plain "changedAt" .integer]
    updatedAt := some "changedAt" }

def start : Query := ⟨.ofTable table, none, none⟩

def pick : Call := .filter (.compare ⟨none, "id"⟩ .equals (.term (.literal (.int 1))))

/-- A new title, along with a time of change, which is dropped. -/
def title : Payload :=
  (Payload.empty.set "title" (.literal (.text "Rivers"))).set "changedAt" (.literal (.int 7))

/-- The article is given its title and is read once more. -/
def calls : List Call := [pick, .update title, .increment "views" (.literal (.int 1))]

/-- The title, the views and the time of change are assigned once each. -/
theorem assigned_once_title : ∃ query sql,
    calls.foldlM Call.apply start = .ok query ∧ query.compile = .ok sql ∧
    sql.text = "UPDATE \"article\" SET \"title\" = $1, \"views\" = \"views\" + $2, " ++
      "\"changedAt\" = now() WHERE \"article\".\"id\" = $3" ∧
    (Call.latest calls).flatMap (Call.assigns table) = ["title", "views"] ∧
    ((Call.latest calls).flatMap (Call.assigns table) ++ table.updatedAt.toList).Nodup := by
  obtain ⟨query, hbuilt⟩ : ∃ query, calls.foldlM Call.apply start = .ok query := ⟨_, rfl⟩
  obtain ⟨sql, hsql⟩ : ∃ sql, query.compile = .ok sql := by
    cases hbuilt
    exact ⟨_, rfl⟩
  have hspliceless : ∀ call ∈ calls, call.splices = false := by decide
  obtain ⟨_, _, _, _, _, rfl, -, -, honce⟩ := Query.assigned_once (.ofTable table none none) hbuilt
    hspliceless (by cases hbuilt; rfl) (by cases hbuilt; rfl) hsql
  refine ⟨query, sql, hbuilt, hsql, ?_, rfl, honce.2 ⟨?_, ?_⟩⟩
  · cases hbuilt
    cases hsql
    decide +kernel
  · have hkeys : title.keys = ["title", "changedAt"] := rfl
    simp [calls, pick, hkeys, Call.latest, Call.continues, Call.assigns, Table.assignable, table,
      Table.named]
  · simp [calls, pick, title, Call.latest, Call.continues, Call.shifts, table]

/-- The time of change is put off, and set to the current time all the same. -/
theorem assigned_twice : ∃ query sql,
    [pick, .increment "changedAt" (.literal (.int 1))].foldlM Call.apply start = .ok query ∧
    query.compile = .ok sql ∧
    sql.text = "UPDATE \"article\" SET \"changedAt\" = \"changedAt\" + $1, " ++
      "\"changedAt\" = now() WHERE \"article\".\"id\" = $2" := by
  refine ⟨_, _, rfl, rfl, by decide +kernel⟩

end Article
end SqlComposer
