import SqlComposer.Proofs.Call.BuiltQueries
import SqlComposer.Proofs.Insertion.RowPlans

/-!
# What methods make of a query

A method that can fail is inverted once: what it found in the query, and the query that it makes of
it. Where a method branches, the branches are pushed into the clauses that they decide on, so that
all other clauses are seen to be left alone without another look at the branches.
-/

namespace SqlComposer.Query

variable {query next : Query}

/-! ## What is selected -/

/-- A row lock is changed only where one stands, and nothing else changes. -/
theorem modifyLock_eq_ok {change : RowLock → RowLock} :
    query.modifyLock change = .ok next ↔ ∃ lock, query.clauses.lock = some lock ∧
      next = query.modify fun clauses ↦ { clauses with lock := some (change lock) } := by
  unfold modifyLock
  cases query.clauses.lock <;> simp [@eq_comm _ next]

/-- Selecting a single column reads its name and replaces the selection by it. -/
theorem selectSingle_eq_ok {column : String} {shape : Shape} :
    query.selectSingle column shape = .ok next ↔ ∃ reference,
      ColumnRef.parse column = .ok reference ∧
      next = query.modify fun clauses ↦
        { clauses with selection := [.ofColumn reference], selectsAll := false, shape } := by
  simp only [selectSingle, bind_eq_ok, pure_eq_ok, @eq_comm _ next]

/-- Only a selection is limited to the row that the value is taken from. -/
theorem selectValue_eq_ok {column : String} {shape : Shape} :
    query.selectValue column shape = .ok next ↔ ∃ reference,
      ColumnRef.parse column = .ok reference ∧
      next = query.modify fun clauses ↦ { clauses with
        selection := [.ofColumn reference]
        selectsAll := false
        shape
        limit := match clauses.verb with
          | .select => some 1
          | _ => clauses.limit } := by
  have hlimited (reference : ColumnRef) :
      ((query.modify fun clauses ↦
        { clauses with selection := [.ofColumn reference], selectsAll := false, shape }).modify
          fun clauses ↦ match clauses.verb with
            | .select => { clauses with limit := some 1 }
            | _ => clauses) =
      query.modify fun clauses ↦ { clauses with
        selection := [.ofColumn reference]
        selectsAll := false
        shape
        limit := match clauses.verb with
          | .select => some 1
          | _ => clauses.limit } := by
    simp only [modify]
    cases query.clauses.verb <;> rfl
  simp only [selectValue, bind_eq_ok, pure_eq_ok, selectSingle_eq_ok]
  constructor
  · rintro ⟨_, ⟨reference, hreference, rfl⟩, rfl⟩
    exact ⟨reference, hreference, hlimited reference⟩
  · rintro ⟨reference, hreference, rfl⟩
    exact ⟨_, ⟨reference, hreference, rfl⟩, hlimited reference⟩

/-- Counting replaces the selection by the count; a change loses its selection. -/
theorem countOf_eq (query : Query) (argument : Option ColumnRef) :
    query.countOf argument = query.modify fun clauses ↦ { clauses with
      selection := if clauses.verb.isMutation then [] else [⟨.count argument, none⟩]
      selectsAll := false
      shape := if clauses.verb.isMutation then .rowCount else .valueOrThrow } := by
  simp only [countOf, modify]
  split <;> rfl

/-- Dropping repeated rows by columns takes at least one column, each with a readable name. -/
theorem distinctOn_eq_ok {columns : List String} :
    query.distinctOn columns = .ok next ↔ ∃ references,
      columns.mapM ColumnRef.parse = .ok references ∧ ¬references.isEmpty ∧
      next = query.modify fun clauses ↦ { clauses with distinct := some references } := by
  simp only [distinctOn, bind_eq_ok, refusing_eq_ok, pure_eq_ok, @eq_comm _ next]

/-- A window function is selected if its name is plain and its argument can be read. -/
theorem selectOver_eq_ok {function : String} {column : Option String} {place : Over}
    {label : String} :
    query.selectOver function column place label = .ok next ↔ ∃ argument,
      checkFunctionName function = .ok () ∧ column.mapM ColumnRef.parse = .ok argument ∧
      next = query.selectItems [⟨.window ⟨function, argument, place⟩, some label⟩] := by
  simp only [selectOver, bind_eq_ok, pure_eq_ok]
  constructor
  · rintro ⟨_, hchecked, argument, hargument, rfl⟩
    exact ⟨argument, hchecked, hargument, rfl⟩
  · rintro ⟨argument, hchecked, hargument, rfl⟩
    exact ⟨_, hchecked, argument, hargument, rfl⟩

/-- A JSON path is selected under any label but the empty one. -/
theorem selectJsonPath_eq_ok {target : JsonExpr} {path label : String} :
    query.selectJsonPath target path label = .ok next ↔
      ¬label.isEmpty ∧ next = query.selectJson (.query target path none) (some label) := by
  unfold selectJsonPath
  by_cases hlabel : label.isEmpty <;> simp [hlabel, @eq_comm _ next]

/-! ## Which rows match -/

/-- The condition that the primary key, a single column, has a value. -/
def keyCondition (query : Query) (key : Term) : Except Error (Condition Statement) := do
  let table ← query.clauses.requireTable "find"
  match table.primaryKeys with
  | [column] => Condition.ofTerm column .equals key
  | [] => throw (.noPrimaryKey table.name)
  | _ => throw (.compositePrimaryKey table.name)

theorem filterKey_eq (query : Query) (key : Term) :
    query.filterKey key = (query.keyCondition key).map query.filter := by
  unfold filterKey keyCondition
  cases query.clauses.requireTable "find" with
  | error failure => rfl
  | ok table =>
    simp only [bind, Except.bind]
    rcases table.primaryKeys with _ | ⟨column, _ | ⟨other, rest⟩⟩
    · rfl
    · cases (Condition.ofTerm column .equals key : Except Error (Condition Statement)) <;> rfl
    · rfl

theorem filterKey_eq_ok {key : Term} :
    query.filterKey key = .ok next ↔ ∃ condition, query.keyCondition key = .ok condition ∧
      next = query.filter condition := by
  rw [filterKey_eq, map_eq_ok]
  simp only [@eq_comm _ next]

/-! ## Insertions -/

theorem defaults_eq_ok {data : Payload} :
    query.defaults data = .ok next ↔ ¬data.hasNested ∧
      next = query.modify fun clauses ↦
        { clauses with defaults := data.onto clauses.defaults } := by
  unfold defaults
  by_cases hnested : data.hasNested <;> simp [hnested, @eq_comm _ next]

/-- The insertion that a selection becomes. -/
def inserting (query : Query) (insertion : Insertion Statement) (many : Bool)
    (readBack : List String) (related : List RelatedInsert) : Query :=
  query.modify fun clauses ↦ { clauses with
    filter := .unset
    everyRow := false
    selection := if clauses.counts then [] else clauses.selection
    shape := if clauses.counts then .rowCount else insertShape many clauses.shape
    verb := .insert insertion
    inTransaction := clauses.inTransaction || !related.isEmpty
    readBack
    related }

/-- An insertion starts from a selection only. -/
theorem startInsert_eq_ok {insertion : Insertion Statement} {many : Bool} {readBack : List String}
    {related : List RelatedInsert} :
    query.startInsert insertion many readBack related = .ok next ↔
      query.clauses.verb = .select ∧ next = query.inserting insertion many readBack related := by
  unfold startInsert inserting
  cases query.clauses.verb <;> simp [@eq_comm _ next]

theorem insertMany_eq_ok {rows : List Payload} :
    query.insertMany rows = .ok next ↔ rows ≠ [] ∧ query.insertRows rows true = .ok next := by
  unfold insertMany
  cases rows <;> simp

/-- An insertion of a fragment starts from a selection and stores the fragment as its source. -/
theorem insertRaw_eq_ok {columns : List String} {fragment : Fragment}
    (h : query.insertRaw columns fragment = .ok next) : query.clauses.verb = .select ∧
      next = query.inserting ⟨columns, .raw fragment, none⟩ true [] [] := by
  simp only [insertRaw, bind_eq_ok, startInsert_eq_ok] at h
  obtain ⟨_, _, h⟩ := h
  exact h

/-- What another query selects is inserted with a value for each further column. -/
theorem insertFrom_eq_ok {source : Query} {data : Payload}
    (h : query.insertFrom source data = .ok next) : ∃ table columns values,
      query.clauses.requireTable "insert" = .ok table ∧ source.clauses.shape.expectsOne ∧
      source.clauses.verb = .select ∧ source.clauses.selection ≠ [] ∧
      sourceColumns source.clauses.selection = .ok columns ∧
      (data.onto query.clauses.defaults).columnValues table "insert_from" = .ok values ∧
      query.clauses.verb = .select ∧
      next = query.inserting ⟨columns ++ values.map Prod.fst, .query ⟨{ source.clauses with
        selection := source.clauses.selection ++ values.map fun value ↦ ⟨.term value.2, none⟩ }⟩,
        none⟩ false [] [] := by
  simp only [insertFrom, bind_eq_ok, refusing_eq_ok] at h
  obtain ⟨table, htable, hone, h⟩ := h
  split at h
  · rename_i hselect
    simp only [bind_eq_ok, refusing_eq_ok, startInsert_eq_ok] at h
    obtain ⟨hsome, columns, hcolumns, values, hvalues, hverb, hnext⟩ := h
    exact ⟨table, columns, values, htable, by simpa using hone, hselect, by simpa using hsome,
      hcolumns, hvalues, hverb, hnext⟩
  · cases h

/-- A reaction to conflicts is asked of an insertion only, which it takes along. -/
theorem onConflict_eq_ok {target : ConflictTarget} {pending : PendingConflict} :
    query.onConflict target = .ok pending ↔ ∃ insertion,
      query.clauses.verb = .insert insertion ∧ pending = ⟨query, insertion, target⟩ := by
  unfold onConflict
  cases query.clauses.verb <;> simp [@eq_comm _ pending]

/-! ## Changes -/

theorem countingRows_eq (clauses : Clauses Statement) :
    countingRows clauses = { clauses with
      selection := if clauses.counts then [] else clauses.selection
      shape := if clauses.counts then .rowCount else clauses.shape } := by
  unfold countingRows
  split <;> rfl

/-- What is assigned comes behind what an update assigns already. -/
theorem pushUpdate_eq_ok {assignments : List Assignment}
    (h : query.pushUpdate assignments = .ok next) : ∃ earlier,
      (query.clauses.verb = .update earlier ∨ query.clauses.verb = .select ∧ earlier = []) ∧
      next = query.modify fun clauses ↦
        countingRows { clauses with verb := .update (earlier ++ assignments) } := by
  simp only [pushUpdate, bind_eq_ok] at h
  obtain ⟨_, _, _, _, h⟩ := h
  split at h
  · rename_i earlier hverb
    cases h
    exact ⟨earlier, .inl hverb, rfl⟩
  · rename_i hverb
    cases h
    exact ⟨[], .inr ⟨hverb, rfl⟩, rfl⟩
  · cases h

/-- An update takes the values of its payload but the one of the time column the table stamps. -/
theorem update_eq_ok {data : Payload} (h : query.update data = .ok next) : ∃ table values,
    query.clauses.requireTable "update" = .ok table ∧
    data.columnValues table "update" = .ok values ∧
    query.pushUpdate ((values.filter fun value ↦ table.updatedAt != some value.1).map
      fun value ↦ .set value.1 value.2) = .ok next := by
  simp only [update, bind_eq_ok] at h
  obtain ⟨table, htable, values, hvalues, h⟩ := h
  exact ⟨table, values, htable, hvalues, h⟩

/-- A fallback is an insertion of the row, and only a filtered query on a table takes one. -/
theorem orCreate_eq_ok {row : Payload} (h : query.orCreate row = .ok next) : ∃ table fallback,
    query.clauses.requireTable "or_create" = .ok table ∧ query.clauses.filter.isSet ∧
    (query.withClauses (fallbackBase query.clauses table)).insert row = .ok fallback ∧
    next = query.modify fun clauses ↦ { clauses with
      shape :=
        if clauses.shape.expectsOne || clauses.shape = .rowCount then clauses.shape else .one
      inTransaction := true
      fallback := some fallback.statement } := by
  simp only [orCreate, bind_eq_ok, refusing_eq_ok, pure_eq_ok] at h
  obtain ⟨table, htable, hfilter, fallback, hfallback, rfl⟩ := h
  exact ⟨table, fallback, htable, by simpa using hfilter, hfallback, rfl⟩

/-- Without anything to update, a row is only asked for in place of the query. -/
theorem upsert_eq_ok {data row : Payload} :
    query.upsert data row = .ok next ↔
      data.entries.isEmpty ∧ query.orCreate row = .ok next ∨
      ¬data.entries.isEmpty ∧ ∃ updated, query.update data = .ok updated ∧
        updated.orCreate row = .ok next := by
  unfold upsert
  split <;> simp_all [bind_eq_ok]

theorem delete_eq_ok (h : query.delete = .ok next) : query.clauses.verb = .select ∧
    next = query.modify fun clauses ↦ countingRows { clauses with verb := .delete } := by
  simp only [delete, bind_eq_ok] at h
  obtain ⟨_, _, _, _, h⟩ := h
  split at h
  · rename_i hverb
    exact ⟨hverb, (pure_eq_ok.1 h).symm⟩
  · cases h

/-! ## Whole tables -/

/-- Emptying a table starts from a selection and hands back nothing. -/
theorem truncate_eq_ok {options : TruncateOptions} (h : query.truncate options = .ok next) :
    query.clauses.verb = .select ∧ next = query.modify fun clauses ↦
      { clauses with verb := .truncate options, shape := .void } := by
  simp only [truncate, bind_eq_ok] at h
  obtain ⟨_, _, h⟩ := h
  split at h
  · rename_i hverb
    exact ⟨hverb, (pure_eq_ok.1 h).symm⟩
  · cases h

theorem describe_eq_ok {column : Option String} (h : query.describe column = .ok next) :
    next = query.modify fun clauses ↦ { clauses with
      verb := .describe column
      shape := if column.isSome then .oneOrThrow else .all } := by
  simp only [describe, bind_eq_ok, pure_eq_ok] at h
  obtain ⟨_, _, rfl⟩ := h
  rfl

/-- Only a selection becomes a copy, with a format that is a word. -/
theorem copy_eq_ok {options : CopyOptions} (h : query.copy options = .ok next) :
    options.Checked ∧ query.clauses.verb = .select ∧ next = query.modify fun clauses ↦
      { clauses with verb := .copy options, shape := .rowCount } := by
  simp only [copy, bind_eq_ok] at h
  obtain ⟨_, _, h⟩ := h
  cases hformat : options.format with
  | none =>
    simp only [hformat] at h
    split at h
    · rename_i hverb
      exact ⟨by simp [CopyOptions.Checked, hformat], hverb, (pure_eq_ok.1 h).symm⟩
    · cases h
  | some format =>
    simp only [hformat, refusing_eq_ok] at h
    obtain ⟨hform, h⟩ := h
    split at h
    · rename_i hverb
      exact ⟨by simpa [CopyOptions.Checked, hformat] using hform, hverb, (pure_eq_ok.1 h).symm⟩
    · cases h

end SqlComposer.Query
