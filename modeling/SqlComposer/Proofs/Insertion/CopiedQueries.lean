import SqlComposer.Proofs.Insertion.InsertedMatrix
import SqlComposer.Proofs.Statement.FoldedClauses
import SqlComposer.Proofs.Statement.WrittenChanges

/-!
# Insertions from a query

An insertion from a query embeds the query with its selection extended by the values that it is
given. The columns of the insertion line up with the items of that selection: first the output
columns of the query, each under its own name, and then the keys of the values, which lie over the
defaults. The keys are distinct, but nothing keeps them apart from the output columns, nor the
output columns from each other, so a column may be named twice.
-/

namespace SqlComposer

/-! ## What is inserted -/

namespace Table

/-- The values that a row has for known columns, in reading order. -/
def valuesFor (table : Table) (under : List Payload) (row : Payload) : List (String × Term) :=
  (row.readKeys under).filterMap fun key ↦
    (table.valueFor? under row key).map fun value ↦ (key, value)

variable {table : Table} {under : List Payload} {row : Payload} {purpose : String}
  {values : List (String × Term)}

theorem mem_valuesFor {column : String} {value : Term} :
    (column, value) ∈ table.valuesFor under row ↔
      table.valueFor? under row column = some value := by
  simp only [valuesFor, List.mem_filterMap, Option.map_eq_some_iff, Prod.mk.injEq]
  constructor
  · rintro ⟨key, -, held, hheld, rfl, rfl⟩
    exact hheld
  · intro h
    exact ⟨column, mem_readKeys_of_value h, value, h, rfl, rfl⟩

theorem nodup_valuesFor (table : Table) (under : List Payload) (row : Payload) :
    ((table.valuesFor under row).map Prod.fst).Nodup := by
  have hkeys : (table.valuesFor under row).map Prod.fst =
      (row.readKeys under).filter fun key ↦ (table.valueFor? under row key).isSome := by
    rw [valuesFor, List.map_filterMap, ← List.filterMap_eq_filter]
    refine List.filterMap_congr fun key _ ↦ ?_
    cases hvalue : table.valueFor? under row key <;> simp [Option.guard, hvalue]
  rw [hkeys]
  exact (nodup_eraseDups _).filter _

/-- The values that are written for a row are those that it has over the defaults. -/
theorem columnValues_onto
    (h : (row.onto (Payload.layered under)).columnValues table purpose = .ok values) :
    values = table.valuesFor under row := by
  simp only [Payload.columnValues, bind_eq_ok, pure_eq_ok] at h
  obtain ⟨options, hoptions, rfl⟩ := h
  refine Payload.filterMap_results _ _ (fun key entry option hheld hoption ↦ ?_)
    (forall₂_of_mapM hoptions)
  unfold valueFor?
  rw [hheld]
  cases entry with
  | value term =>
    simp only [Except.ok.injEq] at hoption
    subst hoption
    by_cases htakes : table.takesKey key <;> simp [htakes]
  | create | createMany => cases hoption

end Table

namespace Query

/-- The selection of a query, with values behind what it selects. -/
def extended (source : Query) (values : List (String × Term)) : Clauses Statement :=
  { source.clauses with
    selection := source.clauses.selection ++ values.map fun value ↦ ⟨.term value.2, none⟩ }

variable {query source next start : Query} {data : Payload} {calls : List Call}

/-- A query that inserts from another one embeds its selection with the values for known columns. -/
theorem exists_of_insertFrom (accepted : query.insertFrom source data = .ok next) :
    ∃ table names values, query.clauses.table = some table ∧ source.clauses.shape.expectsOne ∧
      source.clauses.verb = .select ∧ source.clauses.selection ≠ [] ∧
      source.clauses.selection.map SelectItem.outputName? = names.map some ∧
      (data.onto query.clauses.defaults).columnValues table "insert_from" = .ok values ∧
      query.clauses.verb = .select ∧
      next.clauses.verb =
        .insert ⟨names ++ values.map Prod.fst, .query ⟨source.extended values⟩, none⟩ := by
  obtain ⟨table, names, values, hrequired, hone, hselect, hselected, hnames, hvalues, hverb, rfl⟩ :=
    insertFrom_eq_ok accepted
  have houtput : source.clauses.selection.map SelectItem.outputName? = names.map some := by
    rw [← List.forall₂_eq_eq_eq, List.forall₂_map_left_iff, List.forall₂_map_right_iff]
    refine (forall₂_of_mapM hnames).imp fun item name hname ↦ ?_
    split at hname <;> cases hname
    assumption
  exact ⟨table, names, values, Clauses.requireTable_eq_ok.1 hrequired, hone, hselect, hselected,
    houtput, hvalues, hverb, rfl⟩

end Query

/-! ## How it is written -/

namespace Clauses

/-- The SELECT list of a selection of items is the list of their codes. -/
theorem exists_select_list {clauses : Clauses Written} {code : Code}
    (select : clauses.verb = .select) (some : clauses.selection ≠ [])
    (h : clauses.code = .ok code) : ∃ declarations codes after,
      CommonTable.declarations clauses.commonTables = .ok declarations ∧
      SelectItem.codes clauses.qualifier clauses.selection = .ok codes ∧
      code = declarations ++ (.word "SELECT " :: clauses.distinctCode ++
        Code.separated ", " codes) ++ after := by
  obtain ⟨declarations, change, hdeclarations, hchange, rfl⟩ := code_eq_ok h
  simp only [verbCode, select, selectCode, bind_eq_ok, pure_eq_ok] at hchange
  obtain ⟨projection, hprojection, _, -, _, -, _, -, _, -, _, -, _, -, _, -, _, -, _, -, rfl⟩ :=
    hchange
  rw [projectionCode, if_neg (by simpa using some), bind_eq_ok] at hprojection
  obtain ⟨codes, hcodes, hlist⟩ := hprojection
  rw [← pure_eq_ok.1 hlist]
  exact ⟨declarations, codes, _, hdeclarations, hcodes, by
    simp only [List.append_assoc, List.cons_append]; rfl⟩

/-- An insertion writes its columns and where their values come from. -/
theorem exists_insert_source {clauses : Clauses Written} {insertion : Insertion Written}
    {code : Code} (verb : clauses.verb = .insert insertion) (h : clauses.code = .ok code) :
    ∃ before source after, insertion.sourceCode = .ok source ∧
      code = before ++ source ++ after := by
  obtain ⟨declarations, _, -, hchange, rfl⟩ := code_eq_ok h
  obtain ⟨table, written, returning, -, hwritten, -, rfl⟩ := insert_eq_ok verb hchange
  obtain ⟨source, hsource, hinsertion⟩ := bind_eq_ok.1 hwritten
  obtain ⟨reaction, rfl⟩ : ∃ reaction,
      .word "INSERT INTO " :: clauses.targetCode table ++ source ++ reaction = written := by
    split at hinsertion
    · obtain ⟨reaction, -, hinsertion⟩ := bind_eq_ok.1 hinsertion
      exact ⟨reaction, pure_eq_ok.1 hinsertion⟩
    · simp only [refusing_eq_ok, pure_bind, pure_eq_ok] at hinsertion
      exact ⟨[], hinsertion.2⟩
  refine ⟨declarations ++ .word "INSERT INTO " :: clauses.targetCode table, source,
    reaction ++ returning, hsource, ?_⟩
  simp only [List.append_assoc, List.cons_append]

/-- An insertion from a query names its columns right in front of the query. -/
theorem exists_insert_query {clauses : Clauses Written} {columns : List String} {sub : Written}
    {code : Code} (verb : clauses.verb = .insert ⟨columns, .query sub, none⟩)
    (h : clauses.code = .ok code) : ∃ before inner after, sub = .ok inner ∧
      code = before ++ (Code.parenthesized (Code.nameList columns) ++ .word " " :: inner) ++
        after := by
  obtain ⟨before, source, after, hsource, rfl⟩ := exists_insert_source verb h
  simp only [Insertion.sourceCode, bind_eq_ok, pure_eq_ok] at hsource
  obtain ⟨inner, hinner, rfl⟩ := hsource
  exact ⟨before, inner, after, hinner, rfl⟩

end Clauses

namespace Query

variable {query source next start : Query} {data : Payload} {calls : List Call}

/-- A query inserts into columns what a selection reads, item by item. -/
structure Copies (next : Query) (columns : List String) (embedded : Clauses Statement) : Prop where
  stored : next.clauses.verb = .insert ⟨columns, .query ⟨embedded⟩, none⟩
  select : embedded.verb = .select
  width : embedded.selection.length = columns.length
  written : ∀ code, next.statement.code = .ok code → ∃ before declarations codes after,
    CommonTable.declarations (Statement.foldClauses Clauses.code embedded).commonTables =
      .ok declarations ∧
    SelectItem.codes embedded.qualifier (embedded.selection.map (Statement.foldItem Clauses.code)) =
      .ok codes ∧
    codes.length = columns.length ∧
    code = before ++ (Code.parenthesized (Code.nameList columns) ++ .word " " :: declarations ++
      (.word "SELECT " :: (Statement.foldClauses Clauses.code embedded).distinctCode ++
        Code.separated ", " codes)) ++ after

/-- A stored insertion from a selection of the same width copies its items into its columns. -/
theorem Copies.of_stored {columns : List String} {embedded : Clauses Statement}
    (stored : next.clauses.verb = .insert ⟨columns, .query ⟨embedded⟩, none⟩)
    (select : embedded.verb = .select) (some : embedded.selection ≠ [])
    (width : embedded.selection.length = columns.length) : next.Copies columns embedded := by
  refine ⟨stored, select, width, fun code hcode ↦ ?_⟩
  rw [Statement.code, statement, Statement.fold] at hcode
  have hverb : (Statement.foldClauses Clauses.code next.clauses).verb =
      .insert ⟨columns, .query (Statement.fold Clauses.code ⟨embedded⟩), none⟩ := by
    rw [Statement.verb_fold, stored]
    simp only [Statement.foldVerb, Statement.foldInsertion, Statement.foldInsertSource]
  obtain ⟨before, inner, after, hinner, rfl⟩ := Clauses.exists_insert_query hverb hcode
  rw [Statement.fold] at hinner
  obtain ⟨declarations, codes, rest, hdeclarations, hcodes, rfl⟩ := Clauses.exists_select_list
    (by rw [Statement.verb_fold, select, Statement.foldVerb])
    (by rw [Statement.selection_fold]; simpa using some) hinner
  rw [Statement.qualifier_fold, Statement.selection_fold] at hcodes
  refine ⟨before, declarations, codes, rest ++ after, hdeclarations, hcodes, ?_, ?_⟩
  · rw [← (forall₂_of_mapM hcodes).length_eq, List.length_map, width]
  · simp only [List.append_assoc, List.cons_append]

/-- What is inserted from a query lines up with the columns: every output column of the query takes
its own item, and every key of the values the value under it, which is one of the given data before
it is one of the defaults. A column is named twice exactly if two output columns have its name, or
an output column and a value. -/
theorem copies_inserted (new : start.IsNew) (built : calls.foldlM Call.apply start = .ok query)
    (accepted : query.insertFrom source data = .ok next) :
    ∃ table names values, query.clauses.table = some table ∧
      source.clauses.selection.map SelectItem.outputName? = names.map some ∧
      values = table.valuesFor (calls.foldl Call.defaulting []) data ∧
      next.Copies (names ++ values.map Prod.fst) (source.extended values) ∧
      List.Forall₂ (fun column item ↦
        item.outputName? = some column ∨
          ∃ value, table.valueFor? (calls.foldl Call.defaulting []) data column = some value ∧
            item = ⟨.term value, none⟩)
        (names ++ values.map Prod.fst) (source.extended values).selection ∧
      ((names ++ values.map Prod.fst).Nodup ↔ names.Nodup ∧ ∀ name ∈ names,
        table.valueFor? (calls.foldl Call.defaulting []) data name = none) := by
  obtain ⟨table, names, values, htable, -, hselect, hsome, hnames, hvalues, hverb, hstored⟩ :=
    exists_of_insertFrom accepted
  rw [(new.carried.foldlM built).defaults hverb] at hvalues
  have hwritten := Table.columnValues_onto hvalues
  have hwidth : (source.extended values).selection.length =
      (names ++ values.map Prod.fst).length := by
    have hlength := congrArg List.length hnames
    rw [List.length_map, List.length_map] at hlength
    simp [extended, hlength]
  refine ⟨table, names, values, htable, hnames, hwritten,
    .of_stored hstored hselect (by simp [extended, hsome]) hwidth, ?_, ?_⟩
  · refine List.rel_append ?_ ?_
    · rw [← List.forall₂_eq_eq_eq, List.forall₂_map_left_iff, List.forall₂_map_right_iff] at hnames
      exact hnames.flip.imp fun _ _ ↦ .inl
    · rw [List.forall₂_map_left_iff, List.forall₂_map_right_iff, List.forall₂_same, hwritten]
      exact fun value hvalue ↦ .inr ⟨value.2, Table.mem_valuesFor.1 hvalue, rfl⟩
  · rw [List.nodup_append', hwritten]
    have hkeys := Table.nodup_valuesFor table (calls.foldl Call.defaulting []) data
    have hapart : names.Disjoint
        ((table.valuesFor (calls.foldl Call.defaulting []) data).map Prod.fst) ↔
        ∀ name ∈ names, table.valueFor? (calls.foldl Call.defaulting []) data name = none := by
      refine forall₂_congr fun name _ ↦ ?_
      rw [Option.eq_none_iff_forall_ne_some, List.mem_map]
      constructor
      · intro h value hvalue
        exact h ⟨(name, value), Table.mem_valuesFor.2 hvalue, rfl⟩
      · rintro h ⟨⟨key, value⟩, hvalue, rfl⟩
        exact h value (Table.mem_valuesFor.1 hvalue)
    exact and_congr_right fun _ ↦ ⟨fun h ↦ hapart.1 h.2, fun h ↦ ⟨hkeys, hapart.2 h⟩⟩

end Query

/-! ## Users named after posts -/

namespace Blog

def firstTitle : Query := (posts.selectItems [⟨.column ⟨none, "title"⟩, some "name"⟩]).take

/-- The title becomes the name of a user, whose number is one of the defaults. -/
theorem copies_title : ∃ query next columns embedded,
    [.defaults (Payload.empty.set "id" (.literal (.int 7)))].foldlM Call.apply users = .ok query ∧
    query.insertFrom firstTitle .empty = .ok next ∧ next.Copies columns embedded ∧
    next.insertedColumns = ["name", "id"] ∧ ∃ sql, next.compile = .ok sql ∧
      sql.text = "INSERT INTO \"user\"(\"name\", \"id\") " ++
        "SELECT \"post\".\"title\" AS \"name\", $1 FROM \"post\" LIMIT $2 RETURNING *" := by
  obtain ⟨query, hbuilt⟩ : ∃ query,
      [.defaults (Payload.empty.set "id" (.literal (.int 7)))].foldlM Call.apply users =
        .ok query := ⟨_, rfl⟩
  obtain ⟨next, haccepted⟩ : ∃ next, query.insertFrom firstTitle .empty = .ok next := by
    cases hbuilt
    exact ⟨_, rfl⟩
  obtain ⟨_, _, _, -, -, -, hcopies, -, -⟩ :=
    Query.copies_inserted (.ofTable user (some catalog) none) hbuilt haccepted
  cases hbuilt
  cases haccepted
  exact ⟨_, _, _, _, rfl, rfl, hcopies, rfl, _, rfl, by decide +kernel⟩

/-- A name that all users are given is inserted besides the one that is selected. -/
theorem named_twice : ∃ query next,
    [.defaults (text "name" "Ada")].foldlM Call.apply users = .ok query ∧
    query.insertFrom firstTitle .empty = .ok next ∧ ¬next.insertedColumns.Nodup ∧
    ∃ sql, next.compile = .ok sql ∧
      sql.text = "INSERT INTO \"user\"(\"name\", \"name\") " ++
        "SELECT \"post\".\"title\" AS \"name\", $1 FROM \"post\" LIMIT $2 RETURNING *" := by
  refine ⟨_, _, rfl, rfl, ?_, _, rfl, by decide +kernel⟩
  change ¬["name", "name"].Nodup
  decide

end Blog
end SqlComposer
