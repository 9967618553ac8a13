import SqlComposer.Proofs.Insertion.PayloadKeys
import SqlComposer.Proofs.Insertion.RelatedRequests

/-!
# Planned insertions

An insertion that was planned from payloads has a row for each of them and in each row a cell for
each of its columns. Filling the key of a related row into a cell changes this cell only, so the
cell of a column that no related row is inserted for holds what the payload of the row says. The
insertions of related rows are planned from the rows that were asked for, laid over no defaults.
-/

namespace SqlComposer

/-- The table of a name in a catalog, if there is a catalog. -/
def Catalog.lookUp (catalog : Option Catalog) (name : String) : Option Table :=
  catalog.bind fun catalog ↦ catalog.table? name

theorem Catalog.isSome_of_lookUp {catalog : Option Catalog} {name : String} {table : Table}
    (h : lookUp catalog name = some table) : catalog.isSome = true := by
  cases catalog with
  | none => cases h
  | some catalog => rfl

/-! ## Rows and columns -/

namespace Query

def insertedColumns (query : Query) : List String :=
  match query.clauses.verb with
  | .insert insertion => insertion.columns
  | _ => []

def insertedRows (query : Query) : List (List Cell) :=
  match query.clauses.verb with
  | .insert ⟨_, .rows rows, _⟩ => rows
  | _ => []

/-- The cell of a row of an insertion under a column. -/
def cell? (query : Query) (row : Nat) (column : String) : Option Cell :=
  query.insertedRows[row]?.bind fun cells ↦ cells[query.insertedColumns.idxOf column]?

/-- An insertion of some height writes that many rows, all of the width of its columns. -/
structure Rectangular (query : Query) (height : Nat) : Prop where
  verb : ∃ insertion, query.clauses.verb = .insert insertion
  height : query.insertedRows.length = height
  width : ∀ cells ∈ query.insertedRows, cells.length = query.insertedColumns.length

variable {query : Query} {height row column : Nat} {key : Literal}

theorem verb_fillCell :
    (query.fillCell row column key).clauses.verb =
      match query.clauses.verb with
      | .insert insertion => .insert (insertion.fill row column key)
      | verb => verb := by
  unfold fillCell modify
  cases h : query.clauses.verb <;> simp [h]

/-- Filling a cell changes nothing but what is inserted. -/
theorem clauses_fillCell :
    (query.fillCell row column key).clauses =
      { query.clauses with verb := (query.fillCell row column key).clauses.verb } := by
  simp only [fillCell, modify]
  split <;> rfl

@[simp]
theorem insertedColumns_fillCell :
    (query.fillCell row column key).insertedColumns = query.insertedColumns := by
  unfold insertedColumns
  rw [verb_fillCell]
  cases query.clauses.verb with
  | insert insertion =>
    obtain ⟨columns, source, conflict⟩ := insertion
    cases source <;> rfl
  | _ => rfl

@[simp]
theorem insertedRows_fillCell :
    (query.fillCell row column key).insertedRows =
      query.insertedRows.modify row fun cells ↦ cells.set column (.value (.literal key)) := by
  unfold insertedRows
  rw [verb_fillCell]
  cases query.clauses.verb with
  | insert insertion =>
    obtain ⟨columns, source, conflict⟩ := insertion
    cases source with
    | rows rows => rfl
    | _ => simp [Insertion.fill]
  | _ => simp

theorem Rectangular.fillCell (h : query.Rectangular height) :
    (query.fillCell row column key).Rectangular height := by
  obtain ⟨insertion, hverb⟩ := h.verb
  refine ⟨⟨insertion.fill row column key, by rw [verb_fillCell, hverb]⟩, by simp [h.height],
    fun cells hcells ↦ ?_⟩
  rw [insertedRows_fillCell] at hcells
  obtain ⟨index, hindex⟩ := List.mem_iff_getElem?.1 hcells
  rw [List.getElem?_modify] at hindex
  obtain ⟨before, hbefore, hcell⟩ := Option.map_eq_some_iff.1 hindex
  rw [insertedColumns_fillCell, ← h.width before (List.mem_of_getElem? hbefore), ← hcell]
  split <;> simp

/-- A filled cell holds the key. -/
theorem cell?_fillCell_self {column : String} (h : query.Rectangular height) (inside : row < height)
    (mem : column ∈ query.insertedColumns) :
    (query.fillCell row (query.insertedColumns.idxOf column) key).cell? row column =
      some (.value (.literal key)) := by
  obtain ⟨cells, hcells⟩ : ∃ cells, query.insertedRows[row]? = some cells :=
    ⟨_, List.getElem?_eq_getElem (h.height.symm ▸ inside)⟩
  have hwidth : query.insertedColumns.idxOf column < cells.length := by
    rw [h.width cells (List.mem_of_getElem? hcells)]
    exact List.idxOf_lt_length_of_mem mem
  simp [cell?, hcells, hwidth]

/-- Cells other than the filled one stay as they are. -/
theorem cell?_fillCell_other {other : Nat} {name : String}
    (h : other = row → query.insertedColumns.idxOf name ≠ column) :
    (query.fillCell row column key).cell? other name = query.cell? other name := by
  unfold cell?
  rw [insertedRows_fillCell, insertedColumns_fillCell, List.getElem?_modify]
  cases query.insertedRows[other]? with
  | none => rfl
  | some cells =>
    simp only [Option.map_eq_map, Option.map_some, Option.bind_some]
    split
    · rename_i hrow
      exact List.getElem?_set_ne (h hrow.symm).symm
    · rfl

/-- A query with some of its cells filled. -/
inductive Filled (query : Query) : Query → Prop
  | refl : Filled query query
  | fill {filled : Query} (h : Filled query filled) (row column : Nat) (key : Literal) :
      Filled query (filled.fillCell row column key)

variable {filled : Query}

/-- A query with filled cells differs in what is inserted only. -/
theorem Filled.clauses (h : query.Filled filled) :
    filled.clauses = { query.clauses with verb := filled.clauses.verb } := by
  induction h with
  | refl => rfl
  | fill _ row column key ih => rw [clauses_fillCell, ih]

theorem Filled.rectangular (h : query.Filled filled) (rectangular : query.Rectangular height) :
    filled.Rectangular height := by
  induction h with
  | refl => exact rectangular
  | fill _ row column key ih => exact ih.fillCell

theorem Filled.verb (h : query.Filled filled)
    (inserts : ∃ insertion, query.clauses.verb = .insert insertion) :
    ∃ insertion, filled.clauses.verb = .insert insertion := by
  induction h with
  | refl => exact inserts
  | fill _ row column key ih =>
    obtain ⟨insertion, hverb⟩ := ih
    exact ⟨insertion.fill row column key, by rw [verb_fillCell, hverb]⟩

/-! ## Planned insertions -/

/-- A query inserts the rows of payloads into a table as they were planned. -/
structure Plans (query : Query) (table : Table) (payloads : List Payload) (plan : RowPlan) :
    Prop where
  target : query.clauses.table = some table
  planned : RowPlan.ofPayloads table query.catalog.isSome payloads = .ok plan
  verb : ∃ conflict, query.clauses.verb = .insert ⟨plan.columns, .rows plan.cells, conflict⟩
  readBack : query.clauses.readBack = plan.readBack
  related : query.clauses.related = plan.related

namespace Plans

variable {table : Table} {payloads : List Payload} {plan : RowPlan}

theorem insertedColumns (h : query.Plans table payloads plan) :
    query.insertedColumns = plan.columns := by
  obtain ⟨conflict, hverb⟩ := h.verb
  simp only [Query.insertedColumns, hverb]

theorem insertedRows (h : query.Plans table payloads plan) : query.insertedRows = plan.cells := by
  obtain ⟨conflict, hverb⟩ := h.verb
  simp only [Query.insertedRows, hverb]

theorem rectangular (h : query.Plans table payloads plan) :
    query.Rectangular payloads.length := by
  obtain ⟨conflict, hverb⟩ := h.verb
  refine ⟨⟨_, hverb⟩, ?_, fun cells hcells ↦ ?_⟩
  · rw [h.insertedRows, RowPlan.cells, List.length_map,
      (RowPlan.rows_ofPayloads h.planned).length_eq]
  · rw [h.insertedRows, RowPlan.cells, List.mem_map] at hcells
    obtain ⟨parts, -, rfl⟩ := hcells
    rw [h.insertedColumns, RowPlan.rowCells, List.length_map]

/-- The related insertions of a query are for what its payloads ask for, in their order. -/
theorem requests (h : query.Plans table payloads plan) :
    query.clauses.related.map RelatedInsert.request = table.requests payloads := by
  rw [h.related, RowPlan.requests_related h.planned]

theorem fits (h : query.Plans table payloads plan) :
    ∀ related ∈ query.clauses.related, related.Fits query.insertedColumns payloads.length := by
  rw [h.related, h.insertedColumns]
  exact RowPlan.fits_related h.planned

/-- A cell holds what the parts of its row say of its column. -/
theorem cell?_eq (h : query.Plans table payloads plan) {row : Nat} {parts : List RowPart}
    {column : String} (hparts : plan.rows[row]? = some parts) (mem : column ∈ plan.columns) :
    query.cell? row column = some (RowPlan.cellAt column (parts.filterMap RowPart.cell?)) := by
  have hcolumn : plan.columns[plan.columns.idxOf column]? = some column := by
    rw [List.getElem?_eq_getElem (List.idxOf_lt_length_of_mem mem), List.getElem_idxOf]
  simp [Query.cell?, h.insertedRows, h.insertedColumns, RowPlan.cells, RowPlan.rowCells, hparts,
    hcolumn]

/-- A key that was set in every row stands in the cell of the row, unless the row asks for a row of
its own under it. -/
theorem cell?_set {rows : List Payload} {name : String} {key : Literal}
    (h : query.Plans table (rows.map fun row ↦ (row.set name (.literal key)).onto .empty) plan)
    {row : Nat} (inside : row < rows.length) (taken : table.takesKey name)
    (own : ∀ request ∈ table.requests
        (rows.map fun row ↦ (row.set name (.literal key)).onto .empty),
      request.precedes → request.row = row → request.relation.foreignKey ≠ name) :
    query.cell? row name = some (.value (.literal (table.encode name key))) := by
  obtain ⟨payload, given⟩ : ∃ payload, rows[row]? = some payload :=
    ⟨_, List.getElem?_eq_getElem inside⟩
  have hpayload : (rows.map fun row ↦ (row.set name (.literal key)).onto .empty)[row]? =
      some (payload.set name (.literal key)) := by
    rw [List.getElem?_map, given, Option.map_some, Payload.onto_empty]
  obtain ⟨parts, hparts, hentries⟩ : ∃ parts, plan.rows[row]? = some parts ∧
      (payload.set name (.literal key)).entries.mapM
        (RowPart.ofEntry table query.catalog.isSome) = .ok parts := by
    obtain ⟨planned, hplanned, hplan⟩ := bind_eq_ok.1 h.planned
    cases hplan
    exact exists_getElem?_of_forall₂ (forall₂_of_mapM hplanned) hpayload
  have hcell : RowPart.cell name (.literal (table.encode name key)) ∈ parts := by
    obtain ⟨part, hpart, hof⟩ := exists_result_of_mem hentries
      (payload.mem_entries_set name (.literal key))
    rw [RowPart.ofEntry, if_pos taken] at hof
    cases hof
    exact hpart
  have hcells : (name, Cell.value (.literal (table.encode name key))) ∈
      parts.filterMap RowPart.cell? := List.mem_filterMap.2 ⟨_, hcell, rfl⟩
  rw [h.cell?_eq hparts (RowPlan.mem_columns (List.mem_of_getElem? hparts) hcell rfl)]
  refine congrArg some (RowPlan.cellAt_eq hcells fun other hother ↦ ?_)
  obtain ⟨part, hpart, hother⟩ := List.mem_filterMap.1 hother
  obtain ⟨entry, hentry, hof⟩ := exists_of_mem_results hentries hpart
  rcases RowPart.cell?_ofEntry hof hother row with
    ⟨term, rfl, rfl⟩ | ⟨request, hrequest, hfirst, hkey⟩
  · have hsame := List.inj_on_of_nodup_map (Payload.nodup_entries _) hentry
      (payload.mem_entries_set name (.literal key)) rfl
    cases hsame
    rfl
  · have hasked := Table.mem_requests.2 ⟨row, _, hpayload, entry, hentry, hrequest⟩
    exact absurd hkey (own request hasked hfirst (Table.row_request? hrequest))

end Plans

/-- The insertion that a selection becomes by a plan. -/
def planned (query : Query) (plan : RowPlan) (many : Bool) : Query :=
  query.modify fun clauses ↦ { clauses with
    filter := .unset
    everyRow := false
    selection := if clauses.counts then [] else clauses.selection
    shape := if clauses.counts then .rowCount else insertShape many clauses.shape
    verb := .insert ⟨plan.columns, .rows plan.cells, none⟩
    inTransaction := clauses.inTransaction || !plan.related.isEmpty
    readBack := plan.readBack
    related := plan.related }

/-- A planned insertion starts from a selection. -/
theorem startInsert_rows_eq_ok {inserted : Query} {plan : RowPlan} {many : Bool} :
    query.startInsert ⟨plan.columns, .rows plan.cells, none⟩ many plan.readBack plan.related =
        .ok inserted ↔
      query.clauses.verb = .select ∧ inserted = query.planned plan many := by
  unfold startInsert
  cases query.clauses.verb with
  | select =>
    simp only [Except.ok.injEq, true_and]
    exact eq_comm
  | _ => simp

/-- Rows are inserted into the table of a selection, laid over its defaults. -/
theorem insertRows_eq_ok {inserted : Query} {rows : List Payload} {many : Bool} :
    query.insertRows rows many = .ok inserted ↔ ∃ table plan,
      query.clauses.table = some table ∧
      RowPlan.ofPayloads table query.catalog.isSome
        (rows.map fun row ↦ row.onto query.clauses.defaults) = .ok plan ∧
      ¬(plan.columns.isEmpty ∧ 1 < rows.length) ∧ query.clauses.verb = .select ∧
      inserted = query.planned plan many := by
  simp only [insertRows, bind_eq_ok, refusing_eq_ok, startInsert_rows_eq_ok, Bool.and_eq_true,
    decide_eq_true_eq, Clauses.requireTable]
  cases query.clauses.table <;> simp

/-- The planned query has the plan of its payloads. -/
theorem plans_planned {table : Table} {payloads : List Payload} {plan : RowPlan} (many : Bool)
    (target : query.clauses.table = some table)
    (h : RowPlan.ofPayloads table query.catalog.isSome payloads = .ok plan) :
    (query.planned plan many).Plans table payloads plan :=
  ⟨target, h, ⟨none, rfl⟩, rfl, rfl⟩

/-! ## Handles of insertions -/

/-- What a query becomes by the methods that insert rows. -/
inductive Starts (query : Query) : List Payload → Query → Prop
  | insert {row : Payload} {inserted : Query} (h : query.insert row = .ok inserted) :
      Starts query [row] inserted
  | insertMany {rows : List Payload} {inserted : Query} (h : query.insertMany rows = .ok inserted) :
      Starts query rows inserted

/-- A query inserts rows that were given to another one: whatever it hands back, declares and does
about conflicts, the rows are those of the insertion that the other one became, with all that
belongs to them. -/
structure Inserts (query base : Query) (rows : List Payload) : Prop where
  kept : ∃ inserted columns cells conflict reaction, base.Starts rows inserted ∧
    inserted.clauses.verb = .insert ⟨columns, .rows cells, conflict⟩ ∧
    query.clauses.verb = .insert ⟨columns, .rows cells, reaction⟩ ∧
    query.catalog = inserted.catalog ∧ query.clauses.table = inserted.clauses.table ∧
    query.clauses.readBack = inserted.clauses.readBack ∧
    query.clauses.related = inserted.clauses.related

/-- An insertion that starts has a plan for its rows over the defaults. -/
theorem Starts.exists_planned {inserted : Query} {rows : List Payload}
    (h : query.Starts rows inserted) : rows ≠ [] ∧ ∃ table plan many,
      query.clauses.table = some table ∧
      RowPlan.ofPayloads table query.catalog.isSome
        (rows.map fun row ↦ row.onto query.clauses.defaults) = .ok plan ∧
      (plan.columns.isEmpty → rows.length ≤ 1) ∧ (many = false → rows.length = 1) ∧
      inserted = query.planned plan many := by
  have hnarrow {columns : List String} {rows : List Payload}
      (h : ¬(columns.isEmpty ∧ 1 < rows.length)) (hempty : columns.isEmpty) : rows.length ≤ 1 :=
    Nat.le_of_not_lt fun hmany ↦ h ⟨hempty, hmany⟩
  cases h with
  | insert h =>
    obtain ⟨table, plan, htable, hplan, -, -, rfl⟩ := insertRows_eq_ok.1 h
    exact ⟨List.cons_ne_nil _ _, table, plan, false, htable, hplan, fun _ ↦ Nat.le_refl 1,
      fun _ ↦ rfl, rfl⟩
  | insertMany h =>
    unfold Query.insertMany at h
    split at h
    · cases h
    · rename_i hsome
      obtain ⟨table, plan, htable, hplan, hcolumns, -, rfl⟩ := insertRows_eq_ok.1 h
      exact ⟨by simpa using hsome, table, plan, true, htable, hplan, hnarrow hcolumns, nofun, rfl⟩

theorem not_expectsOne_insertShape (shape : Shape) : ¬(insertShape true shape).expectsOne := by
  cases shape <;> exact Bool.false_ne_true

/-- An insertion in a shape of one row inserts one. -/
theorem Starts.single {inserted : Query} {rows : List Payload} (h : query.Starts rows inserted)
    (expects : inserted.clauses.shape.expectsOne) : rows.length = 1 := by
  obtain ⟨-, table, plan, many, -, -, -, hone, rfl⟩ := h.exists_planned
  cases many with
  | false => exact hone rfl
  | true =>
    simp only [planned, modify] at expects
    split at expects
    · cases expects
    · exact absurd expects (not_expectsOne_insertShape _)

/-- A query that inserts rows inserts them as they were planned, laid over the defaults. -/
theorem Inserts.plans {base : Query} {rows : List Payload} (h : query.Inserts base rows) :
    rows ≠ [] ∧ query.catalog = base.catalog ∧ ∃ table plan, base.clauses.table = some table ∧
      query.Plans table (rows.map fun row ↦ row.onto base.clauses.defaults) plan ∧
      (plan.columns.isEmpty → rows.length ≤ 1) := by
  obtain ⟨inserted, columns, cells, conflict, reaction, hstarts, hverb, hreaction, hcatalog, htable,
    hreadBack, hrelated⟩ := h.kept
  obtain ⟨hsome, table, plan, many, htarget, hplan, hnarrow, -, rfl⟩ := hstarts.exists_planned
  cases hverb
  refine ⟨hsome, hcatalog, table, plan, htarget,
    ⟨htable.trans htarget, ?_, ⟨reaction, hreaction⟩, hreadBack, hrelated⟩, hnarrow⟩
  rw [hcatalog]
  exact hplan

/-! ## Insertions of related rows -/

/-- A selection from a table of the same catalog. -/
def on (query : Query) (table : Table) : Query := ⟨.ofTable table, query.catalog, query.log⟩

theorem sibling_eq_ok {name : String} {other : Query} :
    query.sibling name = .ok other ↔
      ∃ table, Catalog.lookUp query.catalog name = some table ∧ other = query.on table := by
  unfold sibling Catalog.lookUp on
  cases query.catalog with
  | none => simp
  | some catalog =>
    cases hfound : catalog.table? name with
    | none => simp [hfound]
    | some table => simp [hfound, eq_comm]

variable {insertion : Query} {relation : Relation}

/-- The row that a row refers to is inserted alone and hands back its key. -/
theorem insertionBefore_eq_ok {data : Payload} :
    query.insertionBefore relation data = .ok insertion ↔ ∃ table plan reference,
      Catalog.lookUp query.catalog relation.table = some table ∧
      RowPlan.ofPayloads table query.catalog.isSome [data.onto .empty] = .ok plan ∧
      ColumnRef.parse relation.primaryKey = .ok reference ∧
      insertion =
        (((query.on table).planned plan false).selectItems [.ofColumn reference]).take := by
  simp only [insertionBefore, insert, select, bind_eq_ok, pure_eq_ok, sibling_eq_ok,
    insertRows_eq_ok]
  constructor
  · rintro ⟨_, ⟨table, htable, rfl⟩, _, ⟨_, plan, ⟨⟩, hplan, -, -, rfl⟩, _,
      ⟨references, hparse, rfl⟩, rfl⟩
    obtain ⟨reference, rest, hreference, hrest, rfl⟩ := mapM_eq_ok_cons.1 hparse
    rw [List.mapM_nil, pure_eq_ok] at hrest
    subst hrest
    exact ⟨table, plan, reference, htable, hplan, hreference, rfl⟩
  · rintro ⟨table, plan, reference, htable, hplan, hparse, rfl⟩
    refine ⟨_, ⟨table, htable, rfl⟩, _, ⟨table, plan, rfl, hplan, by simp, rfl, rfl⟩, _,
      ⟨[reference], ?_, rfl⟩, rfl⟩
    exact mapM_eq_ok_cons.2 ⟨reference, [], hparse, rfl, rfl⟩

/-- The insertion in front of a query has a plan for its one row. -/
theorem plans_insertionBefore {data : Payload}
    (built : query.insertionBefore relation data = .ok insertion) : ∃ table plan,
      Catalog.lookUp query.catalog relation.table = some table ∧
      insertion.Plans table [data.onto .empty] plan ∧ insertion.clauses.fallback = none ∧
      insertion.catalog = query.catalog := by
  obtain ⟨table, plan, reference, htable, hplan, -, rfl⟩ := insertionBefore_eq_ok.1 built
  exact ⟨table, plan, htable, ⟨rfl, hplan, ⟨none, rfl⟩, rfl, rfl⟩, rfl, rfl⟩

/-- Rows that refer to a row are inserted together, with its key under their foreign key. -/
theorem insertionAfter_eq_ok {rows : List Payload} {key : Literal} :
    query.insertionAfter relation rows key = .ok insertion ↔ ∃ table plan,
      Catalog.lookUp query.catalog relation.table = some table ∧ rows ≠ [] ∧
      RowPlan.ofPayloads table query.catalog.isSome
        (rows.map fun row ↦ (row.set relation.foreignKey (.literal key)).onto .empty) = .ok plan ∧
      ¬(plan.columns.isEmpty ∧ 1 < rows.length) ∧
      insertion = ((query.on table).planned plan true).count := by
  have hrows {next : Except Error Query} {inserted : Query} {rows : List Payload} :
      (if rows.isEmpty then .error .nothingInserted else next) = .ok inserted ↔
        rows ≠ [] ∧ next = .ok inserted := by
    cases rows <;> simp
  simp only [insertionAfter, insertMany, bind_eq_ok, pure_eq_ok, sibling_eq_ok, hrows,
    insertRows_eq_ok, List.length_map, List.map_map, ne_eq, List.map_eq_nil_iff]
  constructor
  · rintro ⟨_, ⟨table, htable, rfl⟩, _, ⟨hsome, _, plan, ⟨⟩, hplan, hcolumns, -, rfl⟩, rfl⟩
    exact ⟨table, plan, htable, hsome, hplan, hcolumns, rfl⟩
  · rintro ⟨table, plan, htable, hsome, hplan, hcolumns, rfl⟩
    exact ⟨_, ⟨table, htable, rfl⟩, _, ⟨hsome, table, plan, rfl, hplan, hcolumns, rfl, rfl⟩, rfl⟩

/-- The insertion behind a query has a plan for its rows, each with the key of the query. -/
theorem plans_insertionAfter {rows : List Payload} {key : Literal}
    (built : query.insertionAfter relation rows key = .ok insertion) : ∃ table plan,
      Catalog.lookUp query.catalog relation.table = some table ∧
      insertion.Plans table
        (rows.map fun row ↦ (row.set relation.foreignKey (.literal key)).onto .empty) plan ∧
      insertion.clauses.fallback = none ∧ insertion.catalog = query.catalog := by
  obtain ⟨table, plan, htable, -, hplan, -, rfl⟩ := insertionAfter_eq_ok.1 built
  exact ⟨table, plan, htable, ⟨rfl, hplan, ⟨none, rfl⟩, rfl, rfl⟩, rfl, rfl⟩

end Query

end SqlComposer
