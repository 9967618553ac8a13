import SqlComposer.Proofs.Nested.WellFormedPayloads

/-!
# Rows that are admitted

A table admits rows if there are any, each of their entries holds a value or rows for a relation
that takes them, and one of several rows fills a column. The methods that insert rows accept exactly
the rows that are admitted, laid over the defaults. They do not look at the rows inside of rows:
these are checked in the same way when their own insertion is built, after others have been sent.
Rows are admitted throughout if they pass at every depth. The keys that are filled in on the way
have no part in that.
-/

namespace SqlComposer

/-! ## One level -/

namespace Table

/-- An entry of an inserted row holds a value, or rows for a relation that takes them. Relations
are known with a catalog only. -/
def Admits (table : Table) (catalogued : Bool) : String × Entry → Prop
  | (_, .value _) => True
  | (key, .create _) => catalogued = true ∧ ∃ relation, table.relation? key = some relation
  | (key, .createMany _) =>
    catalogued = true ∧ ∃ relation, table.relation? key = some relation ∧ relation.kind = .hasMany

/-- An entry fills a column of its row. -/
def Fills (table : Table) : String × Entry → Prop
  | (key, .value _) => table.takesKey key = true
  | (key, .create _) =>
    ∃ relation, table.relation? key = some relation ∧ relation.kind = .belongsTo
  | (_, .createMany _) => False

/-- Rows that can be inserted together, as far as their own entries go. -/
structure AdmitsRows (table : Table) (catalogued : Bool) (rows : List Payload) : Prop where
  nonempty : rows ≠ []
  entries : ∀ row ∈ rows, ∀ entry ∈ row.entries, table.Admits catalogued entry
  /-- Several rows cannot be written without a column. -/
  filled : rows.length ≤ 1 ∨ ∃ row ∈ rows, ∃ entry ∈ row.entries, table.Fills entry

end Table

namespace RowPart

variable {table : Table} {catalogued : Bool} {entry : String × Entry} {part : RowPart}

/-- The entries that come to something are those that are admitted. -/
theorem exists_ofEntry :
    (∃ part, ofEntry table catalogued entry = .ok part) ↔ table.Admits catalogued entry := by
  constructor
  · rintro ⟨part, h⟩
    cases ofEntry_eq_ok.1 h with
    | cell | skipped => trivial
    | before known found | after known found => exact ⟨known, _, found⟩
    | many known found kind => exact ⟨known, _, found, kind⟩
  · obtain ⟨key, entry⟩ := entry
    cases entry with
    | value term => exact fun _ ↦ ⟨_, rfl⟩
    | create data =>
      rintro ⟨hcatalogued, relation, hdeclared⟩
      exact ⟨_, map_eq_ok.2 ⟨relation, relationOf_eq_ok.2 ⟨hcatalogued, hdeclared⟩, rfl⟩⟩
    | createMany rows =>
      rintro ⟨hcatalogued, relation, hdeclared, hkind⟩
      exact ⟨_, ofEntry_eq_ok.2 (.many hcatalogued hdeclared hkind)⟩

/-- A part has a cell if its entry fills a column. -/
theorem exists_cell?_ofEntry (h : ofEntry table catalogued entry = .ok part) :
    (∃ cell, part.cell? = some cell) ↔ table.Fills entry := by
  cases ofEntry_eq_ok.1 h with
  | cell taken | skipped taken => simp [Table.Fills, cell?, taken]
  | before _ found kind | after _ found kind => simp [Table.Fills, cell?, found, kind]
  | many => simp [Table.Fills, cell?]

end RowPart

namespace RowPlan

variable {table : Table} {catalogued : Bool} {rows : List Payload} {plan : RowPlan}

theorem exists_ofPayloads :
    (∃ plan, ofPayloads table catalogued rows = .ok plan) ↔
      ∀ row ∈ rows, ∀ entry ∈ row.entries, table.Admits catalogued entry := by
  constructor
  · rintro ⟨plan, hplan⟩ row hrow entry hentry
    obtain ⟨parts, hparts, -⟩ := bind_eq_ok.1 hplan
    obtain ⟨_, -, hentries⟩ := exists_result_of_mem hparts hrow
    obtain ⟨part, -, hpart⟩ := exists_result_of_mem hentries hentry
    exact RowPart.exists_ofEntry.1 ⟨part, hpart⟩
  · intro h
    obtain ⟨parts, hparts⟩ := exists_mapM_eq_ok fun row hrow ↦
      exists_mapM_eq_ok fun entry hentry ↦ RowPart.exists_ofEntry.2 (h row hrow entry hentry)
    exact ⟨⟨parts⟩, bind_eq_ok.2 ⟨parts, hparts, rfl⟩⟩

/-- A plan has columns if some entry fills one. -/
theorem columns_ne_nil (h : ofPayloads table catalogued rows = .ok plan) :
    plan.columns ≠ [] ↔ ∃ row ∈ rows, ∃ entry ∈ row.entries, table.Fills entry := by
  obtain ⟨parts, hparts, hplan⟩ := bind_eq_ok.1 h
  cases hplan
  constructor
  · intro hcolumns
    obtain ⟨column, hcolumn⟩ := List.exists_mem_of_ne_nil _ hcolumns
    obtain ⟨cell, hcell, -⟩ := List.mem_map.1 (List.mem_eraseDups.1 hcolumn)
    obtain ⟨part, hpart, hfilled⟩ := List.mem_filterMap.1 hcell
    obtain ⟨own, hown, hpart⟩ := List.mem_flatten.1 hpart
    obtain ⟨row, hrow, hentries⟩ := exists_of_mem_results hparts hown
    obtain ⟨entry, hentry, hof⟩ := exists_of_mem_results hentries hpart
    exact ⟨row, hrow, entry, hentry, (RowPart.exists_cell?_ofEntry hof).1 ⟨cell, hfilled⟩⟩
  · rintro ⟨row, hrow, entry, hentry, hfills⟩
    obtain ⟨own, hown, hentries⟩ := exists_result_of_mem hparts hrow
    obtain ⟨part, hpart, hof⟩ := exists_result_of_mem hentries hentry
    obtain ⟨⟨column, cell⟩, hcell⟩ := (RowPart.exists_cell?_ofEntry hof).2 hfills
    exact List.ne_nil_of_mem (mem_columns hown hpart hcell)

end RowPlan

/-- Rows are admitted iff they have a plan that is not several rows without a column. -/
theorem Table.admitsRows_iff {table : Table} {catalogued : Bool} {rows : List Payload} :
    table.AdmitsRows catalogued rows ↔ rows ≠ [] ∧ ∃ plan,
      RowPlan.ofPayloads table catalogued rows = .ok plan ∧
        ¬(plan.columns.isEmpty ∧ 1 < rows.length) := by
  constructor
  · rintro ⟨hrows, hentries, hfilled⟩
    obtain ⟨plan, hplan⟩ := RowPlan.exists_ofPayloads.2 hentries
    refine ⟨hrows, plan, hplan, fun ⟨hempty, hmany⟩ ↦ ?_⟩
    rcases hfilled with hfew | hfills
    · omega
    · exact (RowPlan.columns_ne_nil hplan).2 hfills (List.isEmpty_iff.1 hempty)
  · rintro ⟨hrows, plan, hplan, hwide⟩
    refine ⟨hrows, RowPlan.exists_ofPayloads.1 ⟨plan, hplan⟩, ?_⟩
    by_cases hempty : plan.columns = []
    · exact .inl (Nat.le_of_not_lt fun hmany ↦ hwide ⟨List.isEmpty_iff.2 hempty, hmany⟩)
    · exact .inr ((RowPlan.columns_ne_nil hplan).1 hempty)

namespace Query

variable {query : Query} {relation : Relation}

/-- Rows laid over the defaults of a query. -/
def overlaid (query : Query) (rows : List Payload) : List Payload :=
  rows.map fun row ↦ row.onto query.clauses.defaults

/-- The methods that insert rows accept those that the table admits, laid over the defaults. -/
theorem exists_starts {table : Table} {rows : List Payload}
    (target : query.clauses.table = some table) :
    (∃ inserted, query.Starts rows inserted) ↔ query.clauses.verb = .select ∧
      table.AdmitsRows query.catalog.isSome (query.overlaid rows) := by
  rw [Table.admitsRows_iff, overlaid, ne_eq, List.map_eq_nil_iff, List.length_map]
  constructor
  · rintro ⟨inserted, hstarts⟩
    cases hstarts with
    | insert h =>
      obtain ⟨_, plan, htarget, hplan, hcolumns, hverb, -⟩ := insertRows_eq_ok.1 h
      cases target.symm.trans htarget
      exact ⟨hverb, List.cons_ne_nil _ _, plan, hplan, hcolumns⟩
    | insertMany h =>
      unfold insertMany at h
      split at h
      · cases h
      · rename_i hsome
        obtain ⟨_, plan, htarget, hplan, hcolumns, hverb, -⟩ := insertRows_eq_ok.1 h
        cases target.symm.trans htarget
        exact ⟨hverb, by simpa using hsome, plan, hplan, hcolumns⟩
  · rintro ⟨hverb, hsome, plan, hplan, hcolumns⟩
    have hinserted : query.insertMany rows = .ok (query.planned plan true) := by
      rw [insertMany, if_neg (by simpa using hsome)]
      exact insertRows_eq_ok.2 ⟨table, plan, target, hplan, hcolumns, hverb, rfl⟩
    exact ⟨_, .insertMany hinserted⟩

/-- The insertion of the row in front can be built if its table is registered and admits it, and the
key that it hands back can be read as a column. -/
theorem exists_insertionBefore {data : Payload} :
    (∃ insertion, query.insertionBefore relation data = .ok insertion) ↔ ∃ target,
      Catalog.lookUp query.catalog relation.table = some target ∧
      (∃ reference, ColumnRef.parse relation.primaryKey = .ok reference) ∧
      target.AdmitsRows query.catalog.isSome [data.onto .empty] := by
  simp only [insertionBefore_eq_ok, Table.admitsRows_iff]
  constructor
  · rintro ⟨_, target, plan, reference, htarget, hplan, hreference, -⟩
    exact ⟨target, htarget, ⟨reference, hreference⟩, List.cons_ne_nil _ _, plan, hplan, by simp⟩
  · rintro ⟨target, htarget, ⟨reference, hreference⟩, -, plan, hplan, -⟩
    exact ⟨_, target, plan, reference, htarget, hplan, hreference, rfl⟩

/-- The insertion of the rows behind can be built if their table is registered and admits them with
the key in them. -/
theorem exists_insertionAfter {rows : List Payload} {key : Literal} :
    (∃ insertion, query.insertionAfter relation rows key = .ok insertion) ↔ ∃ target,
      Catalog.lookUp query.catalog relation.table = some target ∧
      target.AdmitsRows query.catalog.isSome
        (rows.map fun row ↦ (row.set relation.foreignKey (.literal key)).onto .empty) := by
  simp only [insertionAfter_eq_ok, Table.admitsRows_iff, List.length_map, ne_eq,
    List.map_eq_nil_iff]
  constructor
  · rintro ⟨_, target, plan, htarget, hrows, hplan, hcolumns, -⟩
    exact ⟨target, htarget, hrows, plan, hplan, hcolumns⟩
  · rintro ⟨target, htarget, hrows, plan, hplan, hcolumns⟩
    exact ⟨_, target, plan, htarget, hrows, hplan, hcolumns, rfl⟩

end Query

/-! ## Every depth -/

/-- The table admits rows, and so do the tables of the rows that these ask for, at every depth. What
a row in front hands back can be read as a column. -/
inductive Table.AdmitsThroughout (catalog : Option Catalog) : Table → List Payload → Prop
  | intro {table : Table} {rows : List Payload} (own : table.AdmitsRows catalog.isSome rows)
      (registered : ∀ request ∈ table.requests rows,
        ∃ target, Catalog.lookUp catalog request.relation.table = some target)
      (readable : ∀ request ∈ table.requests rows, request.precedes →
        ∃ reference, ColumnRef.parse request.relation.primaryKey = .ok reference)
      (nested : ∀ request ∈ table.requests rows, ∀ target,
        Catalog.lookUp catalog request.relation.table = some target →
          ∀ key, AdmitsThroughout catalog target (request.given key)) :
      AdmitsThroughout catalog table rows

/-- What a row asks for is admitted throughout by the table that its relation leads to. -/
def Request.Admitted (catalog : Option Catalog) (request : Request) : Prop :=
  ∃ target, Catalog.lookUp catalog request.relation.table = some target ∧
    (request.precedes → ∃ reference, ColumnRef.parse request.relation.primaryKey = .ok reference) ∧
    ∀ key, target.AdmitsThroughout catalog (request.given key)

/-- Rows are admitted throughout iff they are and so is every request in them. -/
theorem Table.admitsThroughout_iff {catalog : Option Catalog} {table : Table}
    {rows : List Payload} :
    table.AdmitsThroughout catalog rows ↔ table.AdmitsRows catalog.isSome rows ∧
      ∀ request ∈ table.requests rows, request.Admitted catalog := by
  constructor
  · rintro ⟨hown, hregistered, hreadable, hnested⟩
    refine ⟨hown, fun request hrequest ↦ ?_⟩
    obtain ⟨target, htarget⟩ := hregistered request hrequest
    exact ⟨target, htarget, hreadable request hrequest, hnested request hrequest target htarget⟩
  · rintro ⟨hown, hrequests⟩
    refine ⟨hown, fun request hrequest ↦ ?_, fun request hrequest ↦ ?_,
      fun request hrequest target htarget ↦ ?_⟩
    · obtain ⟨target, htarget, -⟩ := hrequests request hrequest
      exact ⟨target, htarget⟩
    · obtain ⟨-, -, hreadable, -⟩ := hrequests request hrequest
      exact hreadable
    · obtain ⟨other, hother, -, hrows⟩ := hrequests request hrequest
      cases hother.symm.trans htarget
      exact hrows

/-! ## Outlines -/

/-- An entry without its value. -/
def Entry.outline : Entry → Entry
  | .value _ => .value (.literal .null)
  | .create data => .create data
  | .createMany rows => .createMany rows

namespace Payload

/-- A payload without its values: its keys and the rows inside of it. -/
def outline (payload : Payload) : Payload :=
  { payload with entryAt := fun index ↦ (payload.entryAt index).outline }

theorem entries_outline (payload : Payload) :
    payload.outline.entries = payload.entries.map fun pair ↦ (pair.1, pair.2.outline) := by
  rw [entries, entries, List.map_ofFn]
  rfl

theorem outline_put (payload : Payload) (key : String) (entry : Entry) :
    (payload.put key entry).outline = payload.outline.put key entry.outline := by
  have hentries (entries : List (String × Entry)) :
      (putEntry key entry entries).map (fun pair ↦ (pair.1, pair.2.outline)) =
        putEntry key entry.outline (entries.map fun pair ↦ (pair.1, pair.2.outline)) := by
    induction entries with
    | nil => rfl
    | cons pair rest ih =>
      rw [List.map_cons, putEntry, putEntry]
      split
      · rfl
      · exact congrArg (_ :: ·) ih
  refine eq_of_entries_eq ?_
  rw [entries_outline, put, put, entries_ofEntries, entries_ofEntries, entries_outline]
  exact hentries payload.entries

/-- Payloads that differ in values differ in values laid over others. -/
theorem outline_onto (payload defaults : Payload) :
    (payload.onto defaults).outline = payload.outline.onto defaults.outline := by
  rw [onto, onto, entries_outline]
  induction payload.entries generalizing defaults with
  | nil => rfl
  | cons pair rest ih => rw [List.foldl_cons, ih, outline_put, List.map_cons, List.foldl_cons]

/-- What a key is set to leaves no trace in the outline. -/
theorem outline_set (payload : Payload) (key : String) (term other : Term) :
    (payload.set key term).outline = (payload.set key other).outline := by
  rw [set, set, outline_put, outline_put]
  rfl

end Payload

theorem Request.outline_given (request : Request) (key other : Literal) :
    (request.given key).map Payload.outline = (request.given other).map Payload.outline := by
  unfold given
  rw [List.map_map, List.map_map]
  refine List.map_congr_left fun row _ ↦ ?_
  simp only [Function.comp_apply]
  split
  · rfl
  · rw [Payload.outline_onto, Payload.outline_onto,
      Payload.outline_set row request.relation.foreignKey (.literal key) (.literal other)]

namespace Table

variable {table : Table} {catalogued : Bool} {rows : List Payload}

theorem admits_outline (pair : String × Entry) :
    table.Admits catalogued (pair.1, pair.2.outline) ↔ table.Admits catalogued pair := by
  obtain ⟨key, entry⟩ := pair
  cases entry <;> rfl

theorem fills_outline (pair : String × Entry) :
    table.Fills (pair.1, pair.2.outline) ↔ table.Fills pair := by
  obtain ⟨key, entry⟩ := pair
  cases entry <;> rfl

theorem request?_outline (row : Nat) (pair : String × Entry) :
    table.request? row (pair.1, pair.2.outline) = table.request? row pair := by
  obtain ⟨key, entry⟩ := pair
  cases entry <;> rfl

/-- Rows ask for the same rows without their values. -/
theorem requests_outline : table.requests (rows.map Payload.outline) = table.requests rows := by
  have hfrom (row : Nat) :
      table.requestsFrom row (rows.map Payload.outline) = table.requestsFrom row rows := by
    induction rows generalizing row with
    | nil => rfl
    | cons payload rest ih =>
      have hown : payload.outline.entries.filterMap (table.request? row) =
          payload.entries.filterMap (table.request? row) := by
        rw [Payload.entries_outline, List.filterMap_map]
        exact congrArg (List.filterMap · payload.entries) (funext (request?_outline row))
      rw [List.map_cons, requestsFrom, requestsFrom, hown, ih]
  exact hfrom 0

theorem admitsRows_outline :
    table.AdmitsRows catalogued (rows.map Payload.outline) ↔ table.AdmitsRows catalogued rows := by
  have hentries : (∀ row ∈ rows.map Payload.outline, ∀ entry ∈ row.entries,
      table.Admits catalogued entry) ↔
        ∀ row ∈ rows, ∀ entry ∈ row.entries, table.Admits catalogued entry := by
    simp only [List.forall_mem_map, Payload.entries_outline, admits_outline]
  have hfilled : (∃ row ∈ rows.map Payload.outline, ∃ entry ∈ row.entries, table.Fills entry) ↔
      ∃ row ∈ rows, ∃ entry ∈ row.entries, table.Fills entry := by
    simp only [List.mem_map, exists_exists_and_eq_and, Payload.entries_outline, fills_outline]
  constructor
  · rintro ⟨hsome, hadmitted, hcolumns⟩
    rw [List.length_map, hfilled] at hcolumns
    exact ⟨by simpa using hsome, hentries.1 hadmitted, hcolumns⟩
  · rintro ⟨hsome, hadmitted, hcolumns⟩
    rw [← hfilled] at hcolumns
    exact ⟨by simpa using hsome, hentries.2 hadmitted, by rwa [List.length_map]⟩

/-- Whether rows are admitted throughout does not depend on their values. -/
theorem admitsThroughout_outline {catalog : Option Catalog} :
    table.AdmitsThroughout catalog (rows.map Payload.outline) ↔
      table.AdmitsThroughout catalog rows := by
  rw [admitsThroughout_iff, admitsThroughout_iff, admitsRows_outline, requests_outline]

end Table

/-- Rows that are inserted for a request are admitted throughout if what they ask for is. -/
theorem Request.admitted_iff {catalog : Option Catalog} {request : Request} {target : Table}
    {key : Literal} (registered : Catalog.lookUp catalog request.relation.table = some target)
    (readable : request.precedes →
      ∃ reference, ColumnRef.parse request.relation.primaryKey = .ok reference)
    (own : target.AdmitsRows catalog.isSome (request.given key)) :
    request.Admitted catalog ↔
      ∀ inner ∈ target.requests (request.given key), inner.Admitted catalog := by
  have hkey : request.Admitted catalog ↔ target.AdmitsThroughout catalog (request.given key) := by
    constructor
    · rintro ⟨other, hother, -, hrows⟩
      cases registered.symm.trans hother
      exact hrows key
    · intro h
      -- Rows that are given with another key have the same outlines.
      refine ⟨target, registered, readable, fun other ↦ ?_⟩
      rwa [← Table.admitsThroughout_outline, request.outline_given other key,
        Table.admitsThroughout_outline]
  rw [hkey, Table.admitsThroughout_iff]
  exact and_iff_right own

/-! ## Fragments -/

/-- The rows inside of an entry. -/
def Entry.rows : Entry → List Payload
  | .value _ => []
  | .create data => [data]
  | .createMany rows => rows

theorem Payload.nestedWrites_le_rowsWrites {row : Payload} {rows : List Payload}
    (mem : row ∈ rows) : row.nestedWrites ≤ rowsWrites rows := by
  induction rows with
  | nil => cases mem
  | cons first rest ih =>
    rw [rowsWrites]
    rcases List.mem_cons.1 mem with rfl | mem
    · exact Nat.le_add_right _ _
    · exact Nat.le_trans (ih mem) (Nat.le_add_left _ _)

/-- The rows inside of a payload ask for fewer insertions. -/
theorem Payload.nestedWrites_lt {payload row : Payload} {pair : String × Entry}
    (mem : pair ∈ payload.entries) (inside : row ∈ pair.2.rows) :
    row.nestedWrites < payload.nestedWrites := by
  have hrow : row.nestedWrites < pair.2.writes := by
    obtain ⟨key, entry⟩ := pair
    cases entry with
    | value term => cases inside
    | create data =>
      cases List.mem_singleton.1 inside
      exact Nat.lt_succ_self _
    | createMany rows => exact Nat.lt_succ_of_le (nestedWrites_le_rowsWrites inside)
  rw [nestedWrites_eq payload]
  generalize payload.entries = entries at mem ⊢
  induction entries with
  | nil => cases mem
  | cons first rest ih =>
    rw [entriesWrites]
    rcases List.mem_cons.1 mem with rfl | mem
    · exact Nat.lt_of_lt_of_le hrow (Nat.le_add_right _ _)
    · exact Nat.lt_of_lt_of_le (ih mem) (Nat.le_add_left _ _)

/-- A payload without fragments at any depth. -/
inductive Payload.PlainThroughout : Payload → Prop
  | intro {payload : Payload}
      (own : ∀ pair ∈ payload.entries, ∀ fragment, pair.2 ≠ .value (.raw fragment))
      (nested : ∀ pair ∈ payload.entries, ∀ row ∈ pair.2.rows, PlainThroughout row) :
      PlainThroughout payload

theorem Payload.PlainThroughout.plain {payload : Payload} (h : payload.PlainThroughout) :
    payload.Plain := by
  obtain ⟨hown, -⟩ := h
  rintro key _ hentry fragment rfl
  exact hown _ hentry fragment rfl

theorem Table.rows_request? {table : Table} {row : Nat} {pair : String × Entry} {request : Request}
    (h : table.request? row pair = some request) : request.rows = pair.2.rows := by
  obtain ⟨key, entry⟩ := pair
  cases entry with
  | value term => cases h
  | create data | createMany rows =>
    obtain ⟨relation, -, rfl⟩ := Option.map_eq_some_iff.1 h
    rfl

/-- Rows without fragments are given without fragments to their table. -/
theorem Request.plain_given {request : Request} (h : ∀ row ∈ request.rows, row.PlainThroughout)
    (key : Literal) : ∀ row ∈ request.given key, row.PlainThroughout := by
  have hset (payload : Payload) (hplain : payload.PlainThroughout) (name : String) :
      (payload.set name (.literal key)).PlainThroughout := by
    obtain ⟨hown, hnested⟩ := hplain
    refine ⟨fun pair hpair ↦ ?_, fun pair hpair ↦ ?_⟩
    · rcases Payload.mem_entries_put hpair with rfl | hold
      · exact fun fragment ↦ nofun
      · exact hown pair hold
    · rcases Payload.mem_entries_put hpair with rfl | hold
      · exact fun row hrow ↦ nomatch hrow
      · exact hnested pair hold
  intro row hrow
  obtain ⟨before, hbefore, rfl⟩ := List.mem_map.1 hrow
  rw [Payload.onto_empty]
  split
  · exact h before hbefore
  · exact hset _ (h before hbefore) _

/-! ## Well-formed payloads -/

namespace Payload

variable {catalog : Option Catalog} {table : Table} {payload : Payload}

theorem WellFormed.admits (h : payload.WellFormed catalog table) :
    ∀ entry ∈ payload.entries, table.Admits catalog.isSome entry := by
  intro pair hpair
  have hentry := (wellFormed_iff.1 h).2 pair hpair
  obtain ⟨key, entry⟩ := pair
  cases entry with
  | value term => trivial
  | create data =>
    obtain ⟨relation, target, hlinks, -⟩ := hentry
    exact ⟨Catalog.isSome_of_lookUp hlinks.registered, relation, hlinks.declared⟩
  | createMany rows =>
    obtain ⟨relation, target, hlinks, hkind, -⟩ := hentry
    exact ⟨Catalog.isSome_of_lookUp hlinks.registered, relation, hlinks.declared, hkind⟩

theorem WellFormed.plainThroughout {table : Table} {payload : Payload}
    (h : payload.WellFormed catalog table) : payload.PlainThroughout := by
  refine ⟨fun pair hpair fragment hraw ↦ ?_, fun pair hpair row hrow ↦ ?_⟩
  · exact h.plain pair.1 (.raw fragment) (hraw ▸ hpair) fragment rfl
  · have hless := nestedWrites_lt hpair hrow
    have hentry := (wellFormed_iff.1 h).2 pair hpair
    obtain ⟨key, entry⟩ := pair
    cases entry with
    | value term => cases hrow
    | create data =>
      obtain ⟨relation, target, -, hdata⟩ := hentry
      cases List.mem_singleton.1 hrow
      exact hdata.plainThroughout
    | createMany rows =>
      obtain ⟨relation, target, -, -, -, hrows⟩ := hentry
      exact (rowsWellFormed_iff.1 hrows row hrow).plainThroughout
termination_by payload.nestedWrites
decreasing_by all_goals exact hless

end Payload

namespace Request

variable {catalog : Option Catalog} {table target : Table} {request : Request}

/-- Well-formed payloads ask for a single row in front; rows behind have their foreign key. -/
theorem admitsRows_given {payloads : List Payload}
    (wellFormed : ∀ payload ∈ payloads, payload.WellFormed catalog table)
    (mem : request ∈ table.requests payloads) (asked : request.WellFormed catalog table target)
    (key : Literal) : target.AdmitsRows catalog.isSome (request.given key) := by
  have hrows := (asked.given key).1
  refine ⟨?_, fun row hrow ↦ (hrows row hrow).admits, ?_⟩
  · unfold given
    rw [ne_eq, List.map_eq_nil_iff]
    exact asked.nonempty
  · obtain ⟨index, payload, hpayload, ⟨name, entry⟩, hpair, hasks⟩ := Table.mem_requests.1 mem
    have hentry := (Payload.wellFormed_iff.1 (wellFormed payload
      (List.mem_of_getElem? hpayload))).2 _ hpair
    cases entry with
    | value term => cases hasks
    | create data =>
      obtain ⟨relation, -, rfl⟩ := Option.map_eq_some_iff.1 hasks
      exact .inl (Nat.le_refl 1)
    | createMany rows =>
      obtain ⟨relation, hrelation, rfl⟩ := Option.map_eq_some_iff.1 hasks
      obtain ⟨other, _, hlinks, hkind, -⟩ := hentry
      cases hlinks.declared.symm.trans hrelation
      obtain ⟨_, hother⟩ := asked.links
      have hcolumn := (hother.columns_behind (by simp [hkind])).1
      obtain ⟨first, hfirst⟩ := List.exists_mem_of_ne_nil rows asked.nonempty
      refine .inr ⟨_, List.mem_map_of_mem hfirst,
        (relation.foreignKey, .value (.literal key)), ?_, ?_⟩
      · have hbehind : ¬(⟨index, relation, rows⟩ : Request).precedes := by simp [precedes, hkind]
        rw [if_neg hbehind, Payload.onto_empty]
        exact Payload.mem_entries_set _ _ _
      · simp [Table.Fills, Table.takesKey, hcolumn]

theorem rowsWrites_lt_writes {requests : List Request} (mem : request ∈ requests) :
    Payload.rowsWrites request.rows < writes requests := by
  induction requests with
  | nil => cases mem
  | cons first rest ih =>
    rw [writes]
    rcases List.mem_cons.1 mem with rfl | mem
    · omega
    · have hrest := ih mem
      omega

end Request

/-- Well-formed payloads that a table admits are admitted throughout. -/
theorem Table.AdmitsRows.throughout {catalog : Option Catalog} {table : Table}
    {payloads : List Payload} (own : table.AdmitsRows catalog.isSome payloads)
    (wellFormed : ∀ payload ∈ payloads, payload.WellFormed catalog table) :
    table.AdmitsThroughout catalog payloads := by
  refine admitsThroughout_iff.2 ⟨own, fun request hrequest ↦ ?_⟩
  obtain ⟨target, hasked⟩ := wellFormed_requests wellFormed request hrequest
  obtain ⟨name, hlinks⟩ := hasked.links
  refine ⟨target, hlinks.registered, fun _ ↦ ⟨_, hlinks.plain.2.1⟩, fun key ↦ ?_⟩
  obtain ⟨hrows, hwrites⟩ := hasked.given key
  have hless : Payload.rowsWrites (request.given key) < Payload.rowsWrites payloads := by
    rw [hwrites, rowsWrites_eq wellFormed]
    exact Request.rowsWrites_lt_writes hrequest
  exact (Request.admitsRows_given wellFormed hrequest hasked key).throughout hrows
termination_by Payload.rowsWrites payloads

end SqlComposer
