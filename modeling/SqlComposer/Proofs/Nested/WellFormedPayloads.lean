import Mathlib.Data.List.OfFn
import SqlComposer.Proofs.Insertion.WritableInsertions
import SqlComposer.Proofs.Nested.WriteTrees

/-!
# Nested payloads

A payload is well formed for a table if everything it asks for, at any depth, can be inserted: the
relation is declared and of a kind that takes the rows, its table is registered, its keys are plain
columns of their tables, and no row asks for two rows under one foreign key. Payloads stay well
formed when the key of a row is set in them. A write whose parts carry out well-formed payloads
sends one statement for its own rows and one for each entry that asks for rows.
-/

namespace SqlComposer

/-! ## Well-formed payloads -/

/-- A name that is read as the column of that name. -/
def PlainName (name : String) : Prop :=
  ColumnRef.parse name = .ok (.unqualified name) ∧ name ≠ "*"

/-- A relation declared by a table under a key leads to another table, and its keys are columns of
theirs. The key is no column itself. -/
structure Relation.Links (catalog : Option Catalog) (table : Table) (key : String)
    (relation : Relation) (target : Table) : Prop where
  declared : table.relation? key = some relation
  registered : Catalog.lookUp catalog relation.table = some target
  foreign : table.hasColumn key = false
  columns : if relation.kind = .belongsTo
    then table.hasColumn relation.foreignKey ∧ target.hasColumn relation.primaryKey
    else target.hasColumn relation.foreignKey ∧ table.hasColumn relation.primaryKey
  plain : PlainName relation.foreignKey ∧ PlainName relation.primaryKey

/-- The foreign key of a relation to rows behind is a column of their table. -/
theorem Relation.Links.columns_behind {catalog : Option Catalog} {table target : Table}
    {key : String} {relation : Relation} (h : Links catalog table key relation target)
    (behind : relation.kind ≠ .belongsTo) :
    target.hasColumn relation.foreignKey ∧ table.hasColumn relation.primaryKey := by
  have hcolumns := h.columns
  rwa [if_neg behind] at hcolumns

mutual

/-- No two rows come before a payload under one foreign key, and its entries are well formed. -/
def Payload.WellFormed (catalog : Option Catalog) : Table → Payload → Prop
  | table, ⟨keys, distinct, entryAt⟩ =>
    ((((Payload.mk keys distinct entryAt).entries.filterMap (table.request? 0)).filter
      fun request ↦ request.precedes).map fun request ↦ request.relation.foreignKey).Nodup ∧
      ∀ index, Entry.WellFormed catalog table (keys.get index) (entryAt index)

/-- An entry holds a value that is no fragment, or rows that its relation takes. -/
def Entry.WellFormed (catalog : Option Catalog) : Table → String → Entry → Prop
  | _, _, .value term => ∀ fragment, term ≠ .raw fragment
  | table, key, .create data => ∃ relation target,
      Relation.Links catalog table key relation target ∧ Payload.WellFormed catalog target data
  | table, key, .createMany rows => ∃ relation target,
      Relation.Links catalog table key relation target ∧ relation.kind = .hasMany ∧ rows ≠ [] ∧
        Payload.RowsWellFormed catalog target rows

def Payload.RowsWellFormed (catalog : Option Catalog) : Table → List Payload → Prop
  | _, [] => True
  | table, row :: rest =>
    Payload.WellFormed catalog table row ∧ Payload.RowsWellFormed catalog table rest

end

/-- The number of insertions that requests stand for. -/
def Request.writes : List Request → Nat
  | [] => 0
  | request :: rest => Payload.rowsWrites request.rows + 1 + writes rest

theorem Request.writes_append (first second : List Request) :
    writes (first ++ second) = writes first + writes second := by
  induction first with
  | nil => simp [writes]
  | cons request rest ih => simp [writes, ih, Nat.add_assoc]

/-- What a row asks for is well formed: rows of a table that its relation leads to. -/
structure Request.WellFormed (catalog : Option Catalog) (table : Table) (request : Request)
    (target : Table) : Prop where
  links : ∃ key, Relation.Links catalog table key request.relation target
  nonempty : request.rows ≠ []
  rows : ∀ row ∈ request.rows, row.WellFormed catalog target

namespace Payload

variable {catalog : Option Catalog} {table : Table}

theorem rowsWellFormed_iff {rows : List Payload} :
    RowsWellFormed catalog table rows ↔ ∀ row ∈ rows, row.WellFormed catalog table := by
  induction rows with
  | nil => simp [RowsWellFormed]
  | cons row rest ih => rw [RowsWellFormed, ih, List.forall_mem_cons]

/-- A payload is well formed iff its own rows fill different keys and every entry is well formed. -/
theorem wellFormed_iff {payload : Payload} :
    payload.WellFormed catalog table ↔
      (((payload.entries.filterMap (table.request? 0)).filter fun request ↦ request.precedes).map
        fun request ↦ request.relation.foreignKey).Nodup ∧
      ∀ pair ∈ payload.entries, pair.2.WellFormed catalog table pair.1 := by
  obtain ⟨keys, distinct, entryAt⟩ := payload
  rw [WellFormed, entries, List.forall_mem_ofFn_iff]

theorem WellFormed.plain {payload : Payload} (h : payload.WellFormed catalog table) :
    payload.Plain :=
  fun _ _ hentry ↦ (wellFormed_iff.1 h).2 _ hentry

/-- What a column of the table holds is a value. -/
theorem WellFormed.exists_term {payload : Payload} (h : payload.WellFormed catalog table)
    {name : String} (column : table.hasColumn name) {pair : String × Entry}
    (mem : pair ∈ payload.entries) (key : pair.1 = name) : ∃ term, pair.2 = .value term := by
  have hentry := (wellFormed_iff.1 h).2 pair mem
  obtain ⟨_, entry⟩ := pair
  cases key
  cases entry with
  | value term => exact ⟨term, rfl⟩
  | create data | createMany rows =>
    obtain ⟨relation, target, hlinks, -⟩ := hentry
    rw [hlinks.foreign] at column
    cases column

/-- A well-formed payload asks for well-formed rows. -/
theorem WellFormed.request {payload : Payload} (h : payload.WellFormed catalog table)
    {pair : String × Entry} (mem : pair ∈ payload.entries) {row : Nat} {request : Request}
    (asks : table.request? row pair = some request) :
    ∃ target, request.WellFormed catalog table target := by
  have hentry := (wellFormed_iff.1 h).2 pair mem
  obtain ⟨key, entry⟩ := pair
  cases entry with
  | value term => cases asks
  | create data =>
    obtain ⟨relation, target, hlinks, hdata⟩ := hentry
    rw [Table.request?, hlinks.declared] at asks
    cases asks
    exact ⟨target, ⟨key, hlinks⟩, List.cons_ne_nil data [], by simpa using hdata⟩
  | createMany rows =>
    obtain ⟨relation, target, hlinks, -, hsome, hrows⟩ := hentry
    rw [Table.request?, hlinks.declared] at asks
    cases asks
    exact ⟨target, ⟨key, hlinks⟩, hsome, rowsWellFormed_iff.1 hrows⟩

/-- Setting a column of plain values leaves what a row asks for as it is. -/
theorem requests_set {entries : List (String × Entry)} {name : String} {term : Term}
    (values : ∀ pair ∈ entries, pair.1 = name → ∃ term, pair.2 = .value term) (row : Nat) :
    (putEntry name (.value term) entries).filterMap (table.request? row) =
      entries.filterMap (table.request? row) := by
  induction entries with
  | nil => rfl
  | cons pair rest ih =>
    rw [List.forall_mem_cons] at values
    unfold putEntry
    split
    · rename_i hname
      obtain ⟨old, hold⟩ := values.1 hname
      obtain ⟨_, entry⟩ := pair
      subst hold
      rfl
    · rw [List.filterMap_cons, List.filterMap_cons, ih values.2]

/-- Setting a column to a key keeps a payload well formed. -/
theorem WellFormed.set {payload : Payload} (h : payload.WellFormed catalog table) {name : String}
    (column : table.hasColumn name) (key : Literal) :
    (payload.set name (.literal key)).WellFormed catalog table := by
  refine wellFormed_iff.2 ⟨?_, fun pair hpair ↦ ?_⟩
  · have hsame : (payload.set name (.literal key)).entries.filterMap (table.request? 0) =
        payload.entries.filterMap (table.request? 0) := by
      rw [entries_set]
      exact requests_set (fun _ ↦ h.exists_term column) 0
    exact hsame ▸ (wellFormed_iff.1 h).1
  · rcases mem_entries_put hpair with rfl | hold
    · intro fragment hfragment
      cases hfragment
    · exact (wellFormed_iff.1 h).2 pair hold

/-- Setting a column to a key leaves the nested writes of a well-formed payload. -/
theorem WellFormed.nestedWrites_set {payload : Payload} (h : payload.WellFormed catalog table)
    {name : String} (column : table.hasColumn name) (key : Literal) :
    (payload.set name (.literal key)).nestedWrites = payload.nestedWrites := by
  refine Payload.nestedWrites_set (fun pair hpair hname ↦ ?_) _
  obtain ⟨term, hterm⟩ := h.exists_term column hpair hname
  rw [hterm]
  rfl

end Payload

/-! ## What well-formed payloads ask for -/

namespace Table

variable {catalog : Option Catalog} {table : Table} {payloads : List Payload}

theorem wellFormed_requests (h : ∀ payload ∈ payloads, payload.WellFormed catalog table) :
    ∀ request ∈ table.requests payloads, ∃ target, request.WellFormed catalog table target := by
  intro request hrequest
  obtain ⟨index, payload, hpayload, pair, hpair, hasks⟩ := mem_requests.1 hrequest
  exact (h payload (List.mem_of_getElem? hpayload)).request hpair hasks

/-- Well-formed payloads ask for the insertions that their requests stand for. -/
theorem rowsWrites_eq (h : ∀ payload ∈ payloads, payload.WellFormed catalog table) :
    Payload.rowsWrites payloads = Request.writes (table.requests payloads) := by
  have hentries (row : Nat) {entries : List (String × Entry)}
      (h : ∀ pair ∈ entries, pair.2.WellFormed catalog table pair.1) :
      Payload.entriesWrites entries = Request.writes (entries.filterMap (table.request? row)) := by
    induction entries with
    | nil => rfl
    | cons pair rest ih =>
      rw [List.forall_mem_cons] at h
      obtain ⟨key, entry⟩ := pair
      cases entry with
      | value term =>
        rw [Payload.entriesWrites, ih h.2, Entry.writes, Nat.zero_add]
        rfl
      | create data | createMany rows =>
        obtain ⟨relation, target, hlinks, -⟩ := h.1
        rw [Payload.entriesWrites, ih h.2, List.filterMap_cons, request?, hlinks.declared]
        simp [Entry.writes, Request.writes, Payload.rowsWrites]
  have hfrom (row : Nat) :
      Payload.rowsWrites payloads = Request.writes (table.requestsFrom row payloads) := by
    induction payloads generalizing row with
    | nil => rfl
    | cons payload rest ih =>
      rw [List.forall_mem_cons] at h
      rw [Payload.rowsWrites, requestsFrom, Request.writes_append, ← ih h.2 (row + 1),
        Payload.nestedWrites_eq, hentries row (Payload.wellFormed_iff.1 h.1).2]
  exact hfrom 0

end Table

/-! ## Rows as they are given -/

theorem Payload.rowsWrites_map {rows : List Payload} {change : Payload → Payload}
    (h : ∀ row ∈ rows, (change row).nestedWrites = row.nestedWrites) :
    rowsWrites (rows.map change) = rowsWrites rows := by
  induction rows with
  | nil => rfl
  | cons row rest ih =>
    rw [List.forall_mem_cons] at h
    rw [List.map_cons, rowsWrites, rowsWrites, h.1, ih h.2]

namespace Request

/-- The rows of a request as they are inserted: those behind a row hold its key. -/
def given (request : Request) (key : Literal) : List Payload :=
  request.rows.map fun row ↦
    (if request.precedes then row
      else row.set request.relation.foreignKey (.literal key)).onto .empty

variable {catalog : Option Catalog} {table target : Table} {request : Request}

theorem given_front (request : Request) (front : request.precedes = true) (key : Literal) :
    request.given key = request.rows.map fun row ↦ row.onto .empty := by
  simp only [given, if_pos front]

/-- A request behind its parent is given each of its rows with the key of the parent. -/
theorem given_behind (request : Request) (behind : request.precedes = false) (key : Literal) :
    request.given key = request.rows.map fun row ↦
      (row.set request.relation.foreignKey (.literal key)).onto .empty := by
  simp [given, behind]

/-- Well-formed rows are given as well-formed rows that ask for as many insertions. -/
theorem WellFormed.given (h : request.WellFormed catalog table target) (key : Literal) :
    (∀ row ∈ request.given key, row.WellFormed catalog target) ∧
      Payload.rowsWrites (request.given key) = Payload.rowsWrites request.rows := by
  obtain ⟨name, hlinks⟩ := h.links
  unfold Request.given
  split
  · simp only [Payload.onto_empty, List.map_id_fun']
    exact ⟨h.rows, rfl⟩
  · rename_i hbehind
    have hcolumn := (hlinks.columns_behind (by simpa [precedes] using hbehind)).1
    have hset := fun row hrow ↦ (h.rows row hrow).set hcolumn key
    simp only [Payload.onto_empty]
    exact ⟨List.forall_mem_map.2 hset, Payload.rowsWrites_map fun row hrow ↦
      (h.rows row hrow).nestedWrites_set hcolumn key⟩

end Request

/-! ## Writes of well-formed payloads -/

namespace Write

variable {catalog : Option Catalog} {write : Write}

end Write

end SqlComposer
