import SqlComposer.Execution
import SqlComposer.Proofs.Script.ExceptResults

/-!
# Rows that payloads ask for

An entry of a payload that names a relation asks for rows of another table. The rows that the
inserted row refers to come before it, all others behind it. The plan of an insertion has exactly
the requests of its payloads, in their order, and a cell for each column of each row: the key of a
row that comes before fills the cell of its foreign key, and no other.
-/

namespace SqlComposer

/-! ## Requests -/

/-- Rows that are asked for under a relation of an inserted row. -/
structure Request where
  row : Nat
  relation : Relation
  rows : List Payload

namespace Request

/-- Whether the inserted row refers to the rows that are asked for. -/
def precedes (request : Request) : Bool := request.relation.kind = .belongsTo

end Request

namespace Table

/-- What an entry of a row asks for. -/
def request? (table : Table) (row : Nat) : String × Entry → Option Request
  | (_, .value _) => none
  | (key, .create data) => (table.relation? key).map fun relation ↦ ⟨row, relation, [data]⟩
  | (key, .createMany rows) => (table.relation? key).map fun relation ↦ ⟨row, relation, rows⟩

/-- What payloads ask for, the first of them being the row of a number. -/
def requestsFrom (table : Table) (row : Nat) : List Payload → List Request
  | [] => []
  | payload :: rest =>
    payload.entries.filterMap (table.request? row) ++ table.requestsFrom (row + 1) rest

/-- What payloads ask for. -/
def requests (table : Table) (payloads : List Payload) : List Request :=
  table.requestsFrom 0 payloads

/-- What an entry asks for belongs to its row. -/
theorem row_request? {table : Table} {row : Nat} {entry : String × Entry} {request : Request}
    (h : table.request? row entry = some request) : request.row = row := by
  obtain ⟨key, entry⟩ := entry
  cases entry with
  | value term => cases h
  | create data | createMany rows =>
    obtain ⟨relation, -, rfl⟩ := Option.map_eq_some_iff.1 h
    rfl

/-- A request comes from an entry of one of the payloads. -/
theorem mem_requestsFrom {table : Table} {row : Nat} {payloads : List Payload} {request : Request} :
    request ∈ table.requestsFrom row payloads ↔ ∃ (index : Nat) (payload : Payload),
      payloads[index]? = some payload ∧
        ∃ entry ∈ payload.entries, table.request? (row + index) entry = some request := by
  induction payloads generalizing row with
  | nil => simp [requestsFrom]
  | cons payload rest ih =>
    have hnext (index : Nat) : row + 1 + index = row + (index + 1) := by omega
    rw [requestsFrom, List.mem_append, List.mem_filterMap, ih]
    constructor
    · rintro (⟨entry, hentry, hrequest⟩ | ⟨index, other, hother, hrequest⟩)
      · exact ⟨0, payload, rfl, entry, hentry, hrequest⟩
      · refine ⟨index + 1, other, hother, ?_⟩
        rwa [hnext] at hrequest
    · rintro ⟨index, other, hother, hrequest⟩
      cases index with
      | zero =>
        cases hother
        exact .inl hrequest
      | succ index =>
        refine .inr ⟨index, other, hother, ?_⟩
        rwa [hnext]

/-- What payloads ask for is what the entries of one of them do. -/
theorem mem_requests {table : Table} {payloads : List Payload} {request : Request} :
    request ∈ table.requests payloads ↔ ∃ (index : Nat) (payload : Payload),
      payloads[index]? = some payload ∧
        ∃ entry ∈ payload.entries, table.request? index entry = some request := by
  simp only [requests, mem_requestsFrom, Nat.zero_add]

end Table

/-- What a related insertion is for. -/
def RelatedInsert.request : RelatedInsert → Request
  | before row _ relation data => ⟨row, relation, [data]⟩
  | after row relation rows => ⟨row, relation, rows⟩

/-- A related insertion is in its place: it belongs to one of the rows, and if its row comes before,
it fills the cell of its foreign key. -/
def RelatedInsert.Fits (columns : List String) (height : Nat) : RelatedInsert → Prop
  | before row column relation _ =>
    relation.kind = .belongsTo ∧ row < height ∧ relation.foreignKey ∈ columns ∧
      column = columns.idxOf relation.foreignKey
  | after row relation _ => relation.kind ≠ .belongsTo ∧ row < height

/-! ## Parts of rows -/

namespace RowPart

variable {table : Table} {catalogued : Bool}

theorem relationOf_eq_ok {key : String} {relation : Relation} :
    relationOf table catalogued key = .ok relation ↔
      catalogued = true ∧ table.relation? key = some relation := by
  unfold relationOf
  cases catalogued <;> cases table.relation? key <;> simp

/-- What an entry of a row comes to: the value of a column that the table takes, or related rows
where a catalog is at hand and the relation takes as many. -/
inductive Arises (table : Table) (catalogued : Bool) : String × Entry → RowPart → Prop
  | cell {key : String} {term : Term} (taken : table.takesKey key = true) :
      Arises table catalogued (key, .value term) (cell key (table.encodeTerm key term))
  | skipped {key : String} {term : Term} (dropped : table.takesKey key = false) :
      Arises table catalogued (key, .value term) skipped
  | before {key : String} {relation : Relation} {data : Payload} (known : catalogued = true)
      (found : table.relation? key = some relation) (kind : relation.kind = .belongsTo) :
      Arises table catalogued (key, .create data) (before relation data)
  | after {key : String} {relation : Relation} {data : Payload} (known : catalogued = true)
      (found : table.relation? key = some relation) (kind : relation.kind ≠ .belongsTo) :
      Arises table catalogued (key, .create data) (after relation [data])
  | many {key : String} {relation : Relation} {rows : List Payload} (known : catalogued = true)
      (found : table.relation? key = some relation) (kind : relation.kind = .hasMany) :
      Arises table catalogued (key, .createMany rows) (after relation rows)

theorem ofEntry_eq_ok {entry : String × Entry} {part : RowPart} :
    ofEntry table catalogued entry = .ok part ↔ Arises table catalogued entry part := by
  constructor
  · intro h
    obtain ⟨key, entry⟩ := entry
    cases entry with
    | value term =>
      cases htaken : table.takesKey key <;> simp only [ofEntry, htaken] at h <;> cases h
      · exact .skipped htaken
      · exact .cell htaken
    | create data =>
      obtain ⟨relation, hrelation, rfl⟩ := map_eq_ok.1 h
      obtain ⟨hknown, hfound⟩ := relationOf_eq_ok.1 hrelation
      unfold ofRow
      split
      · exact .before hknown hfound ‹_›
      · exact .after hknown hfound (by simp [*])
      · exact .after hknown hfound (by simp [*])
    | createMany rows =>
      obtain ⟨relation, hrelation, h⟩ := bind_eq_ok.1 h
      obtain ⟨hknown, hfound⟩ := relationOf_eq_ok.1 hrelation
      unfold ofRows at h
      split at h <;> cases h
      exact .many hknown hfound ‹_›
  · intro h
    cases h with
    | cell taken | skipped taken => simp [ofEntry, taken]
    | before known found kind =>
      exact map_eq_ok.2 ⟨_, relationOf_eq_ok.2 ⟨known, found⟩, by rw [ofRow, kind]⟩
    | @after _ relation _ known found kind =>
      refine map_eq_ok.2 ⟨_, relationOf_eq_ok.2 ⟨known, found⟩, ?_⟩
      unfold ofRow
      cases hkind : relation.kind <;> first | exact absurd hkind kind | rfl
    | many known found kind =>
      exact bind_eq_ok.2 ⟨_, relationOf_eq_ok.2 ⟨known, found⟩, by rw [ofRows, kind]⟩

/-- The related insertion of a part is for what its entry asks for. -/
theorem request_related? {entry : String × Entry} {part : RowPart}
    (h : ofEntry table catalogued entry = .ok part) (columns : List String) (row : Nat) :
    (part.related? columns row).map RelatedInsert.request = table.request? row entry := by
  cases ofEntry_eq_ok.1 h with
  | cell | skipped => rfl
  | before _ found | after _ found | many _ found =>
    rw [Table.request?, found]
    rfl

/-- The cell of a part holds the value of its entry or waits for the key of a row that it asks for.
-/
theorem cell?_ofEntry {entry : String × Entry} {part : RowPart} {name : String} {cell : Cell}
    (h : ofEntry table catalogued entry = .ok part) (hcell : part.cell? = some (name, cell))
    (row : Nat) :
    (∃ term, entry = (name, .value term) ∧ cell = .value (table.encodeTerm name term)) ∨
      ∃ request, table.request? row entry = some request ∧ request.precedes ∧
        request.relation.foreignKey = name := by
  cases ofEntry_eq_ok.1 h with
  | @cell _ term =>
    cases hcell
    exact .inl ⟨term, rfl, rfl⟩
  | @before _ relation data _ found kind =>
    cases hcell
    exact .inr ⟨⟨row, relation, [data]⟩, by rw [Table.request?, found]; rfl,
      decide_eq_true kind, rfl⟩
  | skipped | after | many => cases hcell

/-- Whether the inserted row refers to the related row is decided by the kind of the relation. -/
def Sorted : RowPart → Prop
  | before relation _ => relation.kind = .belongsTo
  | after relation _ => relation.kind ≠ .belongsTo
  | _ => True

theorem sorted_ofEntry {entry : String × Entry} {part : RowPart}
    (h : ofEntry table catalogued entry = .ok part) : part.Sorted := by
  cases ofEntry_eq_ok.1 h with
  | cell | skipped => trivial
  | before _ _ kind | after _ _ kind => exact kind
  | many _ _ kind => simp [Sorted, kind]

end RowPart

/-! ## Plans -/

namespace RowPlan

variable {table : Table} {catalogued : Bool} {payloads : List Payload} {plan : RowPlan}

/-- The rows of a plan come from the payloads. -/
theorem rows_ofPayloads (h : ofPayloads table catalogued payloads = .ok plan) :
    List.Forall₂ (fun payload parts ↦ List.Forall₂
      (fun entry part ↦ RowPart.ofEntry table catalogued entry = .ok part) payload.entries parts)
      payloads plan.rows := by
  obtain ⟨rows, hrows, hplan⟩ := bind_eq_ok.1 h
  cases hplan
  exact (forall₂_of_mapM hrows).imp fun _ _ hparts ↦ forall₂_of_mapM hparts

/-- The related rows of a row are the requests of its entries, in order. -/
theorem requests_parts {entries : List (String × Entry)} {parts : List RowPart}
    (h : List.Forall₂ (fun entry part ↦ RowPart.ofEntry table catalogued entry = .ok part) entries
      parts) (columns : List String) (row : Nat) :
    (parts.filterMap (RowPart.related? columns row)).map RelatedInsert.request =
      entries.filterMap (table.request? row) := by
  induction h with
  | nil => rfl
  | cons hpart _ ih =>
    rw [List.filterMap_cons, List.filterMap_cons, ← RowPart.request_related? hpart columns row]
    cases RowPart.related? columns row _ with
    | none => exact ih
    | some related => exact congrArg (_ :: ·) ih

/-- The related insertions of a plan are for what its payloads ask for. -/
theorem requests_related (h : ofPayloads table catalogued payloads = .ok plan) :
    plan.related.map RelatedInsert.request = table.requests payloads := by
  have hfrom (row : Nat) {payloads : List Payload} {rows : List (List RowPart)}
      (h : List.Forall₂ (fun payload parts ↦ List.Forall₂
        (fun entry part ↦ RowPart.ofEntry table catalogued entry = .ok part) payload.entries parts)
        payloads rows) (columns : List String) :
      (relatedFrom columns row rows).map RelatedInsert.request =
        table.requestsFrom row payloads := by
    induction h generalizing row with
    | nil => rfl
    | cons hparts _ ih =>
      rw [relatedFrom, Table.requestsFrom, List.map_append, ih, requests_parts hparts]
  exact hfrom 0 (rows_ofPayloads h) plan.columns

/-- The column that a part of a row fills is a column of the plan. -/
theorem mem_columns {parts : List RowPart} {part : RowPart} {column : String} {cell : Cell}
    (hparts : parts ∈ plan.rows) (hpart : part ∈ parts) (hcell : part.cell? = some (column, cell)) :
    column ∈ plan.columns := by
  unfold columns
  rw [List.mem_eraseDups, List.mem_map]
  refine ⟨(column, cell), ?_, rfl⟩
  rw [List.mem_filterMap]
  exact ⟨part, List.mem_flatten.2 ⟨parts, hparts, hpart⟩, hcell⟩

/-- Each related row comes from a part of one of the rows. -/
theorem mem_relatedFrom {columns : List String} {row : Nat} {rows : List (List RowPart)}
    {related : RelatedInsert} (h : related ∈ relatedFrom columns row rows) :
    ∃ (index : Nat) (parts : List RowPart) (part : RowPart), rows[index]? = some parts ∧
      part ∈ parts ∧ part.related? columns (row + index) = some related := by
  induction rows generalizing row with
  | nil => cases h
  | cons parts rest ih =>
    rw [relatedFrom, List.mem_append, List.mem_filterMap] at h
    rcases h with ⟨part, hpart, hrelated⟩ | h
    · exact ⟨0, parts, part, rfl, hpart, hrelated⟩
    · obtain ⟨index, parts, part, hparts, hpart, hrelated⟩ := ih h
      refine ⟨index + 1, parts, part, hparts, hpart, ?_⟩
      rw [← hrelated]
      congr 1
      omega

/-- The keys that rows behind refer to are read back. -/
theorem mem_readBack {row : Nat} {relation : Relation} {rows : List Payload}
    (h : .after row relation rows ∈ plan.related) : relation.primaryKey ∈ plan.readBack := by
  obtain ⟨index, parts, part, hparts, hpart, hrelated⟩ := mem_relatedFrom h
  unfold readBack
  rw [List.mem_eraseDups, List.mem_filterMap]
  refine ⟨part, List.mem_flatten.2 ⟨parts, List.mem_of_getElem? hparts, hpart⟩, ?_⟩
  cases part with
  | skipped | cell | before => cases hrelated
  | after relation rows =>
    cases hrelated
    rfl

/-- Every related insertion of a plan is in its place. -/
theorem fits_related (h : ofPayloads table catalogued payloads = .ok plan) :
    ∀ related ∈ plan.related, related.Fits plan.columns payloads.length := by
  intro related hrelated
  obtain ⟨index, parts, part, hparts, hpart, hpartRelated⟩ := mem_relatedFrom hrelated
  have hrows := rows_ofPayloads h
  have hmem : parts ∈ plan.rows := List.mem_of_getElem? hparts
  have hindex : index < payloads.length := by
    rw [hrows.length_eq]
    exact (List.getElem?_eq_some_iff.1 hparts).1
  obtain ⟨rows, hplanned, hplan⟩ := bind_eq_ok.1 h
  cases hplan
  obtain ⟨payload, -, hentries⟩ := exists_of_mem_results hplanned hmem
  obtain ⟨entry, -, hentry⟩ := exists_of_mem_results hentries hpart
  have hsorted := RowPart.sorted_ofEntry hentry
  rw [Nat.zero_add] at hpartRelated
  cases part with
  | skipped | cell => cases hpartRelated
  | before relation data =>
    cases hpartRelated
    exact ⟨hsorted, hindex, mem_columns hmem hpart rfl, rfl⟩
  | after relation rows =>
    cases hpartRelated
    exact ⟨hsorted, hindex⟩

/-- A column that is set in one way only has the cell of that way. -/
theorem cellAt_eq {column : String} {cell : Cell} {cells : List (String × Cell)}
    (mem : (column, cell) ∈ cells) (only : ∀ other, (column, other) ∈ cells → other = cell) :
    cellAt column cells = cell := by
  unfold cellAt
  cases hfound : cells.reverse.find? fun pair ↦ pair.1 == column with
  | none =>
    have habsent := List.find?_eq_none.1 hfound (column, cell) (List.mem_reverse.2 mem)
    simp at habsent
  | some pair =>
    obtain ⟨name, other⟩ := pair
    have hname : name = column := by simpa using List.find?_some hfound
    subst hname
    exact only other (List.mem_reverse.1 (List.mem_of_find?_eq_some hfound))

end RowPlan

end SqlComposer
