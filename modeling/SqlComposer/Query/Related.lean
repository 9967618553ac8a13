import SqlComposer.Query.Changing
import SqlComposer.Query.Rows
import SqlComposer.Query.Selecting

/-!
# Insertions of related rows

A payload asks for one insertion for every key that holds rows of another table, at any depth. This
module counts them and builds them. Every insertion built for a related row asks for fewer further
insertions than the query it was built for, so that running all of them comes to an end.
-/

namespace SqlComposer

/-! ## Counting -/

mutual

/-- The number of insertions that a payload asks for. -/
def Payload.nestedWrites : Payload → Nat
  | ⟨_, _, entryAt⟩ => (List.ofFn fun index => (entryAt index).writes).sum

/-- The number of insertions that an entry of a payload asks for. -/
def Entry.writes : Entry → Nat
  | .value _ => 0
  | .create data => data.nestedWrites + 1
  | .createMany rows => Payload.rowsWrites rows + 1

def Payload.rowsWrites : List Payload → Nat
  | [] => 0
  | row :: rest => row.nestedWrites + Payload.rowsWrites rest

end

/-- The number of insertions that entries ask for. -/
def Payload.entriesWrites : List (String × Entry) → Nat
  | [] => 0
  | (_, entry) :: rest => entry.writes + entriesWrites rest

/-- The number of insertions that a related insertion stands for. -/
def RelatedInsert.writes : RelatedInsert → Nat
  | .before _ _ _ data => data.nestedWrites + 1
  | .after _ _ rows => Payload.rowsWrites rows + 1

/-- The number of insertions that related insertions stand for. -/
def RelatedInsert.totalWrites : List RelatedInsert → Nat
  | [] => 0
  | related :: rest => related.writes + totalWrites rest

/-- The number of insertions that clauses ask for, the one in place of the statement included. -/
def Clauses.pendingWrites (clauses : Clauses Nat) : Nat :=
  RelatedInsert.totalWrites clauses.related + (clauses.fallback.map (· + 1)).getD 0

/-- The number of insertions that running a query may take besides its own statement. -/
def Query.pendingWrites (query : Query) : Nat := query.statement.fold Clauses.pendingWrites

theorem RelatedInsert.totalWrites_append (first second : List RelatedInsert) :
    totalWrites (first ++ second) = totalWrites first + totalWrites second := by
  induction first with
  | nil => simp [totalWrites]
  | cons related rest ih => simp [totalWrites, ih, Nat.add_assoc]

/-- A query has the writes of its related rows and, with a fallback, one more and those of the
fallback. -/
theorem Query.pendingWrites_eq (query : Query) :
    query.pendingWrites = RelatedInsert.totalWrites query.clauses.related +
      (query.clauses.fallback.map fun fallback =>
        (query.withClauses fallback.clauses).pendingWrites + 1).getD 0 := by
  obtain ⟨clauses, catalog, log⟩ := query
  cases h : clauses.fallback with
  | none =>
    simp [pendingWrites, statement, Statement.fold, Statement.foldClauses_eq,
      Statement.foldOption, Clauses.pendingWrites, h]
  | some fallback =>
    obtain ⟨inner⟩ := fallback
    simp [pendingWrites, statement, withClauses, Statement.fold, Statement.foldClauses_eq,
      Statement.foldOption, Clauses.pendingWrites, h]

/-! ## Payloads -/

namespace Payload

theorem nestedWrites_eq (payload : Payload) :
    payload.nestedWrites = entriesWrites payload.entries := by
  have hsum (entries : List (String × Entry)) :
      entriesWrites entries = (entries.map fun entry => entry.2.writes).sum := by
    induction entries with
    | nil => rfl
    | cons entry rest ih => rw [entriesWrites, ih, List.map_cons, List.sum_cons]
  rw [hsum, entries, List.map_ofFn]
  cases payload
  rfl

theorem entriesWrites_putEntry_le (key : String) (entry : Entry)
    (entries : List (String × Entry)) :
    entriesWrites (putEntry key entry entries) ≤ entriesWrites entries + entry.writes := by
  induction entries with
  | nil => simp [putEntry, entriesWrites]
  | cons other rest ih =>
    simp only [putEntry]
    split <;> simp only [entriesWrites] <;> omega

theorem nestedWrites_put_le (payload : Payload) (key : String) (entry : Entry) :
    (payload.put key entry).nestedWrites ≤ payload.nestedWrites + entry.writes := by
  rw [nestedWrites_eq, nestedWrites_eq, put, entries_ofEntries]
  exact entriesWrites_putEntry_le key entry payload.entries

theorem nestedWrites_set_le (payload : Payload) (key : String) (term : Term) :
    (payload.set key term).nestedWrites ≤ payload.nestedWrites :=
  nestedWrites_put_le payload key (.value term)

/-- Laying a payload over defaults adds no insertions to those of the two. -/
theorem nestedWrites_onto_le (payload defaults : Payload) :
    (payload.onto defaults).nestedWrites ≤ payload.nestedWrites + defaults.nestedWrites := by
  rw [nestedWrites_eq payload, onto]
  induction payload.entries generalizing defaults with
  | nil => simp [entriesWrites]
  | cons entry rest ih =>
    have step := ih (defaults.put entry.1 entry.2)
    have put := nestedWrites_put_le defaults entry.1 entry.2
    simp only [List.foldl_cons, entriesWrites] at step put ⊢
    omega

theorem rowsWrites_map_set_le (rows : List Payload) (key : String) (term : Term) :
    rowsWrites (rows.map fun row => row.set key term) ≤ rowsWrites rows := by
  induction rows with
  | nil => simp
  | cons row rest ih =>
    have first := nestedWrites_set_le row key term
    simp only [List.map_cons, rowsWrites]
    omega

theorem rowsWrites_map_onto_empty_le (rows : List Payload) :
    rowsWrites (rows.map fun row => row.onto .empty) ≤ rowsWrites rows := by
  induction rows with
  | nil => simp
  | cons row rest ih =>
    have first : (row.onto .empty).nestedWrites ≤ row.nestedWrites :=
      nestedWrites_onto_le row .empty
    simp only [List.map_cons, rowsWrites]
    omega

end Payload

/-! ## Plans -/

/-- The number of insertions that a part of a row stands for. -/
def RowPart.writes : RowPart → Nat
  | .skipped | .cell _ _ => 0
  | .before _ data => data.nestedWrites + 1
  | .after _ rows => Payload.rowsWrites rows + 1

def RowPart.totalWrites : List RowPart → Nat
  | [] => 0
  | part :: rest => part.writes + totalWrites rest

namespace RowPlan

theorem writes_ofEntry {table : Table} {catalogued : Bool} {entry : String × Entry}
    {part : RowPart} (h : RowPart.ofEntry table catalogued entry = .ok part) :
    part.writes = entry.2.writes := by
  obtain ⟨key, entry⟩ := entry
  cases entry with
  | value term =>
    simp only [RowPart.ofEntry, Except.ok.injEq] at h
    subst h
    split <;> rfl
  | create data =>
    simp only [RowPart.ofEntry] at h
    cases hrelation : RowPart.relationOf table catalogued key with
    | error _ => simp [hrelation, Except.map] at h
    | ok relation =>
      simp only [hrelation, Except.map, Except.ok.injEq] at h
      subst h
      cases hkind : relation.kind <;>
        simp [RowPart.ofRow, hkind, RowPart.writes, Entry.writes, Payload.rowsWrites]
  | createMany rows =>
    simp only [RowPart.ofEntry] at h
    cases hrelation : RowPart.relationOf table catalogued key with
    | error _ => simp [hrelation, Except.bind] at h
    | ok relation =>
      simp only [hrelation, Except.bind, RowPart.ofRows] at h
      split at h
      · cases h; rfl
      · cases h

/-- The parts of a row have the nested writes of its entries. -/
theorem totalWrites_mapM {table : Table} {catalogued : Bool} {entries : List (String × Entry)}
    {parts : List RowPart} (h : entries.mapM (RowPart.ofEntry table catalogued) = .ok parts) :
    RowPart.totalWrites parts = Payload.entriesWrites entries := by
  induction entries generalizing parts with
  | nil => cases h; rfl
  | cons entry rest ih =>
    rw [List.mapM_cons] at h
    cases hfirst : RowPart.ofEntry table catalogued entry with
    | error _ => simp [hfirst, bind, Except.bind] at h
    | ok part =>
      cases hrest : rest.mapM (RowPart.ofEntry table catalogued) with
      | error _ => simp [hfirst, hrest, bind, Except.bind] at h
      | ok others =>
        simp only [hfirst, hrest, bind, Except.bind, pure, Except.pure, Except.ok.injEq] at h
        subst h
        simp [RowPart.totalWrites, Payload.entriesWrites, ih hrest, writes_ofEntry hfirst]

/-- The related rows of a row have the nested writes of its parts. -/
theorem totalWrites_related? (columns : List String) (row : Nat) (parts : List RowPart) :
    RelatedInsert.totalWrites (parts.filterMap (RowPart.related? columns row)) =
      RowPart.totalWrites parts := by
  induction parts with
  | nil => rfl
  | cons part rest ih =>
    cases part <;>
      simp [List.filterMap_cons, RowPart.related?, RowPart.totalWrites, RowPart.writes,
        RelatedInsert.totalWrites, RelatedInsert.writes, ih]

/-- A plan stands for the insertions that its payloads ask for. -/
theorem totalWrites_relatedFrom {table : Table} {catalogued : Bool} {payloads : List Payload}
    {rows : List (List RowPart)} (columns : List String) (row : Nat)
    (h : (payloads.mapM fun payload =>
      payload.entries.mapM (RowPart.ofEntry table catalogued)) = .ok rows) :
    RelatedInsert.totalWrites (relatedFrom columns row rows) = Payload.rowsWrites payloads := by
  induction payloads generalizing row rows with
  | nil => cases h; rfl
  | cons payload rest ih =>
    rw [List.mapM_cons] at h
    cases hfirst : payload.entries.mapM (RowPart.ofEntry table catalogued) with
    | error _ => simp [hfirst, bind, Except.bind] at h
    | ok parts =>
      cases hrest : rest.mapM fun payload =>
          payload.entries.mapM (RowPart.ofEntry table catalogued) with
      | error _ => simp [hfirst, hrest, bind, Except.bind] at h
      | ok others =>
        simp only [hfirst, hrest, bind, Except.bind, pure, Except.pure, Except.ok.injEq] at h
        subst h
        simp [relatedFrom, RelatedInsert.totalWrites_append, totalWrites_related?,
          totalWrites_mapM hfirst, ih (row + 1) hrest, Payload.rowsWrites,
          Payload.nestedWrites_eq]

end RowPlan

/-! ## Insertions built for related rows -/

namespace Query

/-- A query without anything that would take further insertions. -/
structure Fresh (query : Query) : Prop where
  defaults : query.clauses.defaults = .empty
  fallback : query.clauses.fallback = none

theorem fresh_of_sibling {query other : Query} {table : String}
    (h : query.sibling table = .ok other) : other.Fresh := by
  simp only [sibling] at h
  split at h
  · cases h
  · split at h
    · cases h
    · cases h; exact ⟨rfl, rfl⟩

/-- An insertion starts with the related rows it was given and the fallback the query had. -/
theorem startInsert_eq {query inserted : Query} {insertion : Insertion Statement} {many : Bool}
    {readBack : List String} {related : List RelatedInsert}
    (h : query.startInsert insertion many readBack related = .ok inserted) :
    inserted.clauses.related = related ∧
      inserted.clauses.fallback = query.clauses.fallback := by
  simp only [startInsert] at h
  split at h
  · cases h; exact ⟨rfl, rfl⟩
  · cases h

/-- An insertion asks for the further insertions that its payloads ask for. -/
theorem pendingWrites_insertRows_le {query inserted : Query} {rows : List Payload} {many : Bool}
    (fresh : query.Fresh) (h : query.insertRows rows many = .ok inserted) :
    inserted.pendingWrites ≤ Payload.rowsWrites rows := by
  simp only [insertRows, bind, Except.bind] at h
  split at h
  · cases h
  · rename_i table _
    split at h
    · cases h
    · rename_i plan hplan
      split at h
      · cases h
      · have ⟨hrelated, hfallback⟩ := startInsert_eq h
        simp only [RowPlan.ofPayloads, bind, Except.bind, fresh.defaults] at hplan
        split at hplan
        · cases hplan
        · rename_i parts hparts
          cases hplan
          have total := RowPlan.totalWrites_relatedFrom
            (RowPlan.columns ⟨parts⟩) 0 hparts
          have merged := Payload.rowsWrites_map_onto_empty_le rows
          rw [pendingWrites_eq, hrelated, hfallback, fresh.fallback]
          simp only [RowPlan.related, Option.map_none, Option.getD_none, Nat.add_zero]
          omega

/-- The writes still to come depend on the related rows and the fallback only. -/
theorem pendingWrites_eq_of_related_fallback {query other : Query}
    (hrelated : other.clauses.related = query.clauses.related)
    (hfallback : other.clauses.fallback = query.clauses.fallback) :
    other.pendingWrites = query.pendingWrites := by
  obtain ⟨clauses, catalog, log⟩ := query
  obtain ⟨others, _, _⟩ := other
  simp only at hrelated hfallback
  simp [pendingWrites, statement, Statement.fold, Statement.foldClauses_eq,
    Clauses.pendingWrites, hrelated, hfallback]

/-- The insertion of a row that has to be there before the rows of the query. It hands back the key
that these refer to. -/
def insertionBefore (query : Query) (relation : Relation) (data : Payload) :
    Except Error Query := do
  let inserted ← (← query.sibling relation.table).insert data
  return (← inserted.select [relation.primaryKey]).take

/-- The insertion of rows that refer to a row of the query by its key. -/
def insertionAfter (query : Query) (relation : Relation) (rows : List Payload) (key : Literal) :
    Except Error Query := do
  let rows := rows.map fun row => row.set relation.foreignKey (.literal key)
  return (← (← query.sibling relation.table).insertMany rows).count

/-- The insertion in front of a query has no more writes to come than its row has nested. -/
theorem pendingWrites_insertionBefore_le {query related : Query} {relation : Relation}
    {data : Payload} (h : query.insertionBefore relation data = .ok related) :
    related.pendingWrites ≤ data.nestedWrites := by
  simp only [insertionBefore, bind, Except.bind] at h
  split at h
  · cases h
  · rename_i sibling hsibling
    split at h
    · cases h
    · rename_i inserted hinserted
      have bound := pendingWrites_insertRows_le (fresh_of_sibling hsibling) hinserted
      simp only [Payload.rowsWrites, Nat.add_zero] at bound
      simp only [select, bind, Except.bind] at h
      split at h
      · cases h
      · rename_i selected hselected
        split at hselected
        · cases hselected
        · cases hselected
          cases h
          refine Nat.le_trans (Nat.le_of_eq (?_ : _ = inserted.pendingWrites)) bound
          exact pendingWrites_eq_of_related_fallback rfl rfl

/-- The insertion behind a query has no more writes to come than its rows have nested. -/
theorem pendingWrites_insertionAfter_le {query related : Query} {relation : Relation}
    {rows : List Payload} {key : Literal}
    (h : query.insertionAfter relation rows key = .ok related) :
    related.pendingWrites ≤ Payload.rowsWrites rows := by
  simp only [insertionAfter, bind, Except.bind] at h
  split at h
  · cases h
  · rename_i sibling hsibling
    split at h
    · cases h
    · rename_i inserted hinserted
      cases h
      simp only [insertMany] at hinserted
      split at hinserted
      · cases hinserted
      · have bound := pendingWrites_insertRows_le (fresh_of_sibling hsibling) hinserted
        have set := Payload.rowsWrites_map_set_le rows relation.foreignKey (.literal key)
        have same : inserted.count.pendingWrites = inserted.pendingWrites := by
          apply pendingWrites_eq_of_related_fallback <;>
            simp only [count, countOf, modify] <;> split <;> rfl
        omega

/-- The insertion in place of a query asks for fewer insertions than the query. -/
theorem pendingWrites_fallback_lt {query : Query} {fallback : Statement}
    (h : query.clauses.fallback = some fallback) :
    (query.withClauses fallback.clauses).pendingWrites < query.pendingWrites := by
  have equation := pendingWrites_eq query
  simp only [h, Option.map_some, Option.getD_some] at equation
  omega

theorem totalWrites_related_le (query : Query) :
    RelatedInsert.totalWrites query.clauses.related ≤ query.pendingWrites := by
  have equation := pendingWrites_eq query
  omega

end Query
end SqlComposer
