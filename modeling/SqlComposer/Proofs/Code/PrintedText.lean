import SqlComposer.ColumnRef
import SqlComposer.Fragment

/-!
# Printed code

Printing goes through code from left to right and carries the number of values bound so far, so the
text of code put together is that of its parts.
-/

namespace SqlComposer

/-- A character in a text between marks is the mark or a character of the text. -/
theorem not_mem_enclosed {mark c : Char} (other : mark ≠ c) {text : String}
    (plain : c ∉ text.toList) : c ∉ (enclosed mark text).toList := by
  have hdoubled : c ∉ doubled mark text.toList := by
    generalize text.toList = characters at plain
    induction characters with
    | nil => simp [doubled]
    | cons d rest ih =>
      rw [List.mem_cons, not_or] at plain
      unfold doubled
      split
      · simp only [List.mem_cons, not_or]
        exact ⟨Ne.symm other, Ne.symm other, ih plain.2⟩
      · rw [List.mem_cons, not_or]
        exact ⟨plain.1, ih plain.2⟩
  unfold enclosed
  rw [String.toList_ofList, List.mem_cons, List.mem_append, List.mem_singleton]
  simp [hdoubled, Ne.symm other]

namespace Code

theorem values_append (code other : Code) :
    values (code ++ other) = values code ++ values other := by
  induction code with
  | nil => rfl
  | cons piece rest ih => simp [values, ih]

theorem itemValues_eq (items : List Code) : itemValues items = items.flatMap values := by
  induction items with
  | nil => rfl
  | cons item rest ih => rw [itemValues, List.flatMap_cons, ih]

theorem print_append (bound : Nat) (code other : Code) :
    print bound (code ++ other) =
      print bound code ++ print (bound + (values code).length) other := by
  induction code generalizing bound with
  | nil => simp [print, values]
  | cons piece rest ih =>
    simp only [List.cons_append, print, ih, values, List.length_append, String.append_assoc,
      Nat.add_assoc]

/-- Texts behind a separator hold only characters of the texts and of the separator. -/
theorem forall_mem_intercalate {P : Char → Prop} {separator : String} {texts : List String}
    (hseparator : ∀ c ∈ separator.toList, P c) (htexts : ∀ text ∈ texts, ∀ c ∈ text.toList, P c) :
    ∀ c ∈ (separator.intercalate texts).toList, P c := by
  induction texts with
  | nil => simp
  | cons text rest ih =>
    rw [List.forall_mem_cons] at htexts
    by_cases hrest : rest = []
    · rw [hrest, String.intercalate_singleton]
      exact htexts.1
    · rw [String.intercalate_cons_of_ne_nil hrest, String.toList_append, String.toList_append]
      have hfirst := List.forall_mem_append.2 ⟨htexts.1, hseparator⟩
      exact List.forall_mem_append.2 ⟨hfirst, ih htexts.2⟩

/-! ## Items and missing columns -/

/-- Behind texts come the columns that do not occur among them, each once. -/
theorem withMissing_eq (texts columns : List String) :
    withMissing texts columns = texts ++ (columns.filter (· ∉ texts)).eraseDups := by
  induction columns generalizing texts with
  | nil => simp [withMissing]
  | cons column rest ih =>
    unfold withMissing
    split
    · rename_i hknown
      rw [ih, List.filter_cons_of_neg (by simpa using hknown)]
    · rename_i hnew
      have hothers : rest.filter (· ∉ texts ++ [column]) =
          (rest.filter (· ∉ texts)).filter fun other ↦ !other == column := by
        rw [List.filter_filter]
        refine List.filter_congr fun other _ ↦ ?_
        by_cases hother : other = column <;> simp [hother]
      rw [ih, List.filter_cons_of_pos (by simpa using hnew), List.eraseDups_cons, hothers,
        List.append_assoc, List.singleton_append]

theorem values_column (column : ColumnRef) (owner : Option String) :
    values (column.code (owner.map .name)) = [] := by
  obtain ⟨table, name⟩ := column
  cases table <;> cases owner <;> simp only [ColumnRef.code, Option.map_none, Option.map_some] <;>
    split <;> rfl

/-- The text of a column does not depend on the values bound before it. -/
theorem print_column (bound : Nat) (column : ColumnRef) (owner : Option String) :
    print bound (column.code (owner.map .name)) = print 0 (column.code (owner.map .name)) := by
  obtain ⟨table, name⟩ := column
  cases table <;> cases owner <;> simp only [ColumnRef.code, Option.map_none, Option.map_some] <;>
    split <;> rfl

/-- Columns bind no values, so their texts do not depend on the number bound before. -/
theorem itemTexts_columns (bound : Nat) (columns : List ColumnRef) (owner : Option String) :
    itemTexts bound (columns.map fun column ↦ column.code (owner.map .name)) =
      columns.map fun column ↦ print 0 (column.code (owner.map .name)) := by
  induction columns with
  | nil => rfl
  | cons column rest ih =>
    rw [List.map_cons, itemTexts, values_column, List.length_nil, Nat.add_zero, ih, print_column,
      List.map_cons]

theorem exists_print_mem_itemTexts (bound : Nat) {items : List Code} {item : Code}
    (h : item ∈ items) : ∃ before, print before item ∈ itemTexts bound items := by
  induction items generalizing bound with
  | nil => simp at h
  | cons first rest ih =>
    rw [itemTexts]
    rcases List.mem_cons.1 h with rfl | h
    · exact ⟨bound, List.mem_cons_self⟩
    · obtain ⟨before, hbefore⟩ := ih (bound + (values first).length) h
      exact ⟨before, List.mem_cons_of_mem _ hbefore⟩

end Code

namespace Fragment

theorem countMarks_single {rest : List Char} (single : ∀ others, rest ≠ '?' :: others) :
    countMarks ('?' :: rest) = countMarks rest + 1 := by
  rw [countMarks]
  exact single

theorem countMarks_other {c : Char} {rest : List Char} (other : c ≠ '?') :
    countMarks (c :: rest) = countMarks rest := by
  rw [countMarks]
  · exact fun _ h ↦ absurd h other
  · exact other

theorem values_spliced (read : List Char) : Code.values (spliced read) = [] := by
  unfold spliced
  split <;> rfl

theorem print_spliced (bound : Nat) (read : List Char) :
    (Code.print bound (spliced read)).toList = read.reverse := by
  unfold spliced
  split
  · rename_i hempty
    rw [List.isEmpty_iff.1 hempty]
    rfl
  · simp [Code.print, Piece.print]

/-- What was read since the last mark stands in front. -/
theorem print_expand (bound : Nat) (read text : List Char) (values : List Literal) :
    (Code.print bound (expand read text values)).toList =
      read.reverse ++ (Code.print bound (expand [] text values)).toList := by
  have hread (seen : List Char) : ∀ read : List Char,
      (Code.print bound (expand read text values)).toList =
        read.reverse ++ (Code.print bound (expand [] text values)).toList := by
    induction seen, text, values using expand.induct with
    | case1 seen values =>
      intro read
      simp only [expand, print_spliced, List.reverse_nil, List.append_nil]
    | case2 seen rest values ih =>
      intro read
      rw [expand, expand, ih ('?' :: read), ih ['?']]
      simp
    | case3 seen rest single ih =>
      intro read
      rw [expand, expand, ih read]
      · exact single
      · exact single
    | case4 seen rest value values single ih =>
      intro read
      rw [expand, expand, Code.print_append, String.toList_append, print_spliced,
        values_spliced]
      · rfl
      · exact single
      · exact single
    | case5 seen c rest values notDoubled notMark notLast ih =>
      intro read
      rw [expand, expand, ih (c :: read), ih [c]]
      · simp
      · exact notDoubled
      · exact notMark
      · exact notLast
      · exact notDoubled
      · exact notMark
      · exact notLast
  exact hread [] read

end Fragment
end SqlComposer
