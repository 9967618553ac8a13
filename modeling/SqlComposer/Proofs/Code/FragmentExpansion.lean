import SqlComposer.Proofs.Mentions.SpelledCode

/-!
# Fragments that expand as written

A fragment with values is made of segments with a mark for a value between each two, and marks that
belong to a segment are doubled. It expands to the segments with numbered placeholders between them.
Marks are paired from the left, so the text can be taken apart again as long as no segment behind a
mark begins with a mark of its own, and none between two marks is empty. Every text is made of such
segments, so exactly the fragments with a mark for each value expand.
-/

namespace SqlComposer

namespace Fragment

/-- Segments with a mark between each two, the marks inside of them doubled. -/
def marked (first : List Char) : List (List Char) → List Char
  | [] => doubled '?' first
  | next :: rest => doubled '?' first ++ '?' :: marked next rest

/-- Segments with placeholders between them, numbered behind `bound` others. -/
def numbered (bound : Nat) (first : List Char) : List (List Char) → List Char
  | [] => first
  | next :: rest =>
    first ++ '$' :: ((toString (bound + 1)).toList ++ numbered (bound + 1) next rest)

/-- Segments behind marks keep apart from them: none begins with a mark, and none but the last is
empty. -/
structure Apart (segments : List (List Char)) : Prop where
  begins : ∀ segment ∈ segments, segment.head? ≠ some '?'
  between : ∀ segment ∈ segments.dropLast, segment ≠ []

/-- What is left of a text without the pairs of marks in it, taken from the left. -/
def unpaired : List Char → List Char
  | [] => []
  | '?' :: '?' :: rest => unpaired rest
  | c :: rest => c :: unpaired rest

variable {first segment : List Char} {rest segments : List (List Char)} {text : List Char}
  {values : List Literal} {bound : Nat}

/-! ## Segments -/

theorem apart_nil : Apart [] := ⟨by simp, by simp⟩

theorem apart_cons : Apart (segment :: segments) ↔
    (segment.head? ≠ some '?' ∧ (segments ≠ [] → segment ≠ [])) ∧ Apart segments := by
  constructor
  · intro apart
    obtain ⟨hfirst, hothers⟩ := List.forall_mem_cons.1 apart.begins
    refine ⟨⟨hfirst, fun nonempty ↦ apart.between segment ?_⟩, hothers, fun other held ↦ ?_⟩
    · rw [List.dropLast_cons_of_ne_nil nonempty]
      exact List.mem_cons_self
    · refine apart.between other ?_
      rw [List.dropLast_cons_of_ne_nil (List.ne_nil_of_mem (List.dropLast_subset _ held))]
      exact List.mem_cons_of_mem _ held
  · rintro ⟨⟨hfirst, hempty⟩, apart⟩
    refine ⟨List.forall_mem_cons.2 ⟨hfirst, apart.begins⟩, ?_⟩
    cases segments with
    | nil => simp
    | cons next others =>
      rw [List.dropLast_cons_of_ne_nil (by simp)]
      exact List.forall_mem_cons.2 ⟨hempty (by simp), apart.between⟩

theorem head?_doubled (mark : Char) (text : List Char) :
    (doubled mark text).head? = text.head? := by
  cases text with
  | nil => rfl
  | cons c text =>
    rw [doubled]
    split
    · rename_i hmark
      rw [hmark]
      rfl
    · rfl

/-- A text begins with a mark if its first segment does, or is empty with a mark behind it. -/
theorem head?_marked : (marked first rest).head? ≠ some '?' ↔
    first.head? ≠ some '?' ∧ (rest ≠ [] → first ≠ []) := by
  cases rest with
  | nil => simp [marked, head?_doubled]
  | cons next rest =>
    rw [marked, List.head?_append, head?_doubled]
    cases first <;> simp

private theorem single_of_head? (h : text.head? ≠ some '?') (others : List Char) :
    text ≠ '?' :: others := by
  rintro rfl
  exact h rfl

/-! ## Marks -/

theorem countMarks_doubled (segment text : List Char) :
    countMarks (doubled '?' segment ++ text) = countMarks text := by
  induction segment with
  | nil => rfl
  | cons c segment ih =>
    rw [doubled]
    split
    · exact ih
    · rename_i hother
      rw [List.cons_append, countMarks_other hother, ih]

theorem countMarks_marked (apart : Apart rest) : countMarks (marked first rest) = rest.length := by
  induction rest generalizing first with
  | nil =>
    have h := countMarks_doubled first []
    rwa [List.append_nil] at h
  | cons next rest ih =>
    obtain ⟨hnext, hrest⟩ := apart_cons.1 apart
    rw [marked, countMarks_doubled, countMarks_single (single_of_head? (head?_marked.2 hnext)),
      ih hrest]
    rfl

/-- The marks that are counted are those left when all pairs are taken out. -/
theorem count_unpaired (text : List Char) : (unpaired text).count '?' = countMarks text := by
  induction text using unpaired.induct with
  | case1 => rfl
  | case2 rest ih => rw [unpaired, countMarks, ih]
  | case3 c rest single ih =>
    rw [unpaired, List.count_cons, ih]
    · by_cases hmark : c = '?'
      · subst hmark
        rw [countMarks_single fun others h ↦ single others rfl h]
        rfl
      · rw [countMarks_other hmark, if_neg (by simpa using hmark)]
        rfl
    · exact single

/-- Every text is made of segments with marks between them. -/
theorem exists_marked (text : List Char) : ∃ first rest, text = marked first rest ∧ Apart rest := by
  induction text using unpaired.induct with
  | case1 => exact ⟨[], [], rfl, apart_nil⟩
  | case2 text ih =>
    obtain ⟨first, rest, rfl, apart⟩ := ih
    refine ⟨'?' :: first, rest, ?_, apart⟩
    cases rest <;> rfl
  | case3 c text single ih =>
    obtain ⟨first, rest, htext, apart⟩ := ih
    by_cases hmark : c = '?'
    · have hbegins : (marked first rest).head? ≠ some '?' := by
        rw [← htext]
        intro hhead
        obtain ⟨others, hothers⟩ := List.head?_eq_some_iff.1 hhead
        exact single others hmark hothers
      refine ⟨[], first :: rest, ?_, apart_cons.2 ⟨head?_marked.1 hbegins, apart⟩⟩
      rw [marked, ← htext, hmark]
      rfl
    · refine ⟨c :: first, rest, ?_, apart⟩
      rw [htext]
      cases rest <;> simp [marked, doubled, hmark]

/-! ## Expansion -/

/-- A segment is read without a trace of its pairs. -/
theorem expand_doubled (read segment text : List Char) (values : List Literal) :
    expand read (doubled '?' segment ++ text) values =
      expand (segment.reverse ++ read) text values := by
  induction segment generalizing read with
  | nil => rfl
  | cons c segment ih =>
    rw [doubled, List.reverse_cons, List.append_assoc, List.singleton_append]
    split
    · rename_i hmark
      rw [List.cons_append, List.cons_append, expand, ih, hmark]
    · rename_i hother
      rw [List.cons_append, expand, ih]
      all_goals simp_all

theorem print_expand_marked (apart : Apart rest) (count : rest.length = values.length) :
    (Code.print bound (expand [] (marked first rest) values)).toList =
      numbered bound first rest := by
  induction rest generalizing first values bound with
  | nil =>
    have h := expand_doubled [] first [] values
    rw [List.append_nil, List.append_nil] at h
    rw [marked, h, expand, print_spliced, List.reverse_reverse]
    rfl
  | cons next rest ih =>
    obtain ⟨value, values, rfl⟩ : ∃ value others, values = value :: others := by
      cases values with
      | nil => cases count
      | cons value values => exact ⟨value, values, rfl⟩
    have hsingle := single_of_head? (head?_marked.2 (apart_cons.1 apart).1)
    rw [marked, expand_doubled, List.append_nil, expand, Code.print_append, String.toList_append,
      print_spliced, values_spliced, List.reverse_reverse, Code.print, Piece.print,
      String.toList_append, String.toList_append,
      ih (apart_cons.1 apart).2 (Nat.succ.inj count)]
    · simp [numbered, Piece.values]
    · exact hsingle

theorem code_eq_ok {fragment : Fragment} {code : Code} :
    fragment.code = .ok code ↔ fragment.fault? = none ∧ code = fragment.pieces := by
  unfold Fragment.code
  cases fragment.fault? <;> simp [eq_comm]

theorem fault?_eq_none_iff {fragment : Fragment} (filled : fragment.values ≠ []) :
    fragment.fault? = none ↔ countMarks fragment.sql.toList = fragment.values.length := by
  have hfilled : ¬fragment.values.isEmpty := by simpa using filled
  simp [fault?, hfilled]

/-- A fragment made of segments with a mark for each value between them expands to the segments with
numbered placeholders between them, and binds its values behind those that are bound already. A
fragment with values expands exactly if the marks left without their pairs are as many as its
values, and then it is made of such segments. -/
theorem expands (fragment : Fragment) (filled : fragment.values ≠ []) :
    (∀ first rest, fragment.sql.toList = marked first rest →
      rest.length = fragment.values.length → Apart rest →
      ∀ parameters : Parameters, ∃ code, fragment.code = .ok code ∧ parameters.print code =
        (String.ofList (numbered parameters.values.length first rest),
          ⟨parameters.values ++ fragment.values⟩)) ∧
    ((∃ code, fragment.code = .ok code) ↔
      (unpaired fragment.sql.toList).count '?' = fragment.values.length) ∧
    ((∃ code, fragment.code = .ok code) ↔ ∃ first rest, fragment.sql.toList = marked first rest ∧
      rest.length = fragment.values.length ∧ Apart rest) := by
  have hcode : (∃ code, fragment.code = .ok code) ↔
      countMarks fragment.sql.toList = fragment.values.length := by
    simp only [code_eq_ok, fault?_eq_none_iff filled, exists_and_left, exists_eq, and_true]
  refine ⟨fun first rest htext count apart parameters ↦ ?_, by rw [hcode, count_unpaired], ?_⟩
  · have hmarks : countMarks fragment.sql.toList = fragment.values.length := by
      rw [htext, countMarks_marked apart, count]
    have sound := (fault?_eq_none_iff filled).2 hmarks
    have hpieces : fragment.pieces = expand [] (marked first rest) fragment.values := by
      rw [pieces, if_neg (by simpa using filled), htext]
    refine ⟨fragment.pieces, code_eq_ok.2 ⟨sound, rfl⟩, ?_⟩
    rw [Parameters.print, Spells.values_pieces sound, hpieces,
      ← print_expand_marked apart count, String.ofList_toList]
  · rw [hcode]
    constructor
    · intro hmarks
      obtain ⟨first, rest, htext, apart⟩ := exists_marked fragment.sql.toList
      refine ⟨first, rest, htext, ?_, apart⟩
      rw [← hmarks, htext, countMarks_marked apart]
    · rintro ⟨first, rest, htext, count, apart⟩
      rw [htext, countMarks_marked apart, count]

/-- A mark at the end of a segment stays apart from the placeholder behind it. -/
theorem expands_run : ∃ code, Fragment.code ⟨"tags ???+?", [.int 2, .int 3]⟩ = .ok code ∧
    Parameters.print ⟨[.int 1]⟩ code = ("tags ?$2+$3", ⟨[.int 1, .int 2, .int 3]⟩) := by
  have h := (expands ⟨"tags ???+?", [.int 2, .int 3]⟩ (by simp)).1 "tags ?".toList
    ["+".toList, []] (by decide) rfl (apart_cons.2 ⟨by decide, apart_cons.2 ⟨by simp, apart_nil⟩⟩)
    ⟨[.int 1]⟩
  exact h

end Fragment
end SqlComposer
