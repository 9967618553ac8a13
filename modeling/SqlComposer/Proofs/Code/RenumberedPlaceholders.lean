import SqlComposer.Proofs.Code.PlaceholderNumbers

/-!
# Renumbered placeholders

The text of code depends on the number of values bound before it only through its placeholders: it
is the text that the code has on its own, with that number added to the number of every placeholder.
This holds for all code that spells plain mentions, and in particular where a change hands back
columns that are missing among its items, which it finds out by comparing texts.
-/

namespace SqlComposer

/-- The number spelled by digits after adding to it; nothing for no digits. -/
def raised (offset : Nat) (digits : List Char) : List Char :=
  if digits.isEmpty then [] else (toString (offset + Nat.ofDigitChars 10 digits 0)).toList

/-- A text in which the number of every placeholder is raised. Digits that are read as part of a
number already are passed over. -/
def renumber (offset : Nat) (inNumber : Bool) : List Char → List Char
  | [] => []
  | c :: rest =>
    if c = '$' then '$' :: raised offset (rest.takeWhile Char.isDigit) ++ renumber offset true rest
    else if inNumber && c.isDigit then renumber offset true rest
    else c :: renumber offset false rest

/-- The text in which every placeholder `$i` is replaced by `$(offset + i)`. -/
def renumbered (offset : Nat) (text : String) : String :=
  String.ofList (renumber offset false text.toList)

/-! ## Scanning -/

theorem renumber_append (offset : Nat) {text : List Char} (plain : '$' ∉ text) (rest : List Char) :
    renumber offset false (text ++ rest) = text ++ renumber offset false rest := by
  induction text with
  | nil => rfl
  | cons c text ih =>
    rw [List.mem_cons, not_or] at plain
    rw [List.cons_append, renumber, if_neg (Ne.symm plain.1), ih plain.2]
    rfl

theorem renumber_plain (offset : Nat) {text : List Char} (plain : '$' ∉ text) :
    renumber offset false text = text := by
  simpa [renumber] using renumber_append offset plain []

/-- Digits of a number that is read already are passed over. -/
theorem renumber_digits (offset : Nat) {digits : List Char} (digital : ∀ c ∈ digits, c.isDigit)
    {rest : List Char} (ends : endsNumber rest) :
    renumber offset true (digits ++ rest) = renumber offset false rest := by
  induction digits with
  | nil =>
    cases rest with
    | nil => rfl
    | cons c rest =>
      have hend : c.isDigit = false := by simpa [endsNumber] using ends
      simp [renumber, hend]
  | cons c digits ih =>
    rw [List.forall_mem_cons] at digital
    have hother : c ≠ '$' := by
      rintro rfl
      exact absurd digital.1 (by decide)
    rw [List.cons_append, renumber, if_neg hother, digital.1, Bool.and_true, if_pos rfl,
      ih digital.2]

/-- A placeholder gives way to the one whose number is raised. -/
theorem renumber_numbered (offset number : Nat) {rest : List Char} (ends : endsNumber rest) :
    renumber offset false ((numbered number).toList ++ rest) =
      (numbered (offset + number)).toList ++ renumber offset false rest := by
  have htext (number : Nat) : (numbered number).toList = '$' :: Nat.toDigits 10 number := by
    simp [numbered]
  have hdigital : ∀ c ∈ Nat.toDigits 10 number, c.isDigit :=
    fun c hc ↦ Nat.isDigit_of_mem_toDigits (by decide) (by decide) hc
  have hread :
      (Nat.toDigits 10 number ++ rest).takeWhile Char.isDigit = Nat.toDigits 10 number := by
    rw [List.takeWhile_append_of_pos hdigital]
    cases rest with
    | nil => simp
    | cons c rest =>
      rw [List.takeWhile_cons_of_neg (by simpa [endsNumber] using ends), List.append_nil]
  have hraised : raised offset (Nat.toDigits 10 number) = Nat.toDigits 10 (offset + number) := by
    rw [raised, if_neg (by simp [Nat.toDigits_ne_nil]), Nat.ofDigitChars_ten_toDigits,
      Nat.toString_eq_ofList_toDigits, String.toList_ofList]
  rw [htext, htext, List.cons_append, renumber, if_pos rfl, hread, hraised,
    renumber_digits offset hdigital ends]

/-- Renumbering neither adds nor removes dollar signs. -/
theorem dollar_mem_renumber {offset : Nat} {text : List Char} (h : '$' ∈ text) (inNumber : Bool) :
    '$' ∈ renumber offset inNumber text := by
  induction text generalizing inNumber with
  | nil => simp at h
  | cons c text ih =>
    rw [renumber]
    split
    · exact List.mem_append_left _ List.mem_cons_self
    · rename_i hother
      have hrest := (List.mem_cons.1 h).resolve_left (Ne.symm hother)
      split
      · exact ih hrest true
      · exact List.mem_cons_of_mem _ (ih hrest false)

/-! ## Code -/

/-- The text of code behind other values is the renumbered text, whatever stands behind it. -/
def Code.Shifts (code : Code) : Prop :=
  ∀ (offset bound : Nat) {rest : List Char}, endsNumber rest →
    renumber offset false ((Code.print bound code).toList ++ rest) =
      (Code.print (offset + bound) code).toList ++ renumber offset false rest

namespace Fragment

/-- Renumbering the text of an expanded fragment prints it behind more bound values. -/
private theorem renumber_expand (offset bound : Nat) {read text : List Char}
    {values : List Literal} (plainRead : '$' ∉ read) (plain : '$' ∉ text) (apart : marksApart text)
    (marks : countMarks text = values.length) {rest : List Char} (ends : endsNumber rest) :
    renumber offset false ((Code.print bound (expand read text values)).toList ++ rest) =
      (Code.print (offset + bound) (expand read text values)).toList ++
        renumber offset false rest := by
  induction read, text, values using expand.induct generalizing bound with
  | case1 read values =>
    rw [expand, print_spliced, print_spliced]
    exact renumber_append offset (by simpa using plainRead) rest
  | case2 read text values ih =>
    simp only [List.mem_cons, not_or] at plain
    rw [expand]
    exact ih bound (by simpa using plainRead) plain.2.2 apart marks
  | case3 read text single =>
    rw [countMarks_single single] at marks
    simp at marks
  | case4 read text value values single ih =>
    rw [List.mem_cons, not_or] at plain
    rw [marksApart_single single, Bool.and_eq_true] at apart
    rw [countMarks_single single, List.length_cons, Nat.add_right_cancel_iff] at marks
    have hends := endsNumber_expand (bound + 1) apart.1 marks ends
    have hrest := ih (bound + 1) (by simp) plain.2 apart.2 marks
    have hmark := renumber_numbered offset (bound + 1) hends
    rw [hrest] at hmark
    rw [expand, Code.print_append, Code.print_append, String.toList_append, String.toList_append,
      print_spliced, print_spliced, values_spliced, List.append_assoc, List.append_assoc,
      renumber_append offset (by simpa using plainRead)]
    · rw [Code.print, Code.print, String.toList_append, String.toList_append, List.append_assoc,
        List.append_assoc]
      exact congrArg _ hmark
    · exact single
  | case5 read c text values notDoubled notMark notLast ih =>
    rw [List.mem_cons, not_or] at plain
    have hother : c ≠ '?' := by
      intro h
      cases values <;> simp_all
    rw [marksApart_other hother] at apart
    rw [countMarks_other hother] at marks
    rw [expand]
    · exact ih bound (by simpa using ⟨plain.1, plainRead⟩) plain.2 apart marks
    · exact notDoubled
    · exact notMark
    · exact notLast

theorem shifts_pieces {fragment : Fragment} (sound : fragment.fault? = none)
    (plain : fragment.Plain) : Code.Shifts fragment.pieces := by
  intro offset bound rest ends
  unfold pieces
  split
  · rename_i hempty
    have htext (bound : Nat) :
        (Code.print bound [.splice fragment.sql]).toList = fragment.sql.toList := by
      simp [Code.print, Piece.print]
    rw [htext, htext]
    exact renumber_append offset plain.1 rest
  · rename_i hfilled
    have apart := plain.2.resolve_left hfilled
    exact renumber_expand offset bound (by simp) plain.1 apart
      (countMarks_eq_of_sound sound hfilled) ends

end Fragment

namespace Code

variable {code : Code}

theorem Shifts.nil : Shifts [] := fun _ _ _ _ ↦ rfl

/-- A text without placeholders in front. -/
theorem Shifts.behind {piece : Piece} {text : String} (shifts : Shifts code)
    (print : ∀ bound, piece.print bound = text) (plain : '$' ∉ text.toList)
    (values : piece.values = []) : Shifts (piece :: code) := by
  intro offset bound rest ends
  rw [Code.print, Code.print, print, print, values, String.toList_append, String.toList_append,
    List.append_assoc, List.append_assoc, renumber_append offset plain]
  exact congrArg _ (shifts offset bound ends)

/-- Alone, code behind other values has the renumbered text. -/
theorem Shifts.print_eq (shifts : Shifts code) (offset bound : Nat) :
    renumber offset false (Code.print bound code).toList =
      (Code.print (offset + bound) code).toList := by
  simpa [renumber] using @shifts offset bound [] rfl

/-! ## Items and missing columns -/

/-- A text without placeholders occurs among the renumbered texts of items exactly if it occurs
among their texts. -/
theorem mem_itemTexts_shifted {items : List Code} (shifts : ∀ item ∈ items, Shifts item)
    (offset bound : Nat) {text : String} (plain : '$' ∉ text.toList) :
    text ∈ itemTexts (offset + bound) items ↔ text ∈ itemTexts bound items := by
  induction items generalizing bound with
  | nil => simp [itemTexts]
  | cons item items ih =>
    rw [List.forall_mem_cons] at shifts
    have hshifted := shifts.1.print_eq offset bound
    have hsame : text = Code.print (offset + bound) item ↔ text = Code.print bound item := by
      constructor
      · rintro rfl
        by_cases hdollar : '$' ∈ (Code.print bound item).toList
        · have hmem : '$' ∈ renumber offset false (Code.print bound item).toList :=
            dollar_mem_renumber hdollar false
          rw [hshifted] at hmem
          exact absurd hmem plain
        · rw [renumber_plain offset hdollar] at hshifted
          exact String.toList_injective hshifted.symm
      · rintro rfl
        rw [renumber_plain offset plain] at hshifted
        exact String.toList_injective hshifted
    rw [itemTexts, itemTexts, List.mem_cons, List.mem_cons, hsame, Nat.add_assoc, ih shifts.2]

/-- Items and texts without placeholders behind them, separated by commas. -/
theorem renumber_items {items : List Code} {missing : List String}
    (shifts : ∀ item ∈ items, Shifts item) (plain : ∀ text ∈ missing, '$' ∉ text.toList)
    (offset bound : Nat) {rest : List Char} (ends : endsNumber rest) :
    renumber offset false ((", ".intercalate (itemTexts bound items ++ missing)).toList ++ rest) =
      (", ".intercalate (itemTexts (offset + bound) items ++ missing)).toList ++
        renumber offset false rest := by
  induction items generalizing bound with
  | nil =>
    apply renumber_append
    intro h
    have hall : ∀ c ∈ (", ".intercalate missing).toList, c ≠ '$' := by
      apply forall_mem_intercalate
      · simp
      · exact fun text htext c hc hdollar ↦ plain text htext (hdollar ▸ hc)
    exact hall '$' h rfl
  | cons item items ih =>
    rw [List.forall_mem_cons] at shifts
    have hothers := ih shifts.2 (bound + (values item).length)
    rw [itemTexts, itemTexts, List.cons_append, List.cons_append, Nat.add_assoc]
    have hsameLength : ∀ first second, (itemTexts first items ++ missing = []) =
        (itemTexts second items ++ missing = []) := by
      cases items <;> simp [itemTexts]
    by_cases hlast : itemTexts (bound + (values item).length) items ++ missing = []
    · have hshifted := hsameLength _ (offset + (bound + (values item).length)) ▸ hlast
      rw [hlast, hshifted, String.intercalate_singleton, String.intercalate_singleton]
      exact shifts.1 offset bound ends
    · have hshifted := hsameLength _ (offset + (bound + (values item).length)) ▸ hlast
      rw [String.intercalate_cons_of_ne_nil hlast, String.intercalate_cons_of_ne_nil hshifted]
      simp only [String.toList_append, List.append_assoc]
      rw [shifts.1 offset bound (by rfl), renumber_append offset (by decide), hothers]

/-- Items and columns without values of their own that either hold no placeholder or stand among the
items anyway. Which columns are missing does not depend on the values bound before. -/
theorem renumber_itemsThenMissing {items columns : List Code} {texts : List String}
    (shifts : ∀ item ∈ items, Shifts item) (columnTexts : ∀ bound, itemTexts bound columns = texts)
    (decided : ∀ text ∈ texts, '$' ∉ text.toList ∨ ∀ bound, text ∈ itemTexts bound items)
    (offset bound : Nat) {rest : List Char} (ends : endsNumber rest) :
    renumber offset false (((Piece.itemsThenMissing items columns).print bound).toList ++ rest) =
      ((Piece.itemsThenMissing items columns).print (offset + bound)).toList ++
        renumber offset false rest := by
  have hsame : texts.filter (· ∉ itemTexts (offset + bound) items) =
      texts.filter (· ∉ itemTexts bound items) := by
    refine List.filter_congr fun text htext ↦ ?_
    rcases decided text htext with hplain | hpresent
    · simp only [mem_itemTexts_shifted shifts offset bound hplain]
    · simp only [hpresent]
  have hplain : ∀ text ∈ (texts.filter (· ∉ itemTexts bound items)).eraseDups,
      '$' ∉ text.toList := by
    intro text htext
    rw [List.mem_eraseDups, List.mem_filter, decide_eq_true_eq] at htext
    exact (decided text htext.1).resolve_right fun hpresent ↦ htext.2 (hpresent bound)
  rw [Piece.print, Piece.print, columnTexts, columnTexts, withMissing_eq, withMissing_eq, hsame]
  exact renumber_items shifts hplain offset bound ends

end Code

/-! ## Spelled code -/

/-- The text of spelled code behind other values is its own text, renumbered. -/
theorem Spells.shifts {raw : Fragment → Prop} {code : Code} {mentions : List Mention}
    (h : Spells raw code mentions) (plain : ∀ mention ∈ mentions, mention.Plain) :
    code.Shifts := by
  induction h with
  | nil => exact .nil
  | word known _ ih => exact (ih plain).behind (fun _ ↦ rfl) (dollar_not_mem_vocabulary known) rfl
  | function form _ ih =>
    rw [List.forall_mem_cons] at plain
    exact (ih plain.2).behind (fun _ ↦ rfl) (dollar_not_mem_functionName form) rfl
  | format form _ ih =>
    rw [List.forall_mem_cons] at plain
    exact (ih plain.2).behind (fun _ ↦ rfl) (dollar_not_mem_format form) rfl
  | name _ _ ih =>
    rw [List.forall_mem_cons] at plain
    exact (ih plain.2).behind (fun _ ↦ rfl) (dollar_not_mem_name plain.1) rfl
  | constant known _ _ ih =>
    rw [List.forall_mem_cons] at plain
    rw [Code.constants, List.mem_singleton] at known
    exact (ih plain.2).behind (fun _ ↦ rfl)
      (not_mem_enclosed (by decide) (by simp [known])) rfl
  | path _ _ ih =>
    rw [List.forall_mem_cons] at plain
    have hpath := dollar_not_mem_array plain.1
    exact (ih plain.2).behind (fun _ ↦ rfl) (not_mem_enclosed (by decide) hpath) rfl
  | option _ _ ih =>
    rw [List.forall_mem_cons] at plain
    exact (ih plain.2).behind (fun _ ↦ rfl) (not_mem_enclosed (by decide) plain.1) rfl
  | value lead _ ih =>
    intro offset bound rest ends
    rw [List.forall_mem_cons] at plain
    have hends := Code.endsNumber_print (bound + 1) lead ends
    have hmark := renumber_numbered offset (bound + 1) hends
    rw [ih plain.2 offset (bound + 1) ends] at hmark
    rw [Code.print, Code.print, String.toList_append, String.toList_append, List.append_assoc,
      List.append_assoc]
    exact hmark
  | lost _ ih =>
    intro offset bound rest ends
    rw [List.forall_mem_cons] at plain
    have hrest := ih plain.2 offset (bound + 1) ends
    rw [Code.print, Code.print, String.toList_append, String.toList_append, List.append_assoc,
      List.append_assoc]
    exact hrest
  | @fragment fragment code mentions sound _ lead _ ih =>
    intro offset bound rest ends
    rw [List.forall_mem_cons] at plain
    have hplain : fragment.Plain := plain.1.elim id Fragment.IsLibrary.plain
    have hends := Code.endsNumber_print (bound + fragment.values.length) lead ends
    rw [Code.print_append, Code.print_append, values_pieces sound, String.toList_append,
      String.toList_append, List.append_assoc, List.append_assoc,
      Fragment.shifts_pieces sound hplain offset bound hends, ih plain.2 offset _ ends,
      Nat.add_assoc]
  | @returned items owner columns missing code mentions spelled apart decided lead _ ihitems ih =>
    intro offset bound rest ends
    simp only [List.forall_mem_append] at plain
    obtain ⟨⟨plainItems, plainColumns⟩, plainRest⟩ := plain
    have hshifts : ∀ code ∈ items.map Prod.fst, Code.Shifts code := by
      rw [List.forall_mem_map]
      intro item hitem
      exact ihitems item hitem fun mention hmention ↦
        plainItems mention (List.mem_flatMap.2 ⟨item, hitem, hmention⟩)
    have hdecided : ∀ text ∈ columns.map fun column ↦ Code.print 0 (Code.ofColumn owner column),
        '$' ∉ text.toList ∨ ∀ before, text ∈ Code.itemTexts before (items.map Prod.fst) := by
      rw [List.forall_mem_map]
      intro column hcolumn
      by_cases hmissing : missing column
      · refine .inl (dollar_not_mem_column 0 fun mention hmention ↦ ?_)
        apply plainColumns
        rw [List.mem_flatMap]
        exact ⟨column, List.mem_eraseDups.2 (List.mem_filter.2 ⟨hcolumn, hmissing⟩), hmention⟩
      · refine .inr fun before ↦ ?_
        rw [decided column hcolumn, not_not] at hmissing
        obtain ⟨between, hbetween⟩ := Code.exists_print_mem_itemTexts before hmissing
        rwa [Code.ofColumn, Code.print_column] at hbetween
    have hends := Code.endsNumber_print (bound + (Piece.itemsThenMissing (items.map Prod.fst)
      (columns.map (Code.ofColumn owner))).values.length) lead ends
    rw [Code.print, Code.print, String.toList_append, String.toList_append, List.append_assoc,
      List.append_assoc, Code.renumber_itemsThenMissing hshifts (columnTexts_eq · columns owner)
        hdecided offset bound hends, ih plainRest offset _ ends, Nat.add_assoc]

end SqlComposer
