import SqlComposer.Condition.Shorthand
import SqlComposer.Proofs.Code.PrintedText
import SqlComposer.Proofs.Values.DigitStrings

/-!
# Numerals

The text of a number is made of digits, a point, the letter of an exponent and signs.
-/

namespace SqlComposer

def isNumeral (c : Char) : Bool := c.isDigit || c == '.' || c == 'e' || c == '+' || c == '-'

/-- Whether a text is made of characters of numbers. -/
def isNumeralText (text : String) : Bool := text.toList.all isNumeral

theorem isNumeralText_append {first second : String} (hfirst : isNumeralText first)
    (hsecond : isNumeralText second) : isNumeralText (first ++ second) := by
  unfold isNumeralText at hfirst hsecond ⊢
  rw [String.toList_append, List.all_append, hfirst, hsecond]
  rfl

theorem isNumeralText_nat (number : Nat) : isNumeralText (toString number) := by
  unfold isNumeralText
  rw [List.all_eq_true]
  intro c hc
  simp [isNumeral, isDigit_of_mem_toString hc]

theorem isNumeralText_int (number : Int) : isNumeralText (toString number) := by
  cases number with
  | ofNat number => exact isNumeralText_nat number
  | negSucc number => exact isNumeralText_append (by decide) (isNumeralText_nat (number + 1))

private theorem isNumeralText_ofList {text : List Char} (h : ∀ c ∈ text, isNumeral c) :
    isNumeralText (String.ofList text) := by
  unfold isNumeralText
  rw [String.toList_ofList, List.all_eq_true]
  exact h

private theorem isNumeral_of_mem {text : String} (h : isNumeralText text) {c : Char}
    (hc : c ∈ text.toList) : isNumeral c := List.all_eq_true.1 h c hc

private theorem isNumeralText_positional (layout : FloatLayout) (number : DecimalDigits) :
    isNumeralText (positionalText layout number) := by
  unfold positionalText
  have hdigits := isNumeralText_nat number.digits
  have hzeros (count : Nat) : ∀ c ∈ List.replicate count '0', isNumeral c := by
    intro c hc
    rw [List.eq_of_mem_replicate hc]
    decide
  dsimp only
  split
  · apply isNumeralText_append
    · exact isNumeralText_append hdigits (isNumeralText_ofList (hzeros _))
    · split <;> decide
  · apply isNumeralText_ofList
    have hpadded (count : Nat) :
        ∀ c ∈ List.replicate count '0' ++ (toString number.digits).toList, isNumeral c :=
      List.forall_mem_append.2 ⟨hzeros count, fun c hc ↦ isNumeral_of_mem hdigits hc⟩
    refine List.forall_mem_append.2 ⟨fun c hc ↦ hpadded _ c (List.mem_of_mem_take hc), ?_⟩
    refine List.forall_mem_cons.2 ⟨by decide, ?_⟩
    exact fun c hc ↦ hpadded _ c (List.mem_of_mem_drop hc)

private theorem isNumeralText_scientific (layout : FloatLayout) (number : DecimalDigits)
    (plus : isNumeralText layout.plus) : isNumeralText (scientificText layout number) := by
  unfold scientificText
  have hdigits := isNumeralText_nat number.digits
  refine isNumeralText_append (isNumeralText_append (isNumeralText_append ?_ (by decide)) ?_)
    (isNumeralText_int _)
  · apply isNumeralText_ofList
    have hfirst : ∀ c ∈ (toString number.digits).toList.take 1, isNumeral c :=
      fun c hc ↦ isNumeral_of_mem hdigits (List.mem_of_mem_take hc)
    refine List.forall_mem_append.2 ⟨hfirst, ?_⟩
    split
    · refine List.forall_mem_cons.2 ⟨by decide, ?_⟩
      exact fun c hc ↦ isNumeral_of_mem hdigits (List.mem_of_mem_drop hc)
    · simp
  · split
    · exact plus
    · decide

private theorem Double.not_special {x : Double} (finite : x.isFinite) :
    ¬x.isNaN ∧ ¬x.isInfinite := by
  unfold Double.isFinite at finite
  unfold Double.isNaN Double.isInfinite
  rw [decide_eq_true_eq] at finite ⊢
  rw [beq_iff_eq]
  omega

/-- The text of a finite double, as JSON writes it. -/
theorem isNumeralText_double {x : Double} (finite : x.isFinite) :
    isNumeralText (x.toText .json) := by
  have hspecial := Double.not_special finite
  unfold Double.toText
  rw [if_neg hspecial.1, if_neg hspecial.2]
  apply isNumeralText_append
  · split <;> decide
  · split
    · decide
    · dsimp only [FloatLayout.json]
      split
      · exact isNumeralText_positional _ _
      · exact isNumeralText_scientific _ _ (by decide)

/-- The text of a number, as JSON writes it; numbers that JSON does not have are null. -/
theorem isNumeralText_json {value : Json} {text : String}
    (h : Shorthand.numberText? value = some text) : text = "null" ∨ isNumeralText text := by
  unfold Shorthand.numberText? at h
  split at h
  · cases h
    exact .inr (isNumeralText_int _)
  · cases h
    unfold Json.floatText
    split
    · rename_i hfinite
      exact .inr (isNumeralText_double hfinite)
    · exact .inl rfl
  · simp at h

/-! ## Digits in numerals -/

def holdsDigit (text : String) : Bool := text.toList.any Char.isDigit

theorem holdsDigit_append_left {first : String} (h : holdsDigit first) (second : String) :
    holdsDigit (first ++ second) := by
  unfold holdsDigit at h ⊢
  rw [String.toList_append, List.any_append, h, Bool.true_or]

theorem holdsDigit_append_right (first : String) {second : String} (h : holdsDigit second) :
    holdsDigit (first ++ second) := by
  unfold holdsDigit at h ⊢
  rw [String.toList_append, List.any_append, h, Bool.or_true]

theorem holdsDigit_nat (number : Nat) : holdsDigit (toString number) := by
  unfold holdsDigit
  cases hdigits : (toString number).toList with
  | nil =>
    rw [Nat.toString_eq_ofList_toDigits, String.toList_ofList] at hdigits
    exact absurd hdigits Nat.toDigits_ne_nil
  | cons c rest =>
    have hc : c.isDigit := isDigit_of_mem_toString (hdigits ▸ List.mem_cons_self)
    rw [List.any_cons, hc, Bool.true_or]

theorem holdsDigit_int (number : Int) : holdsDigit (toString number) := by
  cases number with
  | ofNat number => exact holdsDigit_nat number
  | negSucc number => exact holdsDigit_append_right "-" (holdsDigit_nat (number + 1))

private theorem holdsDigit_positional (layout : FloatLayout) (number : DecimalDigits) :
    holdsDigit (positionalText layout number) := by
  have hdigits := holdsDigit_nat number.digits
  unfold positionalText
  dsimp only
  split
  · exact holdsDigit_append_left (holdsDigit_append_left hdigits _) _
  · unfold holdsDigit at hdigits ⊢
    rw [String.toList_ofList, List.any_append, List.any_cons, Bool.or_left_comm, ← List.any_append,
      List.take_append_drop, List.any_append, hdigits, Bool.or_true, Bool.or_true]

private theorem holdsDigit_double (x : Double) (finite : x.isFinite) :
    holdsDigit (x.toText .json) := by
  have hspecial := Double.not_special finite
  unfold Double.toText
  rw [if_neg hspecial.1, if_neg hspecial.2]
  apply holdsDigit_append_right
  split
  · decide
  · dsimp only [FloatLayout.json]
    split
    · exact holdsDigit_positional _ _
    · exact holdsDigit_append_right _ (holdsDigit_int _)

/-- The text of a number holds a digit, unless it is null. -/
theorem holdsDigit_json {value : Json} {text : String}
    (h : Shorthand.numberText? value = some text) : text = "null" ∨ holdsDigit text := by
  unfold Shorthand.numberText? at h
  split at h
  · cases h
    exact .inr (holdsDigit_int _)
  · cases h
    unfold Json.floatText
    split
    · rename_i hfinite
      exact .inr (holdsDigit_double _ hfinite)
    · exact .inl rfl
  · simp at h

end SqlComposer
