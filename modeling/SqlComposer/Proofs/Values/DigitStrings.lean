import Mathlib.Data.List.TakeWhile
import SqlComposer.Number.Decimal
import SqlComposer.Number.FloatText

/-!
# Numbers written in digits

The digits of a number are read back as the number. With them integers are read back from their
texts, and decimals too, except that a zero loses its sign.
-/

namespace SqlComposer

/-! ## Digits -/

theorem isDigit_of_mem_toString {number : Nat} {c : Char} (h : c ∈ (toString number).toList) :
    c.isDigit := by
  rw [Nat.toString_eq_ofList_toDigits, String.toList_ofList] at h
  exact Nat.isDigit_of_mem_toDigits (by decide) (by decide) h

/-- Digits read behind a number that has been read already. -/
def digitsFrom (value : Nat) (digits : List Char) : Nat :=
  digits.foldl (fun value c => value * 10 + digitValue c) value

@[simp]
theorem digitsFrom_nil (value : Nat) : digitsFrom value [] = value := rfl

@[simp]
theorem digitsFrom_cons (value : Nat) (c : Char) (digits : List Char) :
    digitsFrom value (c :: digits) = digitsFrom (value * 10 + digitValue c) digits :=
  List.foldl_cons ..

theorem digitsFrom_append (value : Nat) (first second : List Char) :
    digitsFrom value (first ++ second) = digitsFrom (digitsFrom value first) second :=
  List.foldl_append

/-- Reading on never makes a number smaller. -/
theorem le_digitsFrom (value : Nat) (digits : List Char) : value ≤ digitsFrom value digits := by
  induction digits generalizing value with
  | nil => exact Nat.le_refl _
  | cons c digits ih =>
    rw [digitsFrom_cons]
    exact Nat.le_trans (by omega) (ih _)

private theorem digitsFrom_eq_ofDigitChars (value : Nat) (digits : List Char) :
    digitsFrom value digits = Nat.ofDigitChars 10 digits value := by
  induction digits generalizing value with
  | nil => rfl
  | cons c digits ih =>
    rw [digitsFrom_cons, ih, Nat.ofDigitChars_cons, Nat.mul_comm]
    rfl

/-- A number is read back from its digits. -/
theorem digitsFrom_toString (number : Nat) : digitsFrom 0 (toString number).toList = number := by
  rw [digitsFrom_eq_ofDigitChars, Nat.toString_eq_ofList_toDigits, String.toList_ofList]
  exact Nat.ofDigitChars_ten_toDigits

theorem digitsFrom_replicate_zero (count : Nat) :
    digitsFrom 0 (List.replicate count '0') = 0 := by
  rw [digitsFrom_eq_ofDigitChars, Nat.ofDigitChars_replicate_zero]
  exact Nat.mul_zero _

theorem toString_ne_nil (number : Nat) : (toString number).toList ≠ [] := by
  rw [Nat.toString_eq_ofList_toDigits, String.toList_ofList]
  exact Nat.toDigits_ne_nil

theorem toNat_of_isDigit {c : Char} (h : c.isDigit) : 48 ≤ c.toNat ∧ c.toNat ≤ 57 := by
  unfold Char.isDigit at h
  simp only [ge_iff_le, Bool.and_eq_true, decide_eq_true_eq, UInt32.le_iff_toNat_le] at h
  exact h

theorem digitValue_lt {c : Char} (h : c.isDigit) : digitValue c < 10 := by
  have hmost := (toNat_of_isDigit h).2
  show c.toNat - 48 < 10
  omega

/-- Digits add less than one more to the last digit that was read. -/
private theorem digitsFrom_lt {digits : List Char} {value : Nat} (h : ∀ c ∈ digits, c.isDigit) :
    digitsFrom value digits < (value + 1) * tenTo digits.length := by
  induction digits generalizing value with
  | nil => exact Nat.lt_of_lt_of_eq (Nat.lt_succ_self value) (Nat.mul_one _).symm
  | cons c digits ih =>
    have hc := digitValue_lt (h c List.mem_cons_self)
    have hrest : digitsFrom (value * 10 + digitValue c) digits <
        (value * 10 + digitValue c + 1) * tenTo digits.length :=
      ih fun c hc ↦ h c (List.mem_cons_of_mem _ hc)
    rw [digitsFrom_cons, List.length_cons, tenTo_succ, Nat.mul_comm (tenTo _), ← Nat.mul_assoc]
    exact Nat.lt_of_lt_of_le hrest (Nat.mul_le_mul_right _ (by omega))

/-- No number of several digits starts with a zero. -/
theorem head_toString_ne_zero (number : Nat) :
    ((toString number).toList.head? == some '0' && (toString number).toList.length > 1) =
      false := by
  have hvalue := digitsFrom_toString number
  have hall : ∀ c ∈ (toString number).toList, c.isDigit := fun _ ↦ isDigit_of_mem_toString
  have hlength (count : Nat) (h : 0 < count) :
      (toString number).toList.length ≤ count ↔ number < tenTo count := by
    rw [Nat.toString_eq_ofList_toDigits, String.toList_ofList]
    exact Nat.length_toDigits_le_iff (by decide) h
  rw [Bool.and_eq_false_imp]
  intro hhead
  rw [beq_iff_eq, List.head?_eq_some_iff] at hhead
  obtain ⟨rest, hdigits⟩ := hhead
  rw [hdigits] at hvalue hall hlength ⊢
  rw [decide_eq_false_iff_not, Nat.not_lt, List.length_cons]
  by_contra hmore
  have hsmall : digitsFrom 0 rest < (0 + 1) * tenTo rest.length :=
    digitsFrom_lt fun c hc ↦ hall c (List.mem_cons_of_mem _ hc)
  have hshort := (hlength rest.length (by omega)).2 (by
    rw [← hvalue, digitsFrom_cons]
    simpa [digitValue] using hsmall)
  rw [List.length_cons] at hshort
  omega

/-- No digit is a sign. -/
theorem ne_sign_of_isDigit {c : Char} (h : c.isDigit) : c ≠ '-' ∧ c ≠ '+' := by
  constructor <;> (rintro rfl; revert h; decide)

/-! ## Integers -/

def fitsInt64 (value : Int) : Prop := -(twoTo 63 : Int) ≤ value ∧ value < twoTo 63

/-- The digits of an integer of 64 bits are read to their value. -/
private theorem readInt64_go {negative : Bool} {digits : List Char} {value : Nat}
    (hdigits : ∀ c ∈ digits, c.isDigit)
    (hfits : if negative then digitsFrom value digits ≤ twoTo 63
      else digitsFrom value digits < twoTo 63) :
    readInt64.go negative value digits = .ok (digitsFrom value digits) := by
  induction digits generalizing value with
  | nil => rfl
  | cons c digits ih =>
    have hnext := le_digitsFrom (value * 10 + digitValue c) digits
    have hc : c.isDigit := hdigits c List.mem_cons_self
    rw [digitsFrom_cons] at hfits ⊢
    rw [readInt64.go, hc, ← ih (fun c hc ↦ hdigits c (List.mem_cons_of_mem _ hc)) hfits]
    cases negative with
    | true =>
      have hsmall : ¬ twoTo 63 < value * 10 + digitValue c :=
        Nat.not_lt.2 (Nat.le_trans hnext hfits)
      simp [hsmall]
    | false =>
      have hlarge : ¬ twoTo 63 ≤ value * 10 + digitValue c :=
        Nat.not_le.2 (Nat.lt_of_le_of_lt hnext hfits)
      simp [hlarge]

/-- The digits of a number that fits are read as the number. -/
private theorem readInt64_go_toString (negative : Bool) {number : Nat}
    (h : if negative then number ≤ twoTo 63 else number < twoTo 63) :
    readInt64.go negative 0 (toString number).toList = .ok number := by
  rw [← digitsFrom_toString number] at h
  rw [readInt64_go (fun _ hc ↦ isDigit_of_mem_toString hc) h, digitsFrom_toString]

/-- An integer of 64 bits is read back from its text. -/
theorem readInt64_toString {value : Int} (h : fitsInt64 value) :
    readInt64 (toString value) = .ok value := by
  obtain ⟨hleast, hmost⟩ := h
  cases value with
  | ofNat number =>
    have hgo := readInt64_go_toString false (Int.ofNat_lt.1 hmost)
    change readInt64 (toString number) = .ok (number : Int)
    unfold readInt64
    split
    · rename_i hnil
      exact absurd hnil (toString_ne_nil number)
    · rename_i rest hsign
      have hdigit := isDigit_of_mem_toString (hsign ▸ List.mem_cons_self)
      exact absurd rfl (ne_sign_of_isDigit hdigit).1
    · rename_i rest hsign
      have hdigit := isDigit_of_mem_toString (hsign ▸ List.mem_cons_self)
      exact absurd rfl (ne_sign_of_isDigit hdigit).2
    · rw [hgo]
      rfl
  | negSucc number =>
    have hgo : readInt64.go true 0 (toString (number + 1)).toList = .ok (number + 1) := by
      refine readInt64_go_toString true ?_
      simp only [if_true]
      omega
    have htext : (toString (Int.negSucc number)).toList = '-' :: (toString (number + 1)).toList :=
      String.toList_append
    have hsome : (toString (number + 1)).toList.isEmpty = false :=
      List.isEmpty_eq_false_iff.2 (toString_ne_nil _)
    unfold readInt64
    rw [htext]
    simp only [hsome, hgo]
    rfl

namespace Decimal

/-! ## Decimals -/

/-- Reading the digits in front of the point adds them to the integer. -/
private theorem run_whole {digits : List Char} (rest : List Char) (negative started wide : Bool)
    {mantissa : Nat} (hdigits : ∀ c ∈ digits, c.isDigit)
    (hfits : digitsFrom mantissa digits < mantissaLimit) :
    ∃ wide', Scan.run ⟨negative, started, false, wide, mantissa, 0⟩ (digits ++ rest) =
      Scan.run ⟨negative, started || !digits.isEmpty, false, wide', digitsFrom mantissa digits, 0⟩
        rest := by
  induction digits generalizing started wide mantissa with
  | nil => exact ⟨wide, by simp⟩
  | cons c digits ih =>
    rw [digitsFrom_cons] at hfits
    have hc : c.isDigit := hdigits c List.mem_cons_self
    have hnext : mantissa * 10 + digitValue c < mantissaLimit :=
      Nat.lt_of_le_of_lt (le_digitsFrom _ _) hfits
    obtain ⟨wide', hrun⟩ := ih true
      (wide || (decide (0 < maxScale) && decide (wideLimit ≤ mantissa * 10 + digitValue c)))
      (fun c hc ↦ hdigits c (List.mem_cons_of_mem _ hc)) hfits
    refine ⟨wide', ?_⟩
    rw [List.cons_append, Scan.run]
    simp only [Bool.false_and, Bool.false_eq_true, if_false, hc, if_true, hnext]
    rw [hrun]
    simp

/-- Reading the digits behind the point adds them to the integer and counts them. -/
private theorem run_fraction {digits : List Char} {negative wide : Bool} {mantissa scale : Nat}
    (hdigits : ∀ c ∈ digits, c.isDigit) (hfits : digitsFrom mantissa digits < mantissaLimit)
    (hscale : scale + digits.length ≤ maxScale) :
    Scan.run ⟨negative, true, true, wide, mantissa, scale⟩ digits =
      ofUnsignedZero? negative (digitsFrom mantissa digits) (scale + digits.length) := by
  induction digits generalizing wide mantissa scale with
  | nil => rfl
  | cons c digits ih =>
    rw [digitsFrom_cons] at hfits
    rw [List.length_cons] at hscale
    have hc : c.isDigit := hdigits c List.mem_cons_self
    have hnext : mantissa * 10 + digitValue c < mantissaLimit :=
      Nat.lt_of_le_of_lt (le_digitsFrom _ _) hfits
    have hplaces : ¬maxScale ≤ scale := by omega
    rw [Scan.run]
    simp only [hplaces, hc, hnext, decide_false, Bool.and_false, Bool.false_eq_true, if_false,
      if_true]
    rw [ih (fun c hc ↦ hdigits c (List.mem_cons_of_mem _ hc)) hfits (by omega), List.length_cons,
      digitsFrom_cons, Nat.add_right_comm, Nat.add_assoc]

/-- The digits of a decimal, at least one of them in front of the point. -/
def paddedDigits (x : Decimal) : List Char :=
  List.replicate (x.scale + 1 - (toString x.mantissa).toList.length) '0' ++
    (toString x.mantissa).toList

theorem isDigit_of_mem_paddedDigits {x : Decimal} {c : Char} (h : c ∈ x.paddedDigits) :
    c.isDigit := by
  obtain hzero | hdigit := List.mem_append.1 h
  · rw [List.eq_of_mem_replicate hzero]
    decide
  · exact isDigit_of_mem_toString hdigit

theorem digitsFrom_paddedDigits (x : Decimal) : digitsFrom 0 x.paddedDigits = x.mantissa := by
  unfold paddedDigits
  rw [digitsFrom_append, digitsFrom_replicate_zero, digitsFrom_toString]

theorem scale_lt_length_paddedDigits (x : Decimal) : x.scale < x.paddedDigits.length := by
  unfold paddedDigits
  rw [List.length_append, List.length_replicate]
  omega

/-- The digits of a decimal with its point. -/
def pointed (x : Decimal) : List Char :=
  x.paddedDigits.take (x.paddedDigits.length - x.scale) ++
    if x.scale = 0 then [] else '.' :: x.paddedDigits.drop (x.paddedDigits.length - x.scale)

/-- A decimal starts with a digit. -/
theorem exists_pointed_eq_cons (x : Decimal) :
    ∃ c rest, x.pointed = c :: rest ∧ c.isDigit := by
  have hlength := x.scale_lt_length_paddedDigits
  obtain ⟨c, rest, hpadded⟩ := List.exists_cons_of_length_pos (Nat.zero_lt_of_lt hlength)
  obtain ⟨whole, hwhole⟩ : ∃ whole, x.paddedDigits.length - x.scale = whole + 1 :=
    ⟨x.paddedDigits.length - x.scale - 1, by omega⟩
  have hpointed : x.pointed = c :: (rest.take whole ++
      if x.scale = 0 then [] else '.' :: x.paddedDigits.drop (whole + 1)) := by
    unfold pointed
    rw [hwhole, hpadded, List.take_succ_cons, List.cons_append]
  exact ⟨c, _, hpointed, isDigit_of_mem_paddedDigits (hpadded ▸ List.mem_cons_self)⟩

theorem toList_toText (x : Decimal) :
    x.toText.toList = (if x.negative then ['-'] else []) ++ x.pointed := by
  unfold toText pointed paddedDigits
  dsimp only
  rw [String.toList_append, String.toList_ofList]
  split <;> rfl

/-- The digits of a decimal are read as it, up to the sign of a zero. -/
private theorem run_pointed (x : Decimal) (negative : Bool) :
    Scan.run ⟨negative, false, false, false, 0, 0⟩ x.pointed =
      ofUnsignedZero? negative x.mantissa x.scale := by
  have hlength := x.scale_lt_length_paddedDigits
  have hvalue := x.digitsFrom_paddedDigits
  have hdigits : ∀ c ∈ x.paddedDigits, c.isDigit := fun _ h ↦ isDigit_of_mem_paddedDigits h
  unfold pointed
  generalize hwhole : x.paddedDigits.length - x.scale = whole
  rw [← List.take_append_drop whole x.paddedDigits, digitsFrom_append] at hvalue
  have hfits : digitsFrom 0 (x.paddedDigits.take whole) < mantissaLimit :=
    Nat.lt_of_le_of_lt (le_digitsFrom _ _) (hvalue ▸ x.mantissa_lt)
  have hsome : (x.paddedDigits.take whole).isEmpty = false := by
    rw [List.isEmpty_eq_false_iff, ne_eq, List.take_eq_nil_iff, ← List.length_eq_zero_iff]
    omega
  have hplaces : (x.paddedDigits.drop whole).length = x.scale := by
    rw [List.length_drop]
    omega
  obtain ⟨wide, hrun⟩ := run_whole
    (if x.scale = 0 then [] else '.' :: x.paddedDigits.drop whole) negative false false
    (fun c hc ↦ hdigits c (List.mem_of_mem_take hc)) hfits
  rw [hrun, hsome]
  split
  · rename_i hzero
    rw [List.length_eq_zero_iff.1 (hplaces.trans hzero), digitsFrom_nil] at hvalue
    rw [hvalue, hzero]
    rfl
  · rw [Scan.run]
    simp only [Bool.false_and, Bool.false_eq_true, if_false, if_true,
      show ('.').isDigit = false by decide]
    rw [← hvalue, ← hplaces, ← Nat.zero_add (List.length _)]
    exact run_fraction (fun c hc ↦ hdigits c (List.mem_of_mem_drop hc)) (hvalue ▸ x.mantissa_lt)
      (by rw [hplaces, Nat.zero_add]; exact x.scale_le)

private theorem mem_pointed {x : Decimal} {c : Char} (h : c ∈ x.pointed) :
    c.isDigit ∨ c = '.' := by
  unfold pointed at h
  obtain h | h := List.mem_append.1 h
  · exact .inl (isDigit_of_mem_paddedDigits (List.mem_of_mem_take h))
  · split at h
    · simp at h
    · obtain rfl | h := List.mem_cons.1 h
      · exact .inr rfl
      · exact .inl (isDigit_of_mem_paddedDigits (List.mem_of_mem_drop h))

/-- A decimal is read back from its text, up to the sign of a zero. -/
theorem read_toText (x : Decimal) :
    read x.toText = ofUnsignedZero? x.negative x.mantissa x.scale := by
  have hmark : ∀ c ∈ x.toText.toList, (!(c == 'e' || c == 'E')) = true := by
    intro c hc
    rw [toList_toText] at hc
    have hnumeral : c = '-' ∨ c.isDigit ∨ c = '.' := by
      obtain h | h := List.mem_append.1 hc
      · exact .inl (by split at h <;> simp_all)
      · exact .inr (mem_pointed h)
    obtain rfl | hdigit | rfl := hnumeral
    · decide
    · rw [Bool.not_eq_true', Bool.or_eq_false_iff]
      constructor <;> (rw [beq_eq_false_iff_ne]; rintro rfl; revert hdigit; decide)
    · decide
  unfold read
  dsimp only
  rw [List.takeWhile_eq_self_iff.2 hmark, List.dropWhile_eq_nil_iff.2 hmark, toList_toText]
  dsimp only
  obtain ⟨c, rest, hpointed, hdigit⟩ := x.exists_pointed_eq_cons
  have hrun := x.run_pointed x.negative
  cases hsign : x.negative with
  | true =>
    rw [hsign] at hrun
    exact hrun
  | false =>
    rw [hsign, hpointed] at hrun
    rw [if_neg Bool.false_ne_true, List.nil_append, hpointed, readPlain]
    · exact hrun
    · intro rest' h
      exact (ne_sign_of_isDigit hdigit).1 (List.cons.inj h).1
    · intro rest' h
      exact (ne_sign_of_isDigit hdigit).2 (List.cons.inj h).1

end Decimal
end SqlComposer
