import SqlComposer.Proofs.Values.UuidText
import SqlComposer.Proofs.Wire.LiteralRoundTrip

/-!
# Byte strings in hexadecimal form

A byte string arrives as `\x` and two hexadecimal digits for each byte. The text behind the mark is
cut into slices of two bytes, whether or not they end where a character does, and each slice is read
as a number. A number may have a plus sign, so that one form too many is read: a sign and a single
digit. Apart from it exactly the hexadecimal forms are read.
-/

namespace SqlComposer

/-! ## The form -/

/-- A character is the hexadecimal digit of a value, in either case. -/
def DigitOf (value : Nat) (c : Char) : Prop :=
  "0123456789abcdef".toList[value]? = some c ∨ "0123456789ABCDEF".toList[value]? = some c

instance (value : Nat) (c : Char) : Decidable (DigitOf value c) :=
  inferInstanceAs (Decidable (_ ∨ _))

/-- Characters are the digits of bytes, two for each with the high one in front. -/
inductive DigitsOf : List UInt8 → List Char → Prop where
  | nil : DigitsOf [] []
  | cons {byte : UInt8} {bytes : List UInt8} {high low : Char} {digits : List Char}
    (first : DigitOf (byte.toNat / 16) high) (second : DigitOf (byte.toNat % 16) low)
    (rest : DigitsOf bytes digits) : DigitsOf (byte :: bytes) (high :: low :: digits)

/-- The text is the hexadecimal form of bytes. -/
def HexForm (bytes : List UInt8) (text : String) : Prop :=
  ∃ digits, text.toList = '\\' :: 'x' :: digits ∧ DigitsOf bytes digits

/-- Characters taken two by two, with a zero in place of each plus sign that comes first. -/
def unsigned : List Char → List Char
  | first :: second :: rest => (if first = '+' then '0' else first) :: second :: unsigned rest
  | rest => rest

/-- The text is the hexadecimal form of bytes, or would be with a zero for some plus signs. -/
def SignedForm (bytes : List UInt8) (text : String) : Prop :=
  ∃ digits, text.toList = '\\' :: 'x' :: digits ∧ DigitsOf bytes (unsigned digits)

variable {c : Char} {value : Nat} {bytes : List UInt8} {digits : List Char} {text : String}

theorem DigitsOf.length (spelled : DigitsOf bytes digits) : digits.length = 2 * bytes.length := by
  induction spelled with
  | nil => rfl
  | cons _ _ _ ih =>
    simp only [List.length_cons, ih]
    omega

/-! ## Single digits -/

theorem lt_of_digitOf (digit : DigitOf value c) : value < 16 := by
  rcases digit with h | h <;> exact (List.getElem?_eq_some_iff.1 h).1

theorem ascii_of_hexValue? (read : hexValue? c = some value) : c.toNat < 128 := by
  unfold hexValue? at read
  split at read
  · rename_i hdigit
    simp only [Char.isDigit, Bool.and_eq_true, decide_eq_true_eq, UInt32.le_iff_toNat_le] at hdigit
    have hlast : c.toNat ≤ 57 := hdigit.2
    omega
  · split at read
    · rename_i hlower
      have hlast : c.toNat ≤ 102 := hlower.2
      omega
    · split at read
      · rename_i hupper
        have hlast : c.toNat ≤ 70 := hupper.2
        omega
      · cases read

theorem hexValue?_eq_some_iff : hexValue? c = some value ↔ DigitOf value c := by
  constructor
  · intro read
    have hall : ∀ n < 128, ∀ value ∈ hexValue? (Char.ofNat n), DigitOf value (Char.ofNat n) := by
      decide +kernel
    have hc := hall c.toNat (ascii_of_hexValue? read)
    rw [Char.ofNat_toNat] at hc
    exact hc value read
  · intro digit
    have hlower : ∀ pair ∈ "0123456789abcdef".toList.zipIdx, hexValue? pair.1 = some pair.2 := by
      decide
    have hupper : ∀ pair ∈ "0123456789ABCDEF".toList.zipIdx, hexValue? pair.1 = some pair.2 := by
      decide
    exact digit.elim (fun h ↦ hlower (c, value) (List.mem_zipIdx_iff_getElem?.2 h))
      fun h ↦ hupper (c, value) (List.mem_zipIdx_iff_getElem?.2 h)

theorem not_digitOf_plus : ¬DigitOf value '+' := by
  rw [← hexValue?_eq_some_iff, show hexValue? '+' = none by decide]
  simp

/-- The digits of a byte are those of its halves. -/
theorem ofNat_eq_iff {high low : Nat} {byte : UInt8} (hhigh : high < 16) (hlow : low < 16) :
    UInt8.ofNat (high * 16 + low) = byte ↔ high = byte.toNat / 16 ∧ low = byte.toNat % 16 := by
  rw [← UInt8.toNat_inj, UInt8.toNat_ofNat', Nat.mod_eq_of_lt (by omega)]
  omega

theorem readHexPairs_eq_some_iff : readHexPairs digits = some bytes ↔ DigitsOf bytes digits := by
  induction digits using readHexPairs.induct generalizing bytes with
  | case1 =>
    constructor
    · rintro ⟨⟩
      exact .nil
    · rintro ⟨⟩
      rfl
  | case2 => exact ⟨fun h ↦ (nomatch h), fun h ↦ (nomatch h)⟩
  | case3 first second rest ih =>
    simp only [readHexPairs, Option.bind_eq_bind, Option.bind_eq_some_iff, hexValue?_eq_some_iff,
      ih, Option.pure_def, Option.some.injEq]
    constructor
    · rintro ⟨high, hhigh, low, hlow, others, hothers, rfl⟩
      have hhalves := (ofNat_eq_iff (lt_of_digitOf hhigh) (lt_of_digitOf hlow)).1 rfl
      exact .cons (hhalves.1 ▸ hhigh) (hhalves.2 ▸ hlow) hothers
    · rintro (_ | ⟨hhigh, hlow, hothers⟩)
      refine ⟨_, hhigh, _, hlow, _, hothers, ?_⟩
      rw [(ofNat_eq_iff (lt_of_digitOf hhigh) (lt_of_digitOf hlow)).2 ⟨rfl, rfl⟩]

/-! ## Slices -/

theorem utf8EncodeChar_ascii (ascii : c.toNat < 128) :
    String.utf8EncodeChar c = [UInt8.ofNat c.toNat] := by
  have hval : c.val.toNat ≤ 127 := Nat.le_of_lt_succ ascii
  simp only [String.utf8EncodeChar, hval, if_true]
  rfl

/-- The first byte of any other character is none of ASCII. -/
theorem utf8EncodeChar_other (other : ¬c.toNat < 128) :
    ∃ first rest, String.utf8EncodeChar c = first :: rest ∧ 128 ≤ first.toNat := by
  obtain ⟨first, rest, hencoded, hfirst, -⟩ := Wire.exists_utf8EncodeChar_eq_cons c
  exact ⟨first, rest, hencoded, by omega⟩

theorem toNat_ofUInt8 (byte : UInt8) : (Char.ofUInt8 byte).toNat = byte.toNat :=
  UInt8.toNat_toUInt32 byte

theorem byteValue?_ascii (ascii : c.toNat < 128) :
    byteValue? (UInt8.ofNat c.toNat) = hexValue? c := by
  have hc : Char.ofUInt8 (UInt8.ofNat c.toNat) = c := by
    apply Char.toNat_inj.1
    rw [toNat_ofUInt8, UInt8.toNat_ofNat', Nat.mod_eq_of_lt (by omega)]
  rw [byteValue?, hc]

theorem byteValue?_other {byte : UInt8} (other : 128 ≤ byte.toNat) : byteValue? byte = none := by
  rw [Option.eq_none_iff_forall_ne_some]
  intro value read
  have := ascii_of_hexValue? read
  rw [toNat_ofUInt8] at this
  omega

/-- A byte is read from two digits, the first of which may be a plus sign. -/
theorem readSlice_ascii {first second : Char} (hfirst : first.toNat < 128)
    (hsecond : second.toNat < 128) :
    readSlice (UInt8.ofNat first.toNat) (UInt8.ofNat second.toNat) =
      (hexValue? (if first = '+' then '0' else first)).bind fun high ↦
        (hexValue? second).map fun low ↦ UInt8.ofNat (high * 16 + low) := by
  have hplus : UInt8.ofNat first.toNat = '+'.toUInt8 ↔ first = '+' := by
    rw [← UInt8.toNat_inj, UInt8.toNat_ofNat', Nat.mod_eq_of_lt (by omega), ← Char.toNat_inj]
    rfl
  unfold readSlice
  rw [byteValue?_ascii hfirst, byteValue?_ascii hsecond]
  by_cases hsign : first = '+'
  · rw [if_pos (hplus.2 hsign), if_pos hsign, show hexValue? '0' = some 0 by decide,
      Option.bind_some]
    simp
  · rw [if_neg (mt hplus.1 hsign), if_neg hsign]
    cases hexValue? first <;> cases hexValue? second <;> rfl

/-- No slice is read that begins with another character than those of ASCII. -/
theorem readSlices_other (other : ¬c.toNat < 128) (behind : List UInt8) :
    readSlices (String.utf8EncodeChar c ++ behind) = none := by
  obtain ⟨byte, rest, hencoded, hbyte⟩ := utf8EncodeChar_other other
  have hsign : byte ≠ '+'.toUInt8 := by
    rintro rfl
    exact absurd hbyte (by decide)
  rw [hencoded, List.cons_append]
  cases rest ++ behind with
  | nil => rfl
  | cons next others => simp [readSlices, readSlice, hsign, byteValue?_other hbyte]

/-- Slices are read as the pairs of characters they are. One that holds a byte of any other
character than those of ASCII is not read. -/
theorem readSlices_encoded (digits : List Char) :
    readSlices (digits.flatMap String.utf8EncodeChar) = readHexPairs (unsigned digits) := by
  have hother {c : Char} (other : ¬c.toNat < 128) : hexValue? c = none :=
    Option.eq_none_iff_forall_ne_some.2 fun _ read ↦ other (ascii_of_hexValue? read)
  induction digits using unsigned.induct with
  | case1 first second rest ih =>
    rw [unsigned, readHexPairs, List.flatMap_cons, List.flatMap_cons]
    by_cases hfirst : first.toNat < 128
    · rw [utf8EncodeChar_ascii hfirst]
      by_cases hsecond : second.toNat < 128
      · rw [utf8EncodeChar_ascii hsecond, List.singleton_append, List.singleton_append, readSlices,
          readSlice_ascii hfirst hsecond, ih]
        cases hexValue? (if first = '+' then '0' else first) <;> cases hexValue? second <;> rfl
      · -- The slice is cut inside of the second character.
        obtain ⟨byte, others, hencoded, hbyte⟩ := utf8EncodeChar_other hsecond
        rw [hencoded, List.singleton_append, List.cons_append, readSlices, readSlice,
          byteValue?_other hbyte, hother hsecond]
        cases byteValue? (UInt8.ofNat first.toNat) <;>
          cases hexValue? (if first = '+' then '0' else first) <;> simp
    · have hplus : first ≠ '+' := by
        rintro rfl
        exact hfirst (by decide)
      rw [readSlices_other hfirst, if_neg hplus, hother hfirst]
      rfl
  | case2 rest short =>
    cases rest with
    | nil => rfl
    | cons first rest =>
      cases rest with
      | cons second rest => exact absurd rfl (short first second rest)
      | nil =>
        by_cases hfirst : first.toNat < 128
        · rw [List.flatMap_singleton, utf8EncodeChar_ascii hfirst]
          rfl
        · rw [List.flatMap_cons, readSlices_other hfirst]
          rfl

theorem readByteString_eq_some_iff : readByteString text = some bytes ↔ SignedForm bytes text := by
  unfold readByteString SignedForm
  split
  · rename_i rest htext
    rw [readSlices_encoded, readHexPairs_eq_some_iff, htext]
    simp
  · rename_i hmark
    exact ⟨fun h ↦ (nomatch h), fun ⟨digits, htext, _⟩ ↦ absurd htext (hmark digits)⟩

/-! ## Signs -/

theorem unsigned_of_not_mem (plain : '+' ∉ digits) : unsigned digits = digits := by
  induction digits using unsigned.induct with
  | case1 first second rest ih =>
    simp only [List.mem_cons, not_or] at plain
    rw [unsigned, if_neg (Ne.symm plain.1), ih plain.2.2]
  | case2 rest short =>
    rw [unsigned]
    exact short

theorem DigitsOf.plus_not_mem (spelled : DigitsOf bytes digits) : '+' ∉ digits := by
  induction spelled with
  | nil => exact List.not_mem_nil
  | cons first second _ ih =>
    simp only [List.mem_cons, not_or]
    exact ⟨fun h ↦ not_digitOf_plus (h ▸ first), fun h ↦ not_digitOf_plus (h ▸ second), ih⟩

/-- A form with signs is a hexadecimal form just if there are none. -/
theorem hexForm_iff : HexForm bytes text ↔ SignedForm bytes text ∧ '+' ∉ text.toList := by
  have hmark {digits : List Char} : '+' ∉ '\\' :: 'x' :: digits ↔ '+' ∉ digits := by simp
  constructor
  · rintro ⟨digits, htext, spelled⟩
    have plain := spelled.plus_not_mem
    refine ⟨⟨digits, htext, ?_⟩, by rwa [htext, hmark]⟩
    rwa [unsigned_of_not_mem plain]
  · rintro ⟨⟨digits, htext, spelled⟩, plain⟩
    rw [htext, hmark] at plain
    rw [unsigned_of_not_mem plain] at spelled
    exact ⟨digits, htext, spelled⟩

theorem HexForm.length (form : HexForm bytes text) : text.length = 2 + 2 * bytes.length := by
  obtain ⟨digits, htext, spelled⟩ := form
  rw [← String.length_toList, htext, List.length_cons, List.length_cons, spelled.length]
  omega

theorem hexForm_hexText (bytes : List UInt8) : HexForm bytes ("\\x" ++ hexText bytes) :=
  ⟨bytes.flatMap byteDigits, by simp [hexText],
    readHexPairs_eq_some_iff.1 (readHexPairs_byteDigits bytes)⟩

namespace ColumnType

/-- The text is read as the bytes whose hexadecimal form it is, and refused if it is the form of
none, with the column named. -/
def ReadsForm (column text : String) : Prop :=
  (∀ value, bytea.decode column text = .ok value ↔
    ∃ bytes, value = .bytes bytes ∧ HexForm bytes text) ∧
  ((∀ bytes, ¬HexForm bytes text) →
    bytea.decode column text = .error (.decode column "invalid bytea hex literal"))

/-- What is read of a text in a column of byte strings are the bytes whose hexadecimal form it is
once each plus sign in front of a single digit is a zero; every other text is refused. So just the
hexadecimal forms are read, unless such a sign makes a text readable, and what is written in
lower-case digits is read back. -/
theorem decode_hexForm (column text : String) :
    (∀ value, bytea.decode column text = .ok value ↔
      ∃ bytes, value = .bytes bytes ∧ SignedForm bytes text) ∧
    ((∀ bytes, ¬SignedForm bytes text) →
      bytea.decode column text = .error (.decode column "invalid bytea hex literal")) ∧
    (ReadsForm column text ↔ ('+' ∈ text.toList → ∀ bytes, ¬SignedForm bytes text)) ∧
    (∀ bytes, HexForm bytes text → text.length = 2 + 2 * bytes.length) ∧
    ∀ bytes, bytea.decode column ("\\x" ++ hexText bytes) = .ok (.bytes bytes) := by
  have hok (text : String) (value : Literal) : bytea.decode column text = .ok value ↔
      ∃ bytes, value = .bytes bytes ∧ SignedForm bytes text := by
    simp only [decode, decoded, ← readByteString_eq_some_iff]
    cases readByteString text <;> simp [eq_comm]
  have herror (refused : ∀ bytes, ¬SignedForm bytes text) :
      bytea.decode column text = .error (.decode column "invalid bytea hex literal") := by
    simp only [← readByteString_eq_some_iff, ← Option.eq_none_iff_forall_ne_some] at refused
    simp only [decode, decoded, refused]
  refine ⟨hok text, herror, ?_, fun bytes form ↦ form.length, fun bytes ↦ (hok _ _).2 ?_⟩
  · constructor
    · intro reads signed bytes form
      obtain ⟨_, _, exact⟩ := (reads.1 (.bytes bytes)).1 ((hok text _).2 ⟨bytes, rfl, form⟩)
      exact (hexForm_iff.1 exact).2 signed
    · intro plain
      have hform (bytes : List UInt8) : SignedForm bytes text ↔ HexForm bytes text :=
        ⟨fun form ↦ hexForm_iff.2 ⟨form, fun signed ↦ plain signed bytes form⟩,
          fun form ↦ (hexForm_iff.1 form).1⟩
      simp only [hform] at herror
      exact ⟨fun value ↦ by simp only [hok, hform], herror⟩
  · exact ⟨bytes, rfl, (hexForm_iff.1 (hexForm_hexText bytes)).1⟩

/-- Digits of either case are read, but not a character of two bytes, although it fills a slice. -/
theorem decode_hexForm_mixed :
    bytea.decode "payload" "\\x0aAb" = .ok (.bytes [10, 171]) ∧
    bytea.decode "payload" "\\xé" =
      .error (.decode "payload" "invalid bytea hex literal") := by
  have hread : readByteString "\\x0aAb" = some [10, 171] := by decide +kernel
  have hrefused : readByteString "\\xé" = none := by decide +kernel
  refine ⟨((decode_hexForm "payload" _).1 _).2 ⟨_, rfl, readByteString_eq_some_iff.1 hread⟩,
    (decode_hexForm "payload" _).2.1 fun bytes form ↦ ?_⟩
  rw [← readByteString_eq_some_iff, hrefused] at form
  cases form

/-- A plus sign in front of a single digit is read as if it were a zero. -/
theorem decode_plus : bytea.decode "payload" "\\x+f" = .ok (.bytes [15]) ∧
    ¬ReadsForm "payload" "\\x+f" := by
  have hread : readByteString "\\x+f" = some [15] := by decide +kernel
  have hdecoded : bytea.decode "payload" "\\x+f" = .ok (.bytes [15]) := by
    simp only [decode, decoded, hread]
  refine ⟨hdecoded, fun reads ↦ ?_⟩
  obtain ⟨_, _, form⟩ := (reads.1 _).1 hdecoded
  exact (hexForm_iff.1 form).2 (by decide)

end ColumnType
end SqlComposer
