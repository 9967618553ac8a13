import SqlComposer.Wire.Decoding

/-!
# Bytes that read back

A number of a fixed width and a text are read back from their bytes. A reader for one width refuses
the bytes of every other, which is what keeps most types apart on the wire.
-/

namespace SqlComposer

/-! ## Numbers -/

@[simp]
theorem length_bigEndian (width n : Nat) : (bigEndian width n).length = width := by
  induction width generalizing n with
  | zero => rfl
  | succ width ih => rw [bigEndian, List.length_append, ih]; rfl

@[simp]
theorem length_signedBytes (width : Nat) (n : Int) : (signedBytes width n).length = width :=
  length_bigEndian _ _

theorem ofBigEndian_append_singleton (bytes : List UInt8) (byte : UInt8) :
    ofBigEndian (bytes ++ [byte]) = ofBigEndian bytes * 256 + byte.toNat := by
  simp [ofBigEndian, List.foldl_append]

/-- What is read back from the last bytes of a number is the number up to what they cannot hold. -/
theorem ofBigEndian_bigEndian (width n : Nat) :
    ofBigEndian (bigEndian width n) = n % twoTo (8 * width) := by
  induction width generalizing n with
  | zero => exact (Nat.mod_one n).symm
  | succ width ih =>
    have hbyte : (UInt8.ofNat (n % 256)).toNat = n % 256 := by simp
    have hlimit : twoTo (8 * (width + 1)) = 256 * twoTo (8 * width) := by
      unfold twoTo
      rw [show 8 * (width + 1) = 8 + 8 * width by omega]
      exact Nat.pow_add 2 8 (8 * width)
    rw [bigEndian, ofBigEndian_append_singleton, ih, hbyte, hlimit, Nat.mod_mul, Nat.add_comm,
      Nat.mul_comm]

theorem ofBigEndian_bigEndian_of_lt {width n : Nat} (h : n < twoTo (8 * width)) :
    ofBigEndian (bigEndian width n) = n := by
  rw [ofBigEndian_bigEndian, Nat.mod_eq_of_lt h]

theorem fitsSigned_iff {width : Nat} {n : Int} :
    fitsSigned width n ↔
      -((twoTo (8 * width) : Int) / 2) ≤ n ∧ n < (twoTo (8 * width) : Int) / 2 := by
  simp [fitsSigned]

/-- An integer that fits is read back from its bytes. -/
theorem ofSignedBytes_signedBytes {width : Nat} {n : Int} (h : fitsSigned width n) :
    ofSignedBytes (signedBytes width n) = n := by
  rw [fitsSigned_iff] at h
  have hpos : 0 < (twoTo (8 * width) : Int) := by exact_mod_cast twoTo_pos _
  have hlt := Int.emod_lt_of_pos n hpos
  have hnonneg := Int.emod_nonneg n (Int.ne_of_gt hpos)
  have hread : ofBigEndian (signedBytes width n) = (n % (twoTo (8 * width) : Nat)).toNat :=
    ofBigEndian_bigEndian_of_lt (by omega)
  unfold ofSignedBytes
  simp only [hread, length_signedBytes]
  -- Below half of the range the remainder is the integer, above it what is missing to zero.
  by_cases hsign : 0 ≤ n
  · have hmod : n % (twoTo (8 * width) : Nat) = n := Int.emod_eq_of_lt hsign (by omega)
    rw [if_pos (by omega)]
    omega
  · have hmod : n % (twoTo (8 * width) : Nat) = n + (twoTo (8 * width) : Nat) := by
      rw [← Int.add_emod_right, Int.emod_eq_of_lt] <;> omega
    rw [if_neg (by omega)]
    omega

/-! ## Texts -/

private theorem byteArray_textBytes (text : String) :
    (⟨(textBytes text).toArray⟩ : ByteArray) = text.toByteArray := by
  rw [← String.utf8Encode_toList]
  exact ByteArray.ext List.data_toByteArray.symm

/-- The text that is read from bytes is the one they are the bytes of. -/
theorem ofTextBytes?_eq_some_iff {bytes : List UInt8} {text : String} :
    ofTextBytes? bytes = some text ↔ bytes = textBytes text := by
  unfold ofTextBytes? String.fromUTF8?
  constructor
  · intro h
    rw [Option.dite_none_right_eq_some] at h
    obtain ⟨_, htext⟩ := h
    have harray : (⟨bytes.toArray⟩ : ByteArray) = ⟨(textBytes text).toArray⟩ := by
      rw [byteArray_textBytes, ← Option.some.inj htext]
      rfl
    simpa using harray
  · rintro rfl
    simp only [byteArray_textBytes]
    rw [dif_pos text.isValidUTF8]
    rfl

/-- A text is read back from its bytes. -/
@[simp]
theorem ofTextBytes?_textBytes (text : String) : ofTextBytes? (textBytes text) = some text :=
  ofTextBytes?_eq_some_iff.2 rfl

/-! ## Widths -/

namespace Wire

theorem exactly?_of_length {width : Nat} {bytes : List UInt8} (h : bytes.length = width) :
    exactly? width bytes = some bytes := if_pos h

theorem exactly?_of_length_ne {width : Nat} {bytes : List UInt8} (h : bytes.length ≠ width) :
    exactly? width bytes = none := if_neg h

end Wire
end SqlComposer
