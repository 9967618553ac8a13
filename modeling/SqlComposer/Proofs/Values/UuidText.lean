import SqlComposer.Uuid

/-!
# Identifiers in hexadecimal digits

Bytes are read back from their hexadecimal digits, and an identifier from its grouped text.
-/

namespace SqlComposer

theorem hexValue?_hexDigit {n : Nat} (h : n < 16) : hexValue? (hexDigit n) = some n := by
  have hall : ∀ n < 16, hexValue? (hexDigit n) = some n := by decide
  exact hall n h

/-- Bytes are read back from their digits. -/
theorem readHexPairs_byteDigits (bytes : List UInt8) :
    readHexPairs (bytes.flatMap byteDigits) = some bytes := by
  induction bytes with
  | nil => rfl
  | cons byte bytes ih =>
    have hbyte := byte.toNat_lt
    have hpair : UInt8.ofNat (byte.toNat / 16 * 16 + byte.toNat % 16) = byte := by
      rw [Nat.div_add_mod']
      exact UInt8.ofNat_toNat
    rw [List.flatMap_cons]
    unfold byteDigits
    simp only [List.cons_append, List.nil_append]
    rw [readHexPairs, hexValue?_hexDigit (by omega), hexValue?_hexDigit (by omega)]
    unfold byteDigits at ih
    simp only [Option.bind_eq_bind, Option.bind_some, ih, hpair]
    rfl

theorem length_byteDigits (bytes : List UInt8) :
    (bytes.flatMap byteDigits).length = 2 * bytes.length := by
  induction bytes with
  | nil => rfl
  | cons byte bytes ih =>
    rw [List.flatMap_cons, List.length_append, ih, List.length_cons]
    show 2 + _ = _
    omega

namespace Uuid

/-- Five groups of digits with hyphens between them are read as their digits. -/
theorem read_groups {text : String} {a b c d e : List Char} (ha : a.length = 8)
    (hb : b.length = 4) (hc : c.length = 4) (hd : d.length = 4) (he : e.length = 12)
    (htext : text.toList = a ++ '-' :: (b ++ '-' :: (c ++ '-' :: (d ++ '-' :: e)))) :
    read text = readDigits (a ++ (b ++ (c ++ (d ++ e)))) := by
  have hlength : text.toList.length = 36 := by simp [htext, ha, hb, hc, hd, he]
  unfold read readGrouped
  dsimp only
  rw [if_neg (by omega), if_pos hlength, htext, if_pos]
  · simp (disch := omega) [List.drop_append, List.drop_of_length_le, ha, hb, hc, hd]
  · simp [List.getElem?_append, ha, hb, hc, hd, he]

/-- An identifier is read back from its text. -/
theorem read_toText (uuid : Uuid) : read uuid.toText = some uuid := by
  obtain ⟨bytes, hlength⟩ := uuid
  have htext : (toText ⟨bytes, hlength⟩).toList =
      (bytes.take 4).flatMap byteDigits ++ '-' ::
        (((bytes.drop 4).take 2).flatMap byteDigits ++ '-' ::
          (((bytes.drop 6).take 2).flatMap byteDigits ++ '-' ::
            (((bytes.drop 8).take 2).flatMap byteDigits ++ '-' ::
              (bytes.drop 10).flatMap byteDigits))) := by
    unfold toText hexText
    rw [String.toList_intercalate]
    simp [List.intercalate]
  have hbytes : bytes.take 4 ++ ((bytes.drop 4).take 2 ++ ((bytes.drop 6).take 2 ++
      ((bytes.drop 8).take 2 ++ bytes.drop 10))) = bytes := by
    have hpart (start : Nat) :
        (bytes.drop start).take 2 ++ bytes.drop (start + 2) = bytes.drop start := by
      rw [← List.drop_drop, List.take_append_drop]
    rw [hpart 8, hpart 6, hpart 4, List.take_append_drop]
  rw [read_groups _ _ _ _ _ htext]
  · rw [← List.flatMap_append, ← List.flatMap_append, ← List.flatMap_append, ← List.flatMap_append,
      hbytes, readDigits, readHexPairs_byteDigits]
    exact dif_pos hlength
  all_goals
    rw [length_byteDigits]
    simp [hlength]

end Uuid
end SqlComposer
