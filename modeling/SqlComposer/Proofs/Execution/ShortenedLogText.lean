import Mathlib.Order.Bounds.Basic
import SqlComposer.Log

/-!
# Shortened texts

A text that does not fit the limit of the log is cut between two of its characters: at the limit, or
up to three bytes in front of it where the limit splits a character. What is left is the longest
start of the text that fits.
-/

namespace SqlComposer

/-- The offsets in bytes, up to a limit, that split no character of a text. -/
def boundaries (text : String) (max : Nat) : Set Nat :=
  {offset | String.Pos.Raw.IsValid text ⟨offset⟩ ∧ offset ≤ max}

/-- A text is the longest start of another that ends between two characters and fits a number of
bytes. -/
structure LongestWithin (max : Nat) (text kept : String) : Prop where
  start : ∃ rest, text = kept ++ rest
  size : IsGreatest (boundaries text max) kept.utf8ByteSize

variable {max : Nat} {text kept : String}

/-! ## Going back byte by byte -/

/-- A byte can be given up at a limit that splits a character. -/
theorem boundaries_succ (split : ¬String.Pos.Raw.IsValid text ⟨max + 1⟩) :
    boundaries text (max + 1) = boundaries text max := by
  ext offset
  constructor
  · rintro ⟨valid, hle⟩
    have hne : offset ≠ max + 1 := by
      rintro rfl
      exact split valid
    exact ⟨valid, by omega⟩
  · rintro ⟨valid, hle⟩
    exact ⟨valid, by omega⟩

theorem isGreatest_posWithin (text : String) (max : Nat) :
    IsGreatest (boundaries text max) (posWithin text max).offset.byteIdx := by
  induction max with
  | zero => exact ⟨⟨text.startPos.isValid, le_rfl⟩, fun _ within ↦ within.2⟩
  | succ max ih =>
    unfold posWithin
    split
    · rename_i valid
      exact ⟨⟨valid, le_rfl⟩, fun _ within ↦ within.2⟩
    · rename_i split
      rwa [boundaries_succ split]

/-! ## The longest start -/

/-- A start ends between two characters. -/
theorem mem_boundaries_of_append {rest : String} (fits : kept.utf8ByteSize ≤ max) :
    kept.utf8ByteSize ∈ boundaries (kept ++ rest) max :=
  ⟨String.Pos.Raw.isValid_iff_exists_append.2 ⟨kept, rest, rfl, rfl⟩, fits⟩

theorem longestWithin_textWithin (max : Nat) (text : String) :
    LongestWithin max text (textWithin max text) := by
  unfold textWithin
  split
  · rename_i fits
    exact ⟨⟨"", by simp⟩, ⟨String.Pos.Raw.isValid_rawEndPos, fits⟩, fun _ within ↦
      within.1.le_utf8ByteSize⟩
  · have hsplits := (posWithin text max).splits
    refine ⟨⟨_, hsplits.eq_append⟩, ?_⟩
    have hsize := congrArg String.Pos.Raw.byteIdx hsplits.offset_eq_rawEndPos
    rw [String.byteIdx_rawEndPos] at hsize
    rw [← hsize]
    exact isGreatest_posWithin text max

/-- Two starts that end at the same offset are the same. -/
theorem LongestWithin.unique {other : String} (longest : LongestWithin max text kept)
    (also : LongestWithin max text other) : kept = other := by
  obtain ⟨rest, hrest⟩ := longest.start
  obtain ⟨others, hothers⟩ := also.start
  have hsize : other.utf8ByteSize = kept.utf8ByteSize := also.size.unique longest.size
  let pos := text.pos ⟨kept.utf8ByteSize⟩ longest.size.1.1
  have hkept : pos.Splits kept rest := ⟨hrest, rfl⟩
  have hother : pos.Splits other others := ⟨hothers, String.Pos.Raw.ext hsize.symm⟩
  exact hkept.eq_left hother

theorem textWithin_eq_iff : textWithin max text = kept ↔ LongestWithin max text kept := by
  constructor
  · rintro rfl
    exact longestWithin_textWithin max text
  · exact (longestWithin_textWithin max text).unique

/-- The first character that is missing would not fit. -/
theorem LongestWithin.lt_next {c : Char} {rest : String}
    (longest : LongestWithin max (kept ++ (String.singleton c ++ rest)) kept) :
    max < kept.utf8ByteSize + c.utf8Size := by
  by_contra hfits
  have hsize : (kept ++ String.singleton c).utf8ByteSize = kept.utf8ByteSize + c.utf8Size := by
    rw [String.utf8ByteSize_append, String.utf8ByteSize_singleton]
  have hmem : (kept ++ String.singleton c).utf8ByteSize ∈
      boundaries (kept ++ String.singleton c ++ rest) max :=
    mem_boundaries_of_append (by omega)
  rw [String.append_assoc] at hmem
  have hle := longest.size.2 hmem
  have hpos := c.utf8Size_pos
  omega

/-- As a character has at most four bytes, three of the limit may be left. -/
theorem LongestWithin.le_add_three (longest : LongestWithin max text kept)
    (long : max < text.utf8ByteSize) : max ≤ kept.utf8ByteSize + 3 := by
  obtain ⟨rest, rfl⟩ := longest.start
  cases hrest : rest.toList with
  | nil =>
    -- Nothing is missing, so that the whole text would fit.
    rw [String.toList_eq_nil_iff] at hrest
    rw [hrest, String.append_empty] at long
    exact absurd longest.size.1.2 (Nat.not_le.2 long)
  | cons c others =>
    have hnext : rest = String.singleton c ++ String.ofList others := by
      rw [← String.ofList_cons, ← hrest, String.ofList_toList]
    rw [hnext] at longest
    have hlt := longest.lt_next
    have hfour := c.utf8Size_le_four
    omega

/-! ## Logged texts -/

namespace LogSettings

/-- Going back byte by byte from any limit ends at the last offset that splits no character. So a
text is cut to its longest start that fits, which is short of the limit by three bytes at most, and
is logged with three dots behind that start, or as it is if it fits or there is no limit. -/
theorem shown_longest (text : String) :
    (∀ max, IsGreatest (boundaries text max) (posWithin text max).offset.byteIdx) ∧
    (∀ max kept, textWithin max text = kept ↔ LongestWithin max text kept) ∧
    (∀ max, max < text.utf8ByteSize → max ≤ (textWithin max text).utf8ByteSize + 3) ∧
    (∀ level, (LogSettings.mk level none).shown text = text) ∧
    ∀ level max,
      (text.utf8ByteSize ≤ max → (LogSettings.mk level (some max)).shown text = text) ∧
      (max < text.utf8ByteSize →
        (LogSettings.mk level (some max)).shown text = textWithin max text ++ "...") := by
  refine ⟨isGreatest_posWithin text, fun max kept ↦ textWithin_eq_iff, fun max ↦
    (longestWithin_textWithin max text).le_add_three, fun level ↦ rfl, fun level max ↦ ⟨?_, ?_⟩⟩
  · intro fits
    exact if_neg (Nat.not_lt.2 fits)
  · intro long
    exact if_pos long

/-- A limit inside of a character of four bytes leaves out the whole character. -/
theorem shown_longest_emoji :
    4 < "a😀".utf8ByteSize ∧ LongestWithin 4 "a😀" "a" ∧
    (LogSettings.mk .debug (some 4)).shown "a😀" = "a..." ∧
    (LogSettings.mk .debug (some 0)).shown "a😀" = "..." ∧
    (LogSettings.mk .debug (some 5)).shown "a😀" = "a😀" := by
  obtain ⟨-, hlongest, -, -, hshown⟩ := shown_longest "a😀"
  have hkept : textWithin 4 "a😀" = "a" := by decide
  have hnone : textWithin 0 "a😀" = "" := by decide
  have hlong : 4 < "a😀".utf8ByteSize := by decide
  refine ⟨hlong, (hlongest 4 "a").1 hkept, ?_, ?_, (hshown .debug 5).1 (by decide)⟩
  · rw [(hshown .debug 4).2 hlong, hkept]
    rfl
  · rw [(hshown .debug 0).2 (by decide), hnone]
    rfl

end LogSettings

end SqlComposer
