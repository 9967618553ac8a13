import SqlComposer.Text.Characters

/-!
# Universally unique identifiers

Sixteen bytes, written as lower-case digits in five groups. Reading takes digits of either case,
with all four hyphens or none; the grouped form may stand in braces or behind `urn:uuid:`, whose
letters may be of either case as well.
-/

namespace SqlComposer

/-- A universally unique identifier. -/
structure Uuid where
  bytes : List UInt8
  length_bytes : bytes.length = 16
  deriving DecidableEq, Repr

namespace Uuid

def ofBytes? (bytes : List UInt8) : Option Uuid :=
  if h : bytes.length = 16 then some ⟨bytes, h⟩ else none

/-- The digits in groups of 8, 4, 4, 4 and 12. -/
def toText (uuid : Uuid) : String :=
  "-".intercalate [hexText (uuid.bytes.take 4), hexText ((uuid.bytes.drop 4).take 2),
    hexText ((uuid.bytes.drop 6).take 2), hexText ((uuid.bytes.drop 8).take 2),
    hexText (uuid.bytes.drop 10)]

def readDigits (text : List Char) : Option Uuid := do ofBytes? (← readHexPairs text)

/-- Reads 36 characters with hyphens at the group ends. -/
def readGrouped (text : List Char) : Option Uuid :=
  if text.length = 36 ∧ [8, 13, 18, 23].all fun i => text[i]? == some '-' then
    readDigits (text.take 8 ++ (text.drop 9).take 4 ++ (text.drop 14).take 4 ++
      (text.drop 19).take 4 ++ text.drop 24)
  else none

/-- Reads an identifier in any of its forms; the length of the text tells which. -/
def read (text : String) : Option Uuid :=
  let chars := text.toList
  if chars.length = 32 then readDigits chars
  else if chars.length = 36 then readGrouped chars
  else if chars.length = 38 ∧ chars.head? = some '\x7b' ∧ chars.getLast? = some '\x7d' then
    readGrouped (chars.drop 1).dropLast
  else if chars.length = 45 ∧ (chars.take 9).map Char.toLower = "urn:uuid:".toList then
    readGrouped (chars.drop 9)
  else none

end Uuid
end SqlComposer
