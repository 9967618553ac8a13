/-!
# Blanks and digits

The characters with the Unicode property White_Space, which are removed from the ends of a text, the
digits of decimal numbers, and bytes as two hexadecimal digits each.
-/

namespace SqlComposer

/-! ## Blanks -/

/-- The characters that separate words in any script. -/
def isBlank (c : Char) : Bool :=
  let code := c.toNat
  (0x09 ≤ code && code ≤ 0x0d) || code == 0x20 || code == 0x85 || code == 0xa0 ||
    code == 0x1680 || (0x2000 ≤ code && code ≤ 0x200a) || code == 0x2028 || code == 0x2029 ||
    code == 0x202f || code == 0x205f || code == 0x3000

def dropBlanks (text : List Char) : List Char := text.dropWhile isBlank

/-- A text without the blanks at both ends. -/
def trimBlanks (text : String) : String :=
  String.ofList (dropBlanks (dropBlanks text.toList).reverse).reverse

/-! ## Decimal digits -/

def digitValue (c : Char) : Nat := c.toNat - '0'.toNat

def digitsValue (digits : List Char) : Nat :=
  digits.foldl (fun value c => value * 10 + digitValue c) 0

/-! ## Hexadecimal digits -/

/-- The lower-case hexadecimal digit of a number below sixteen. -/
def hexDigit (n : Nat) : Char :=
  if n < 10 then Char.ofNat ('0'.toNat + n) else Char.ofNat ('a'.toNat + (n - 10))

/-- The value of a hexadecimal digit of either case. -/
def hexValue? (c : Char) : Option Nat :=
  if c.isDigit then some (c.toNat - '0'.toNat)
  else if 'a' ≤ c ∧ c ≤ 'f' then some (c.toNat - 'a'.toNat + 10)
  else if 'A' ≤ c ∧ c ≤ 'F' then some (c.toNat - 'A'.toNat + 10)
  else none

def byteDigits (byte : UInt8) : List Char :=
  [hexDigit (byte.toNat / 16), hexDigit (byte.toNat % 16)]

def hexText (bytes : List UInt8) : String := String.ofList (bytes.flatMap byteDigits)

/-- Reads bytes of two digits each. -/
def readHexPairs : List Char → Option (List UInt8)
  | [] => some []
  | [_] => none
  | high :: low :: rest => do
    let high ← hexValue? high
    let low ← hexValue? low
    return UInt8.ofNat (high * 16 + low) :: (← readHexPairs rest)

/-- The value of a byte of a text that is a hexadecimal digit. -/
def byteValue? (byte : UInt8) : Option Nat := hexValue? (Char.ofUInt8 byte)

/-- The byte written by two bytes of a text: two digits, or a plus sign and one digit. -/
def readSlice (first second : UInt8) : Option UInt8 :=
  if first = '+'.toUInt8 then (byteValue? second).map UInt8.ofNat
  else do return UInt8.ofNat ((← byteValue? first) * 16 + (← byteValue? second))

/-- Reads bytes from two bytes of a text each. A slice that cuts a character holds a byte that is no
digit, so it is not read either. -/
def readSlices : List UInt8 → Option (List UInt8)
  | [] => some []
  | [_] => none
  | first :: second :: rest => do return (← readSlice first second) :: (← readSlices rest)

/-- Reads the hexadecimal form of a byte string: `\x` and the slices of its bytes. -/
def readByteString (text : String) : Option (List UInt8) :=
  match text.toList with
  | '\\' :: 'x' :: rest => readSlices (rest.flatMap String.utf8EncodeChar)
  | _ => none

end SqlComposer
