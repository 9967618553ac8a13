import SqlComposer.Number.Decimal

/-!
# Numbers and text as bytes

Integers of a fixed width stand with the most significant byte first, negative ones in two's
complement, and text in UTF-8. A decimal is a list of groups of four digits with the weight of the
first one, a sign and the number of places behind the point that are meant. Zero groups behind the
point are left out at the end when there is an integer part.
-/

namespace SqlComposer

/-- A value on the wire: bytes, or nothing for null. -/
abbrev WireValue := Option (List UInt8)

/-- The last bytes of a number, most significant first. -/
def bigEndian : Nat → Nat → List UInt8
  | 0, _ => []
  | width + 1, n => bigEndian width (n / 256) ++ [UInt8.ofNat (n % 256)]

def ofBigEndian (bytes : List UInt8) : Nat :=
  bytes.foldl (fun n byte => n * 256 + byte.toNat) 0

def signedBytes (width : Nat) (n : Int) : List UInt8 :=
  bigEndian width (n % (twoTo (8 * width) : Nat)).toNat

def ofSignedBytes (bytes : List UInt8) : Int :=
  let n := ofBigEndian bytes
  let limit := twoTo (8 * bytes.length)
  if 2 * n < limit then n else (n : Int) - limit

/-- Whether an integer fits a number of bytes in two's complement. -/
def fitsSigned (width : Nat) (n : Int) : Bool :=
  let half : Int := twoTo (8 * width) / 2
  decide (-half ≤ n) && decide (n < half)

def textBytes (text : String) : List UInt8 := text.toList.flatMap String.utf8EncodeChar

def ofTextBytes? (bytes : List UInt8) : Option String := String.fromUTF8? ⟨bytes.toArray⟩

/-! ## Decimals -/

/-- A decimal in groups of four digits; the first group counts `10000 ^ weight`. -/
structure NumericGroups where
  groups : List Nat
  weight : Int
  negative : Bool
  scale : Nat
  deriving DecidableEq, Repr

namespace NumericGroups

/-- The last groups of a number. -/
def lastGroups : Nat → Nat → List Nat
  | 0, _ => []
  | count + 1, n => lastGroups count (n / 10000) ++ [n % 10000]

/-- The number of groups that hold every decimal. -/
def maxGroups : Nat := 8

/-- The groups of a number, without zeros at the start. -/
def groupsOf (n : Nat) : List Nat := (lastGroups maxGroups n).dropWhile (· == 0)

def dropFinalZeros (groups : List Nat) : List Nat :=
  (groups.reverse.dropWhile (· == 0)).reverse

def ofDecimal (x : Decimal) : NumericGroups :=
  if x.isZero then ⟨[], 0, false, 0⟩
  else
    let fraction := (x.scale + 3) / 4
    let groups := groupsOf (x.mantissa * tenTo (4 * fraction - x.scale))
    let whole := groups.length - fraction
    let kept :=
      if 0 < whole then groups.take whole ++ dropFinalZeros (groups.drop whole) else groups
    ⟨kept, (groups.length : Int) - fraction - 1, x.negative, x.scale⟩

/-! ## Reading -/

/-- The integer in front of the point: groups that are not sent are zero. -/
def wholePart (groups : List Nat) (count : Nat) : Nat :=
  (groups.take count).foldl (fun n group => n * 10000 + group) 0 *
    tenTo (4 * (count - groups.length))

/-- A group `places` behind the point as a number without final zeros. A group behind the last place
counts only by its rounding. -/
def fractionGroup (group places : Nat) : Nat × Nat :=
  if places ≤ maxScale then Decimal.dropZeros places (group, places)
  else if places = maxScale + 4 ∧ group ≥ 5000 then (1, maxScale)
  else (0, 0)

/-- Adds the groups behind the point to a number, the first of them at a place. -/
def addFraction (sum : Nat × Nat) (place : Nat) : List Nat → Option (Nat × Nat)
  | [] => some sum
  | group :: rest => do
    addFraction (← Decimal.sum? sum (fractionGroup group place)) (place + 4) rest

/-- The decimal of groups, rounded to the places that are meant. Groups that are not sent stand for
at most 28 zeros in front of the point. -/
def toDecimal? (numeric : NumericGroups) : Option Decimal := do
  let count := (numeric.weight + 1).toNat
  if maxScale < 4 * (count - numeric.groups.length) then failure
  let whole := wholePart numeric.groups count
  if mantissaLimit ≤ whole then failure
  let place := 4 * ((-numeric.weight - 1).toNat + 1)
  let (mantissa, scale) ← addFraction (whole, 0) place (numeric.groups.drop count)
  let (mantissa, scale) := Decimal.rescaled mantissa scale (min numeric.scale maxScale)
  Decimal.ofParts? numeric.negative mantissa scale

/-! ## Bytes -/

def signBytes (negative : Bool) : List UInt8 := if negative then [0x40, 0] else [0, 0]

/-- The bytes of groups: their number, the weight, the sign, the scale, and each group. -/
def toBytes (numeric : NumericGroups) : List UInt8 :=
  bigEndian 2 numeric.groups.length ++ signedBytes 2 numeric.weight ++
    signBytes numeric.negative ++ bigEndian 2 numeric.scale ++
    numeric.groups.flatMap (bigEndian 2)

def readGroups : Nat → List UInt8 → Option (List Nat)
  | 0, _ => some []
  | count + 1, high :: low :: rest => do
    return ofBigEndian [high, low] :: (← readGroups count rest)
  | _ + 1, _ => none

/-- Reads groups from bytes. Signs from `0xc000` on belong to values that are no numbers, and every
other one but `0x4000` means a number that is not negative. -/
def ofBytes? (bytes : List UInt8) : Option NumericGroups := do
  let header := bytes.take 8
  if header.length < 8 then failure
  let sign := (header.drop 4).take 2
  if 0xc000 ≤ ofBigEndian sign then failure
  let groups ← readGroups (ofBigEndian (header.take 2)) (bytes.drop 8)
  return ⟨groups, ofSignedBytes ((header.drop 2).take 2), sign = signBytes true,
    ofBigEndian (header.drop 6)⟩

end NumericGroups
end SqlComposer
