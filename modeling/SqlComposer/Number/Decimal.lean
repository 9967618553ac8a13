import SqlComposer.Number.Double
import SqlComposer.Text.Characters

/-!
# Exact decimals

A decimal is a 96-bit integer with the decimal point moved left by at most 28 places. Trailing
zeros are part of it, so `1.50` and `1.5` are different decimals with the same value. Reading
rounds what does not fit; converting a double keeps about as many digits as the double is accurate
to.
-/

namespace SqlComposer

def mantissaLimit : Nat := twoTo 96

def maxScale : Nat := 28

/-- The number `mantissa / 10 ^ scale` with a sign. -/
structure Decimal where
  negative : Bool
  mantissa : Nat
  scale : Nat
  mantissa_lt : mantissa < mantissaLimit
  scale_le : scale ≤ maxScale
  deriving DecidableEq, Repr

namespace Decimal

def ofParts? (negative : Bool) (mantissa scale : Nat) : Option Decimal :=
  if h : mantissa < mantissaLimit ∧ scale ≤ maxScale then
    some ⟨negative, mantissa, scale, h.1, h.2⟩
  else none

/-- The decimal with the given parts, if they fit; zero has no sign. -/
def ofUnsignedZero? (negative : Bool) (mantissa scale : Nat) : Option Decimal :=
  ofParts? (negative && mantissa != 0) mantissa scale

def isZero (x : Decimal) : Bool := x.mantissa == 0

/-! ## Text -/

/-- The digits with the point at its place and at least one digit in front of it. -/
def toText (x : Decimal) : String :=
  let digits := (toString x.mantissa).toList
  let padded := List.replicate (x.scale + 1 - digits.length) '0' ++ digits
  let whole := padded.length - x.scale
  let body := padded.take whole ++ if x.scale = 0 then [] else '.' :: padded.drop whole
  (if x.negative then "-" else "") ++ String.ofList body

/-- From here on one more digit might lead out of 64 bits. -/
def wideLimit : Nat := (twoTo 64 - 1) / 10 - 255

structure Scan where
  negative : Bool
  started : Bool
  fractional : Bool
  /-- Whether the integer has outgrown 64 bits, by the estimate of `wideLimit`. -/
  wide : Bool
  mantissa : Nat
  scale : Nat

/-- The decimal read so far; at least one digit is needed. -/
def Scan.finish (scan : Scan) : Option Decimal :=
  if scan.started then ofUnsignedZero? scan.negative scan.mantissa scan.scale else none

/-- Ends the reading at a digit that does not fit any more: from five on it rounds up. What follows
it has no part in the number but has to be digits and underscores. -/
def Scan.round (scan : Scan) (digit : Nat) (rest : List Char) : Option Decimal :=
  let mantissa := if digit ≥ 5 then scan.mantissa + 1 else scan.mantissa
  if !rest.all fun c => c.isDigit || c == '_' then none
  else if mantissa < mantissaLimit then ofUnsignedZero? scan.negative mantissa scan.scale
  else if scan.scale = 0 then none
  else ofUnsignedZero? scan.negative ((mantissa + 4) / 10) (scan.scale - 1)

/-- Ends the reading behind the last place. The digit there decides the rounding, and underscores in
front of it are skipped once the integer is wide; otherwise they count for it as a zero does. -/
def Scan.roundAt (scan : Scan) (c : Char) (rest : List Char) : Option Decimal :=
  if c.isDigit then scan.round (digitValue c) rest
  else if c = '_' ∧ scan.wide then
    match rest.dropWhile (· == '_') with
    | [] => scan.finish
    | d :: rest => if d.isDigit then scan.round (digitValue d) rest else none
  else if c = '_' then scan.round 0 rest
  else none

/-- Reads on. Underscores may stand behind the first digit. Once 28 places or 96 bits are filled,
the next digit only decides the rounding. -/
def Scan.run (scan : Scan) : List Char → Option Decimal
  | [] => scan.finish
  | c :: rest =>
    if scan.fractional && maxScale ≤ scan.scale then scan.roundAt c rest
    else if c.isDigit then
      let next := scan.mantissa * 10 + digitValue c
      if next < mantissaLimit then
        let scale := if scan.fractional then scan.scale + 1 else 0
        let wide := scan.wide || (decide (scale < maxScale) && decide (wideLimit ≤ next))
        Scan.run { scan with started := true, wide, mantissa := next, scale } rest
      else if scan.fractional then scan.round (digitValue c) rest
      else none
    else if c = '.' then
      if scan.fractional then none else Scan.run { scan with fractional := true } rest
    else if c = '_' then
      if scan.started then Scan.run scan rest else none
    else none

def readPlain (text : List Char) : Option Decimal :=
  match text with
  | '-' :: rest => Scan.run ⟨true, false, false, false, 0, 0⟩ rest
  | '+' :: rest => Scan.run ⟨false, false, false, false, 0, 0⟩ rest
  | rest => Scan.run ⟨false, false, false, false, 0, 0⟩ rest

/-! ## Rounding -/

/-- Divides by ten, a rest of five or more rounding up. -/
def tenthRounded (n : Nat) : Nat := n / 10 + if n % 10 ≥ 5 then 1 else 0

/-- Removes up to `places` places from the fraction, rounding at the last one removed. -/
def shorten : Nat → Nat → Nat
  | 0, mantissa => mantissa
  | 1, mantissa => tenthRounded mantissa
  | places + 2, mantissa => shorten (places + 1) (mantissa / 10)

/-- Adds up to `places` zeros, as long as they fit. -/
def lengthen : Nat → Nat × Nat → Nat × Nat
  | 0, parts => parts
  | places + 1, (mantissa, scale) =>
    if mantissa * 10 < mantissaLimit ∧ scale < maxScale then
      lengthen places (mantissa * 10, scale + 1)
    else (mantissa, scale)

/-- A number of places behind the point brought to `target` as far as possible. -/
def rescaled (mantissa scale target : Nat) : Nat × Nat :=
  if mantissa = 0 then (0, min target maxScale)
  else if target ≤ scale then (shorten (scale - target) mantissa, target)
  else lengthen (target - scale) (mantissa, scale)

/-! ## Powers of ten -/

/-- The decimal divided by a power of ten, rounded where places are lost. -/
def lowered (x : Decimal) (places : Nat) : Option Decimal :=
  if x.scale + places ≤ maxScale then ofParts? x.negative x.mantissa (x.scale + places)
  else ofParts? x.negative (rescaled x.mantissa x.scale (maxScale - places)).1 maxScale

/-- The decimal multiplied by a power of ten; a whole number is left without places. -/
def raised (x : Decimal) (places : Nat) : Option Decimal :=
  if places ≤ x.scale then ofParts? x.negative x.mantissa (x.scale - places)
  else ofUnsignedZero? x.negative (x.mantissa * tenTo (places - x.scale)) 0

/-- Reads a power of ten: digits with an optional plus sign in front. -/
def readPower (text : List Char) : Option Nat :=
  let digits := match text with
    | '+' :: rest => rest
    | rest => rest
  if digits.isEmpty || !digits.all Char.isDigit then none
  else
    let power := digitsValue digits
    if power ≤ maxScale then some power else none

/-- Reads a decimal with an optional sign and an optional exponent of at most 28. -/
def read (text : String) : Option Decimal :=
  let isMark : Char → Bool := fun c => c == 'e' || c == 'E'
  let base := text.toList.takeWhile fun c => !isMark c
  match text.toList.dropWhile fun c => !isMark c with
  | [] => readPlain base
  | _ :: '-' :: power => do lowered (← readPlain base) (← readPower power)
  | _ :: power => do raised (← readPlain base) (← readPower power)

/-! ## Sums -/

/-- Gives up places behind the point, none at first and `places` at most, until the integer fits; a
half goes to the even neighbour. -/
def fittedFrom (mantissa scale dropped : Nat) : Nat → Option (Nat × Nat)
  | 0 =>
    let shorter := roundedQuotient mantissa (tenTo dropped)
    if shorter < mantissaLimit then some (shorter, scale - dropped) else none
  | places + 1 =>
    let shorter := roundedQuotient mantissa (tenTo dropped)
    if shorter < mantissaLimit then some (shorter, scale - dropped)
    else fittedFrom mantissa scale (dropped + 1) places

/-- A number with as many places behind the point as fit. -/
def fitted (mantissa scale : Nat) : Option (Nat × Nat) := fittedFrom mantissa scale 0 scale

/-- The sum of two numbers, with as many places behind the point as fit. -/
def sum? (first second : Nat × Nat) : Option (Nat × Nat) :=
  let scale := max first.2 second.2
  fitted (first.1 * tenTo (scale - first.2) + second.1 * tenTo (scale - second.2)) scale

/-! ## From doubles -/

/-- Trades `count` factors 1/2 for tenths: halve while even, else multiply by five, which the next
tenth makes up for; when that does not fit, halve and lose the last bit. The second component is
the exponent of ten. -/
def halvesToTenths : Nat → Nat × Int → Nat × Int
  | 0, state => state
  | count + 1, (mantissa, exponent) =>
    if mantissa % 2 = 0 ∨ mantissaLimit ≤ mantissa * 5 then
      halvesToTenths count (mantissa / 2, exponent + 1)
    else halvesToTenths count (mantissa * 5, exponent)

/-- Trades `count` factors 2 for tens: double, or divide by five when that does not fit. -/
def doublesToTens : Nat → Nat × Int → Nat × Int
  | 0, state => state
  | count + 1, (mantissa, exponent) =>
    if mantissa * 2 < mantissaLimit then doublesToTens count (mantissa * 2, exponent - 1)
    else doublesToTens count (mantissa / 5, exponent)

def timesTen : Nat → Nat → Option Nat
  | 0, mantissa => some mantissa
  | count + 1, mantissa =>
    if mantissa * 10 < mantissaLimit then timesTen count (mantissa * 10) else none

/-- Brings the places behind the point down to 28; nothing may be left. -/
def capScale : Nat → Nat × Nat → Nat × Nat
  | 0, parts => parts
  | bound + 1, (mantissa, scale) =>
    if scale ≤ maxScale then (mantissa, scale)
    else if mantissa / 10 = 0 then (0, 0)
    else capScale bound (tenthRounded mantissa, scale - 1)

/-- Drops the places that a double is not accurate to. -/
def dropNoise : Nat → Nat × Nat → Nat × Nat
  | 0, parts => parts
  | bound + 1, (mantissa, scale) =>
    if scale = 0 ∨ mantissa < twoTo 52 then (mantissa, scale)
    else dropNoise bound (tenthRounded mantissa, scale - 1)

def dropZeros : Nat → Nat × Nat → Nat × Nat
  | 0, parts => parts
  | bound + 1, (mantissa, scale) =>
    if scale = 0 ∨ mantissa % 10 ≠ 0 then (mantissa, scale)
    else dropZeros bound (mantissa / 10, scale - 1)

/-- Whether a finite double is less than the limit of a decimal's integer, up to its sign. -/
def isModerate (x : Double) : Bool :=
  let (num, den) := x.quotient
  num < mantissaLimit * den

def ofDouble (x : Double) : Option Decimal :=
  if !x.isFinite || !isModerate x then none
  else if x.isZero then ofParts? x.isNegative 0 0
  else
    let (significand, exponent) := x.parts
    let (mantissa, tens) :=
      if exponent < 0 then halvesToTenths (-exponent).toNat (significand, exponent)
      else doublesToTens exponent.toNat (significand, exponent)
    if 0 < tens then do
      let mantissa ← timesTen tens.toNat mantissa
      ofUnsignedZero? x.isNegative mantissa 0
    else
      let scale := (-tens).toNat
      let (mantissa, scale) := capScale scale (mantissa, scale)
      let (mantissa, scale) := dropNoise scale (mantissa, scale)
      let (mantissa, scale) := dropZeros scale (mantissa, scale)
      ofUnsignedZero? x.isNegative mantissa scale

end Decimal
end SqlComposer
