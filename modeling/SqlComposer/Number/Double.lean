/-!
# Double precision numbers

A double is its 64 bits in the IEEE 754 interchange format. Every operation on doubles in this
library is exact integer arithmetic followed by one rounding to nearest, ties to even, so nothing
depends on the machine's own arithmetic. The same rounding serves the 32-bit format, which is used
only on the wire.
-/

namespace SqlComposer

/-! ## Powers -/

def twoTo (n : Nat) : Nat := Nat.pow 2 n

def tenTo (n : Nat) : Nat := Nat.pow 10 n

theorem twoTo_succ (n : Nat) : twoTo (n + 1) = twoTo n * 2 := rfl

theorem tenTo_succ (n : Nat) : tenTo (n + 1) = tenTo n * 10 := rfl

theorem twoTo_pos (n : Nat) : 0 < twoTo n := by
  induction n with
  | zero => decide
  | succ n ih =>
    rw [twoTo_succ]
    exact Nat.mul_pos ih (by decide)

theorem tenTo_pos (n : Nat) : 0 < tenTo n := by
  induction n with
  | zero => decide
  | succ n ih =>
    rw [tenTo_succ]
    exact Nat.mul_pos ih (by decide)

/-! ## Rounding -/

/-- The quotient of two numbers rounded to nearest, a half going to the even neighbour. -/
def roundedQuotient (num den : Nat) : Nat :=
  let quotient := num / den
  let rest := 2 * (num % den)
  if rest > den ∨ (rest = den ∧ quotient % 2 = 1) then quotient + 1 else quotient

/-- The largest `k` with `2 ^ k ≤ num / den`, for positive numbers. -/
def floorLog2 (num den : Nat) : Int :=
  let guess : Int := (Nat.log2 num : Int) - Nat.log2 den
  let reached :=
    if 0 ≤ guess then den * twoTo guess.toNat ≤ num else den ≤ num * twoTo (-guess).toNat
  if reached then guess else guess - 1

/-- A binary interchange format, given by the widths of its stored fields. -/
structure BinaryFormat where
  fractionBits : Nat
  exponentBits : Nat

namespace BinaryFormat

def binary64 : BinaryFormat := ⟨52, 11⟩

def binary32 : BinaryFormat := ⟨23, 8⟩

/-- The exponent of the last place of the smallest numbers. -/
def minExponent (format : BinaryFormat) : Int :=
  2 - twoTo (format.exponentBits - 1) - format.fractionBits

def infinity (format : BinaryFormat) : Nat :=
  (twoTo format.exponentBits - 1) * twoTo format.fractionBits

def signBit (format : BinaryFormat) : Nat := twoTo (format.exponentBits + format.fractionBits)

/-- The bits, without the sign, of the number nearest to `num / den`. The significand is counted
in units of the last place; one that rounds up to the next power of two carries into the exponent
by plain addition. -/
def nearest (format : BinaryFormat) (num den : Nat) : Nat :=
  if num = 0 then 0
  else
    let exponent := max (floorLog2 num den - format.fractionBits) format.minExponent
    let significand :=
      if 0 ≤ exponent then roundedQuotient num (den * twoTo exponent.toNat)
      else roundedQuotient (num * twoTo (-exponent).toNat) den
    let bits := (exponent - format.minExponent).toNat * twoTo format.fractionBits + significand
    min bits format.infinity

/-- The significand and the exponent of finite bits without their sign. -/
def parts (format : BinaryFormat) (bits : Nat) : Nat × Int :=
  let fraction := bits % twoTo format.fractionBits
  let exponent := bits / twoTo format.fractionBits
  if exponent = 0 then (fraction, format.minExponent)
  else (fraction + twoTo format.fractionBits, format.minExponent + exponent - 1)

/-- `significand * 2 ^ exponent` as a quotient of natural numbers. -/
def quotient (significand : Nat) (exponent : Int) : Nat × Nat :=
  if 0 ≤ exponent then (significand * twoTo exponent.toNat, 1)
  else (significand, twoTo (-exponent).toNat)

end BinaryFormat

/-- A double precision number, by its bits. -/
structure Double where
  bits : UInt64
  deriving DecidableEq, Repr

namespace Double

open BinaryFormat

def magnitude (x : Double) : Nat := x.bits.toNat % binary64.signBit

def isNegative (x : Double) : Bool := binary64.signBit ≤ x.bits.toNat

def isNaN (x : Double) : Bool := binary64.infinity < x.magnitude

def isInfinite (x : Double) : Bool := x.magnitude == binary64.infinity

def isFinite (x : Double) : Bool := x.magnitude < binary64.infinity

def isZero (x : Double) : Bool := x.magnitude == 0

def ofMagnitude (negative : Bool) (bits : Nat) : Double :=
  ⟨UInt64.ofNat (bits + if negative then binary64.signBit else 0)⟩

/-- The double nearest to `num / den` with the given sign; infinite beyond the range. -/
def ofQuotient (negative : Bool) (num den : Nat) : Double :=
  ofMagnitude negative (binary64.nearest num den)

def ofInt (n : Int) : Double := ofQuotient (n < 0) n.natAbs 1

def infinity (negative : Bool) : Double := ofMagnitude negative binary64.infinity

def nan (negative : Bool) : Double :=
  ofMagnitude negative (binary64.infinity + twoTo (binary64.fractionBits - 1))

/-- The significand and the exponent of the absolute value of a finite number. -/
def parts (x : Double) : Nat × Int := binary64.parts x.magnitude

def quotient (x : Double) : Nat × Nat :=
  let (significand, exponent) := x.parts
  BinaryFormat.quotient significand exponent

/-- The product of two finite numbers, rounded once. -/
def times (x y : Double) : Double :=
  let (num, den) := x.quotient
  let (num', den') := y.quotient
  ofQuotient (x.isNegative != y.isNegative) (num * num') (den * den')

/-- The quotient of two finite numbers, the second of them not zero, rounded once. -/
def dividedBy (x y : Double) : Double :=
  let (num, den) := x.quotient
  let (num', den') := y.quotient
  ofQuotient (x.isNegative != y.isNegative) (num * den') (den * num')

def negated (x : Double) : Double := ofMagnitude (!x.isNegative) x.magnitude

/-! ## The 32-bit format -/

/-- Bits of the 32-bit number nearest to `x`. A NaN keeps its sign and its leading payload bits
and becomes quiet. -/
def toBinary32 (x : Double) : Nat :=
  let magnitude :=
    if x.isNaN then
      let payload := (x.magnitude - binary64.infinity) / twoTo 29
      let quiet := twoTo (binary32.fractionBits - 1)
      binary32.infinity + quiet + payload % quiet
    else if x.isInfinite then binary32.infinity
    else
      let (num, den) := x.quotient
      binary32.nearest num den
  magnitude + if x.isNegative then binary32.signBit else 0

/-- The number with the given 32-bit form; a NaN becomes quiet. -/
def ofBinary32 (bits : Nat) : Double :=
  let negative := binary32.signBit ≤ bits
  let magnitude := bits % binary32.signBit
  if binary32.infinity < magnitude then
    let payload := (magnitude - binary32.infinity) * twoTo 29
    let quiet := twoTo (binary64.fractionBits - 1)
    ofMagnitude negative (binary64.infinity + quiet + payload % quiet)
  else if magnitude = binary32.infinity then infinity negative
  else
    let (significand, exponent) := binary32.parts magnitude
    let (num, den) := BinaryFormat.quotient significand exponent
    ofQuotient negative num den

def binary32OfInt (n : Int) : Nat :=
  binary32.nearest n.natAbs 1 + if n < 0 then binary32.signBit else 0

end Double
end SqlComposer
