import SqlComposer.Number.Double

/-!
# The fewest digits that read back

A finite double stands for all real numbers nearer to it than to its neighbours; the ends of that
interval belong to it when its significand is even. Its shortest decimal form is the point of the
interval on the coarsest decimal grid that meets it, the nearest one when there are two. The search
tries the two grid points around the number for one digit, two digits, and so on; seventeen always
suffice.
-/

namespace SqlComposer

structure DecimalDigits where
  digits : Nat
  exponent : Int
  deriving DecidableEq, Repr

/-- Where a number halfway between two equally short candidates goes. -/
inductive TieRule where
  | toEven
  | up
  deriving DecidableEq, Repr

/-- Whether `a * 10 ^ exponent ≤ num / den`. -/
def tenfoldAtMost (a : Nat) (exponent : Int) (num den : Nat) : Bool :=
  if 0 ≤ exponent then a * tenTo exponent.toNat * den ≤ num
  else a * den ≤ num * tenTo (-exponent).toNat

/-- The number of digits before the point of a positive quotient; zero or negative for a quotient
below one. -/
def leadingPlace (num den : Nat) : Int :=
  let binary : Int := (Nat.log2 num : Int) - Nat.log2 den - 1
  let guess := binary * 1233 / 4096 + 1
  if tenfoldAtMost 1 guess num den then guess + 1
  else if tenfoldAtMost 1 (guess - 1) num den then guess
  else guess - 1

/-- The real numbers that a finite positive double stands for, in units of a quarter of its last
place: the number itself, the ends of its interval and whether they belong to it. -/
structure RoundingInterval where
  lower : Nat
  centre : Nat
  upper : Nat
  closed : Bool
  unit : Nat × Nat

/-- The interval of the positive double with the given significand and exponent. Below a power of
two the neighbours are twice as dense. -/
def RoundingInterval.of (significand : Nat) (exponent : Int) : RoundingInterval :=
  let powerOfTwo :=
    significand = twoTo BinaryFormat.binary64.fractionBits
      && exponent != BinaryFormat.binary64.minExponent
  { lower := 4 * significand - if powerOfTwo then 1 else 2
    centre := 4 * significand
    upper := 4 * significand + 2
    closed := significand % 2 == 0
    unit := BinaryFormat.quotient 1 (exponent - 2) }

namespace RoundingInterval

def compareAt (interval : RoundingInterval) (digits : Nat) (exponent : Int) (position : Nat) :
    Ordering :=
  let (num, den) := interval.unit
  if 0 ≤ exponent then compare (digits * tenTo exponent.toNat * den) (position * num)
  else compare (digits * den) (position * num * tenTo (-exponent).toNat)

def contains (interval : RoundingInterval) (digits : Nat) (exponent : Int) : Bool :=
  let low := interval.compareAt digits exponent interval.lower
  let high := interval.compareAt digits exponent interval.upper
  (low == .gt || (interval.closed && low == .eq)) &&
    (high == .lt || (interval.closed && high == .eq))

/-- Which of the grid points `digits` and `digits + 1` around the number is chosen when both lie
in the interval. -/
def choose (interval : RoundingInterval) (tie : TieRule) (digits : Nat) (exponent : Int) : Nat :=
  -- The middle of the two points is `(10 * digits + 5) * 10 ^ (exponent - 1)`.
  match interval.compareAt (10 * digits + 5) (exponent - 1) interval.centre with
  | .lt => digits + 1
  | .gt => digits
  | .eq =>
    match tie with
    | .up => digits + 1
    | .toEven => if digits % 2 = 0 then digits else digits + 1

/-- The chosen point on the grid of step `10 ^ exponent`, if a point of it lies in the interval. -/
def pointOn (interval : RoundingInterval) (tie : TieRule) (exponent : Int) : Option Nat :=
  let (num, den) := interval.unit
  let below :=
    if 0 ≤ exponent then interval.centre * num / (den * tenTo exponent.toNat)
    else interval.centre * num * tenTo (-exponent).toNat / den
  match interval.contains below exponent, interval.contains (below + 1) exponent with
  | true, true => some (interval.choose tie below exponent)
  | true, false => some below
  | false, true => some (below + 1)
  | false, false => none

end RoundingInterval

/-- A number without the zeros at its end, and how many there were; at most `bound` of them. -/
def dropTrailingZeros : Nat → DecimalDigits → DecimalDigits
  | 0, d => d
  | bound + 1, d =>
    if d.digits % 10 = 0 then dropTrailingZeros bound ⟨d.digits / 10, d.exponent + 1⟩ else d

/-- The shortest decimal form of a positive finite double. -/
def Double.shortest (tie : TieRule) (x : Double) : DecimalDigits :=
  let (significand, exponent) := x.parts
  let interval := RoundingInterval.of significand exponent
  let (num, den) := x.quotient
  let place := leadingPlace num den
  let found := (List.range 17).findSome? fun (digits : Nat) =>
    let exponent : Int := place - (digits + 1)
    (interval.pointOn tie exponent).map fun point => (⟨point, exponent⟩ : DecimalDigits)
  dropTrailingZeros 17 (found.getD ⟨significand, exponent⟩)

end SqlComposer
