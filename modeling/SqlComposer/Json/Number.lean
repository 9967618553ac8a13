import SqlComposer.Json.Value

/-!
# Reading JSON numbers

A number without fraction and exponent is an integer if it fits 64 bits. Every other number becomes
a double in two steps: its leading digits are taken for an integer of 64 bits, and this is
multiplied or divided by a power of ten. Each step rounds, so the result can be a neighbour of the
double that is nearest to the number as it is written.
-/

namespace SqlComposer.Json

/-! ## Digits -/

/-- The leading digits of a number as an integer, and the power of ten that belongs to it. -/
structure Leading where
  value : Nat
  exponent : Int
  deriving DecidableEq, Repr

namespace Leading

/-- Takes the digits of a whole number. From the first one that leads out of 64 bits on, digits only
count. -/
def takeWhole (value : Nat) : List Char → Leading
  | [] => ⟨value, 0⟩
  | c :: rest =>
    let next := value * 10 + digitValue c
    if next < twoTo 64 then takeWhole next rest else ⟨value, rest.length + 1⟩

/-- Takes the digits of a fraction. From the first one that leads out of 64 bits on, they are left
out. -/
def takeFraction (leading : Leading) : List Char → Leading
  | [] => leading
  | c :: rest =>
    let next := leading.value * 10 + digitValue c
    if next < twoTo 64 then takeFraction ⟨next, leading.exponent - 1⟩ rest else leading

def powerOfTen (exponent : Nat) : Double := .ofScientific false 1 exponent

def maxPower : Nat := 308

/-- The leading digits times their power of ten, unless this is infinite. A small power is taken in
two divisions. -/
def toDouble? (leading : Leading) : Option Double :=
  let value := Double.ofInt leading.value
  if 0 ≤ leading.exponent then
    if leading.exponent ≤ maxPower then
      let product := value.times (powerOfTen leading.exponent.toNat)
      if product.isFinite then some product else none
    else if value.isZero then some value
    else none
  else
    let down := (-leading.exponent).toNat
    if down ≤ maxPower then some (value.dividedBy (powerOfTen down))
    else if down ≤ 2 * maxPower then
      some ((value.dividedBy (powerOfTen maxPower)).dividedBy (powerOfTen (down - maxPower)))
    else some (.ofInt 0)

end Leading

/-! ## Numbers -/

/-- The number of an integer that was read. The integer minus zero does not exist, so its text is a
double, as are integers below the range of 64 bits. -/
def wholeNumber (negative : Bool) (value : Nat) : Json :=
  if !negative then int value
  else if value = 0 ∨ twoTo 63 < value then float (Double.ofInt value).negated
  else int (-value)

/-- Reads the digits of a fraction behind the point, at least one of them, if there is a point. -/
def readFraction (text : List Char) : Option (List Char × List Char) :=
  match text with
  | '.' :: rest =>
    let digits := rest.takeWhile Char.isDigit
    if digits.isEmpty then none else some (digits, rest.dropWhile Char.isDigit)
  | _ => some ([], text)

/-- Reads the exponent that the text consists of, if it is not empty. -/
def readTens (text : List Char) : Option Int :=
  match text with
  | [] => some 0
  | c :: rest =>
    if c = 'e' ∨ c = 'E' then
      match readExponent rest with
      | some (exponent, []) => some exponent
      | _ => none
    else none

/-- Reads the characters of a number: no leading zeros, digits on both sides of a point. A number
beyond the range of doubles is refused. -/
def readNumber (text : List Char) : Option Json := do
  let (negative, body) := match text with
    | '-' :: rest => (true, rest)
    | rest => (false, rest)
  let whole := body.takeWhile Char.isDigit
  let rest := body.dropWhile Char.isDigit
  if whole.isEmpty || (whole.head? == some '0' && whole.length > 1) then none
  let leading := Leading.takeWhole 0 whole
  if rest.isEmpty && leading.exponent == 0 then some (wholeNumber negative leading.value)
  else
    let (fraction, rest) ← readFraction rest
    let tens ← readTens rest
    let leading := leading.takeFraction fraction
    let value ← Leading.toDouble? ⟨leading.value, leading.exponent + tens⟩
    some (float (if negative then value.negated else value))

end SqlComposer.Json
