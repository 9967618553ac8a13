import SqlComposer.Number.Shortest
import SqlComposer.Text.Characters

/-!
# Doubles as text

A double is written with the fewest digits that read back. A layout decides what is left open: which
exponents are written out in place, whether a whole number shows a point, how an exponent is
signed, and which of two equally near candidates is taken. `Double.read` reads decimal text, with
every correct digit taken into account.
-/

namespace SqlComposer

/-- How the digits of a double are laid out. -/
structure FloatLayout where
  /-- The least and the largest scientific exponent written without an exponent; every exponent
  when absent. -/
  positional : Option (Int × Int)
  /-- Whether a number written in place always shows a point. -/
  showsPoint : Bool
  /-- What stands before a non-negative exponent. -/
  plus : String
  tie : TieRule

namespace FloatLayout

/-- JSON numbers: `1.0`, `0.00001`, `1e+16`, `1.5e-6`. -/
def json : FloatLayout := ⟨some (-5, 15), true, "+", .toEven⟩

/-- Plain text: always written out in place, a whole number without a point. -/
def plain : FloatLayout := ⟨none, false, "", .up⟩

/-- Diagnostic text: `1.0`, `1e16`, `1e-5`. -/
def diagnostic : FloatLayout := ⟨some (-4, 15), true, "", .up⟩

end FloatLayout

/-- `digits` followed by `exponent` zeros, or with a point put before its last digits. -/
def positionalText (layout : FloatLayout) (number : DecimalDigits) : String :=
  let text := toString number.digits
  if 0 ≤ number.exponent then
    text ++ String.ofList (List.replicate number.exponent.toNat '0') ++
      (if layout.showsPoint then ".0" else "")
  else
    let places := (-number.exponent).toNat
    let padded := List.replicate (places + 1 - text.length) '0' ++ text.toList
    let whole := padded.length - places
    String.ofList (padded.take whole ++ '.' :: padded.drop whole)

def scientificText (layout : FloatLayout) (number : DecimalDigits) : String :=
  let digits := (toString number.digits).toList
  let exponent := number.exponent + digits.length - 1
  let mantissa := digits.take 1 ++ if digits.length > 1 then '.' :: digits.drop 1 else []
  String.ofList mantissa ++ "e" ++ (if 0 ≤ exponent then layout.plus else "") ++ toString exponent

def Double.toText (layout : FloatLayout) (x : Double) : String :=
  if x.isNaN then "NaN"
  else
    let body :=
      if x.isInfinite then "inf"
      else if x.isZero then if layout.showsPoint then "0.0" else "0"
      else
        let number := x.shortest layout.tie
        let exponent := number.exponent + (toString number.digits).length - 1
        match layout.positional with
        | none => positionalText layout number
        | some (least, largest) =>
          if least ≤ exponent ∧ exponent ≤ largest then positionalText layout number
          else scientificText layout number
    (if x.isNegative then "-" else "") ++ body

/-! ## Reading -/

/-- What is wrong with a text that should be a number. -/
inductive NumberFault where
  | empty
  | invalid
  | tooLarge
  | tooSmall
  deriving DecidableEq, Repr

/-- The double nearest to `digits * 10 ^ exponent`. Exponents far outside the range of doubles are
decided without forming the power. -/
def Double.ofScientific (negative : Bool) (digits : Nat) (exponent : Int) : Double :=
  if digits = 0 then ofQuotient negative 0 1
  else
    let place : Int := exponent + (toString digits).length
    if place > 400 then infinity negative
    else if place < -400 then ofQuotient negative 0 1
    else if 0 ≤ exponent then ofQuotient negative (digits * tenTo exponent.toNat) 1
    else ofQuotient negative digits (tenTo (-exponent).toNat)

/-- An exponent behind its letter: an optional sign and at least one digit. -/
def readExponent (text : List Char) : Option (Int × List Char) :=
  let (negative, rest) := match text with
    | '-' :: rest => (true, rest)
    | '+' :: rest => (false, rest)
    | rest => (false, rest)
  let digits := rest.takeWhile Char.isDigit
  if digits.isEmpty then none
  else
    let value : Int := digitsValue digits
    some (if negative then -value else value, rest.dropWhile Char.isDigit)

/-- Reads an unsigned decimal number with optional fraction and exponent, at least one digit in
front of the exponent. -/
def readScientific (text : List Char) : Option (Nat × Int) := do
  let whole := text.takeWhile Char.isDigit
  let afterWhole := text.dropWhile Char.isDigit
  let (fraction, rest) := match afterWhole with
    | '.' :: rest => (rest.takeWhile Char.isDigit, rest.dropWhile Char.isDigit)
    | rest => ([], rest)
  if whole.isEmpty && fraction.isEmpty then none
  let digits := digitsValue (whole ++ fraction)
  match rest with
  | [] => some (digits, -fraction.length)
  | c :: rest =>
    if c = 'e' ∨ c = 'E' then
      let (exponent, rest) ← readExponent rest
      if rest.isEmpty then some (digits, exponent - fraction.length) else none
    else none

/-- Reads a double: a decimal number, `inf`, `infinity` or `nan` in any case, with an optional
sign. -/
def Double.read (text : String) : Except NumberFault Double :=
  let (negative, body) := match text.toList with
    | '-' :: rest => (true, rest)
    | '+' :: rest => (false, rest)
    | rest => (false, rest)
  if text.isEmpty then .error .empty
  else
    match readScientific body with
    | some (digits, exponent) => .ok (ofScientific negative digits exponent)
    | none =>
      let word := String.ofList (body.map Char.toLower)
      if word = "inf" ∨ word = "infinity" then .ok (infinity negative)
      else if word = "nan" then .ok (nan negative)
      else .error .invalid

/-- Reads a 64-bit integer with an optional sign. Characters are taken one by one, so the first
one that is no digit or leads out of the range decides the fault. -/
def readInt64 (text : String) : Except NumberFault Int :=
  match text.toList with
  | [] => .error .empty
  | '-' :: rest => if rest.isEmpty then .error .invalid else (go true 0 rest).map fun n => -n
  | '+' :: rest => if rest.isEmpty then .error .invalid else (go false 0 rest).map fun n => n
  | rest => (go false 0 rest).map fun n => n
where
  go (negative : Bool) (value : Nat) : List Char → Except NumberFault Nat
    | [] => .ok value
    | c :: rest =>
      if !c.isDigit then .error .invalid
      else
        let next := value * 10 + digitValue c
        if negative && twoTo 63 < next then .error .tooSmall
        else if !negative && twoTo 63 ≤ next then .error .tooLarge
        else go negative next rest

end SqlComposer
