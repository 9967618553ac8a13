import SqlComposer.Number.Double
import SqlComposer.Text.Characters
import SqlComposer.Time.Calendar

/-!
# Dates and instants as text

Writing follows RFC 3339: four digits for the year, more and a sign outside 0 to 9999, and no,
three, six or nine digits for the fraction of a second. Reading takes what a database sends: numbers
may have fewer digits than their width and blanks in front, and an offset may leave out its colon
or its minutes.
-/

namespace SqlComposer

/-! ## Writing -/

/-- A number with zeros in front, up to a width. -/
def paddedNumber (width n : Nat) : String :=
  let digits := toString n
  String.ofList (List.replicate (width - digits.length) '0') ++ digits

/-- A year with four digits, with a sign outside 0 to 9999. -/
def yearText (year : Int) : String :=
  if 0 ≤ year ∧ year ≤ 9999 then paddedNumber 4 year.toNat
  else (if year < 0 then "-" else "+") ++ paddedNumber 4 year.natAbs

def Date.toText (date : Date) : String :=
  yearText date.year ++ "-" ++ paddedNumber 2 date.month ++ "-" ++ paddedNumber 2 date.day

/-- The fraction of a second: as few groups of three digits as are exact. -/
def fractionText (nanos : Nat) : String :=
  if nanos = 0 then ""
  else if nanos % 1000000 = 0 then "." ++ paddedNumber 3 (nanos / 1000000)
  else if nanos % 1000 = 0 then "." ++ paddedNumber 6 (nanos / 1000)
  else "." ++ paddedNumber 9 nanos

/-- Date and time of an instant in UTC, followed by the given name of the zone. A leap second is
written as second 60. -/
def Instant.toText (zone : String) (instant : Instant) : String :=
  let date := (instant.date?.map Date.toText).getD ""
  let time := instant.secondOfDay
  let leap := if 1000000000 ≤ instant.nanos then 1 else 0
  date ++ "T" ++ paddedNumber 2 (time / 3600) ++ ":" ++ paddedNumber 2 (time / 60 % 60) ++ ":" ++
    paddedNumber 2 (time % 60 + leap) ++ fractionText (instant.nanos - leap * 1000000000) ++ zone

/-! ## Reading

A reader returns what it read and the rest of the text.
-/

/-- Reads between `least` and `most` digits; no upper bound when `most` is absent. -/
def readDigits (least : Nat) (most : Option Nat) (text : List Char) : Option (Nat × List Char) :=
  let run := text.takeWhile Char.isDigit
  let digits := match most with
    | some most => run.take most
    | none => run
  if digits.length < least then none else some (digitsValue digits, text.drop digits.length)

def readMark (mark : Char) : List Char → Option (List Char)
  | c :: rest => if c = mark then some rest else none
  | [] => none

/-- Reads the digits of a fraction behind the point: nine count, more are skipped. -/
def readNanos (text : List Char) : Option (Nat × List Char) := do
  let (value, rest) ← readDigits 1 (some 9) text
  let digits := text.length - rest.length
  return (value * tenTo (9 - digits), rest.dropWhile Char.isDigit)

/-- Reads an optional fraction of a second. -/
def readFraction (text : List Char) : Option (Nat × List Char) :=
  match text with
  | '.' :: rest => readNanos rest
  | _ => some (0, text)

/-- Reads a year: up to four digits, or any number of them behind a sign. -/
def readYear (text : List Char) : Option (Int × List Char) :=
  match dropBlanks text with
  | '-' :: rest => (readDigits 1 none rest).map fun (n, rest) => (-n, rest)
  | '+' :: rest => (readDigits 1 none rest).map fun (n, rest) => (n, rest)
  | rest => (readDigits 1 (some 4) rest).map fun (n, rest) => (n, rest)

/-- Reads a number of one or two digits. -/
def readShort (text : List Char) : Option (Nat × List Char) :=
  readDigits 1 (some 2) (dropBlanks text)

/-- Reads year, month and day separated by hyphens. -/
def readDate (text : List Char) : Option (Date × List Char) := do
  let (year, rest) ← readYear text
  let (month, rest) ← readShort (← readMark '-' rest)
  let (day, rest) ← readShort (← readMark '-' rest)
  return (← Date.ofParts? year month day, rest)

/-- The second of the day and the nanoseconds of a time; second 60 is a leap second. -/
def timeOfDay? (hour minute second nanos : Nat) : Option (Nat × Nat) :=
  if hour ≤ 23 ∧ minute ≤ 59 ∧ second ≤ 60 then
    if second = 60 then some (hour * 3600 + minute * 60 + 59, nanos + 1000000000)
    else some (hour * 3600 + minute * 60 + second, nanos)
  else none

/-- Reads hour, minute and second separated by colons, with an optional fraction. -/
def readTime (text : List Char) : Option ((Nat × Nat) × List Char) := do
  let (hour, rest) ← readShort text
  let (minute, rest) ← readShort (← readMark ':' rest)
  let (second, rest) ← readShort (← readMark ':' rest)
  let (nanos, rest) ← readFraction rest
  return (← timeOfDay? hour minute second nanos, rest)

def readTwo (text : List Char) : Option (Nat × List Char) := readDigits 2 (some 2) text

/-- Reads the sign of an offset; the typographic minus counts. -/
def readSign : List Char → Option (Int × List Char)
  | '+' :: rest => some (1, rest)
  | '-' :: rest => some (-1, rest)
  | '\u2212' :: rest => some (-1, rest)
  | _ => none

/-- Reads an offset from UTC in seconds: `Z`, or a sign with hours and optional minutes, with any
colons and blanks in between. -/
def readLooseOffset (text : List Char) : Option (Int × List Char) :=
  match dropBlanks text with
  | 'Z' :: rest | 'z' :: rest => some (0, rest)
  | text => do
    let (sign, rest) ← readSign text
    let (hours, rest) ← readTwo rest
    match rest.dropWhile fun c => c == ':' || isBlank c with
    | [] => return (sign * (hours * 3600), [])
    | rest =>
      let (minutes, rest) ← readTwo rest
      if minutes ≤ 59 then return (sign * (hours * 3600 + minutes * 60), rest) else none

/-- Reads an offset as RFC 3339 wants it: `Z`, or sign, hours, colon and minutes. -/
def readStrictOffset : List Char → Option (Int × List Char)
  | 'Z' :: rest | 'z' :: rest => some (0, rest)
  | text => do
    let (sign, rest) ← readSign text
    let (hours, rest) ← readTwo rest
    let (minutes, rest) ← readTwo (← readMark ':' rest)
    if minutes ≤ 59 then return (sign * (hours * 3600 + minutes * 60), rest) else none

/-- The value of a reading that used up the text. -/
def atEnd {α : Type} (reading : Option (α × List Char)) : Option α :=
  match reading with
  | some (value, []) => some value
  | _ => none

/-- The instant of a local date and time at an offset of less than a day. -/
def instantAt (date : Date) (time : Nat × Nat) (offset : Int) : Option Instant :=
  if offset.natAbs < 86400 then (Instant.ofDate date (time.1 - offset) time.2).checked else none

def Date.read (text : String) : Option Date := atEnd (readDate text.toList)

/-- Reads date and time without an offset, as UTC. -/
def Instant.readLocal (text : String) : Option Instant := do
  let (date, rest) ← readDate text.toList
  let time ← atEnd (readTime (dropBlanks rest))
  instantAt date time 0

/-- Reads date, time and offset in the form a database writes. -/
def Instant.readLoose (text : String) : Option Instant := do
  let (date, rest) ← readDate text.toList
  let (time, rest) ← readTime (dropBlanks rest)
  let offset ← atEnd (readLooseOffset rest)
  instantAt date time offset

/-- Reads date, time and offset in the form of RFC 3339. -/
def Instant.readStrict (text : String) : Option Instant := do
  let (year, rest) ← readDigits 4 (some 4) text.toList
  let (month, rest) ← readTwo (← readMark '-' rest)
  let (day, rest) ← readTwo (← readMark '-' rest)
  let date ← Date.ofParts? year month day
  let rest ← match rest with
    | 't' :: rest | 'T' :: rest | ' ' :: rest => some rest
    | _ => none
  let (hour, rest) ← readTwo rest
  let (minute, rest) ← readTwo (← readMark ':' rest)
  let (second, rest) ← readTwo (← readMark ':' rest)
  let (nanos, rest) ← readFraction rest
  let time ← timeOfDay? hour minute second nanos
  let offset ← atEnd (readStrictOffset rest)
  instantAt date time offset

def Instant.read (text : String) : Option Instant :=
  (Instant.readLoose text).or (Instant.readStrict text)

end SqlComposer
