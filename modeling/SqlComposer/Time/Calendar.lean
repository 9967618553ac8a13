/-!
# Dates and instants

Dates of the proleptic Gregorian calendar, numbered by days since 1970-01-01, and instants counted
in seconds and nanoseconds since the start of that day. An instant inside a leap second has a
billion or more nanoseconds. Years run from -262143 to 262142.
-/

namespace SqlComposer

def isLeapYear (year : Int) : Bool :=
  year % 4 == 0 && (year % 100 != 0 || year % 400 == 0)

/-- The number of days of a month, zero for a month that does not exist. -/
def daysInMonth (year : Int) (month : Nat) : Nat :=
  match month with
  | 1 | 3 | 5 | 7 | 8 | 10 | 12 => 31
  | 4 | 6 | 9 | 11 => 30
  | 2 => if isLeapYear year then 29 else 28
  | _ => 0

def minYear : Int := -262143

def maxYear : Int := 262142

/-- What makes a year, a month and a day a date. -/
def IsDate (year : Int) (month day : Nat) : Prop :=
  minYear ≤ year ∧ year ≤ maxYear ∧ 1 ≤ day ∧ day ≤ daysInMonth year month

instance (year : Int) (month day : Nat) : Decidable (IsDate year month day) :=
  inferInstanceAs (Decidable (_ ∧ _))

structure Date where
  year : Int
  month : Nat
  day : Nat
  isDate : IsDate year month day
  deriving DecidableEq, Repr

namespace Date

def ofParts? (year : Int) (month day : Nat) : Option Date :=
  if h : IsDate year month day then some ⟨year, month, day, h⟩ else none

/-- The number of days from 1970-01-01. Years are counted from March, so that the leap day comes
last; 400 of them have 146097 days. -/
def toDays (date : Date) : Int :=
  let year := if date.month ≤ 2 then date.year - 1 else date.year
  let month : Int := if date.month ≤ 2 then date.month + 9 else date.month - 3
  let cycle := year / 400
  let yearOfCycle := year % 400
  let dayOfYear := (153 * month + 2) / 5 + date.day - 1
  cycle * 146097 + yearOfCycle * 365 + yearOfCycle / 4 - yearOfCycle / 100 + dayOfYear - 719468

/-- The date a number of days after 1970-01-01. -/
def ofDays? (days : Int) : Option Date :=
  let shifted := days + 719468
  let cycle := shifted / 146097
  let dayOfCycle := shifted % 146097
  let yearOfCycle :=
    (dayOfCycle - dayOfCycle / 1460 + dayOfCycle / 36524 - dayOfCycle / 146096) / 365
  let dayOfYear := dayOfCycle - (365 * yearOfCycle + yearOfCycle / 4 - yearOfCycle / 100)
  let month := (5 * dayOfYear + 2) / 153
  let day := dayOfYear - (153 * month + 2) / 5 + 1
  let month := if month < 10 then month + 3 else month - 9
  let year := yearOfCycle + cycle * 400 + if month ≤ 2 then 1 else 0
  ofParts? year month.toNat day.toNat

end Date

/-- A point in time, in seconds and nanoseconds since 1970-01-01 00:00:00 UTC. -/
structure Instant where
  seconds : Int
  nanos : Nat
  deriving DecidableEq, Repr

namespace Instant

def secondsPerDay : Int := 86400

/-- The date of an instant, if it lies within the calendar. -/
def date? (instant : Instant) : Option Date := Date.ofDays? (instant.seconds / secondsPerDay)

def secondOfDay (instant : Instant) : Nat := (instant.seconds % secondsPerDay).toNat

/-- The instant at a time of day of a date. -/
def ofDate (date : Date) (secondOfDay : Int) (nanos : Nat) : Instant :=
  ⟨date.toDays * secondsPerDay + secondOfDay, nanos⟩

def checked (instant : Instant) : Option Instant := instant.date?.map fun _ => instant

end Instant
end SqlComposer
