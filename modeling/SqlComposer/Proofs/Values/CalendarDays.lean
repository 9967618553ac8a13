import Mathlib.Tactic.IntervalCases
import Mathlib.Tactic.Ring
import SqlComposer.Proofs.Wire.IntegerBytes

/-!
# Days of the calendar

A date is counted in years that start in March, so that a leap day is the last of its year, and in
cycles of 400 years. Both the count within a cycle and the count within a year can be undone, and
so a date is found again from the number of its day, and an instant in whole microseconds from the
number of its microsecond.
-/

namespace SqlComposer

/-! ## Years of a cycle -/

/-- The day on which a year of a cycle starts. -/
def startOfYear (year : Int) : Int := year * 365 + year / 4 - year / 100

/-- The year of a cycle is found from a day of it. A year has a 366th day only if it is the last of
four, and the last of a hundred only at the end of the cycle. -/
theorem yearOfCycle_eq {year day : Int} (hyear : 0 ≤ year) (hcycle : year < 400) (hday : 0 ≤ day)
    (hlast : day ≤ 365) (hleap : day = 365 → year % 4 = 3 ∧ (year % 100 = 99 → year = 399)) :
    let dayOfCycle := startOfYear year + day
    0 ≤ dayOfCycle ∧ dayOfCycle < 146097 ∧
      (dayOfCycle - dayOfCycle / 1460 + dayOfCycle / 36524 - dayOfCycle / 146096) / 365 = year := by
  intro dayOfCycle
  obtain ⟨century, leaps, rest, rfl, hcentury, hleaps, hrest⟩ :
      ∃ century leaps rest : Int, year = 100 * century + 4 * leaps + rest ∧
        (0 ≤ century ∧ century ≤ 3) ∧ (0 ≤ leaps ∧ leaps ≤ 24) ∧ 0 ≤ rest ∧ rest ≤ 3 :=
    ⟨year / 100, year % 100 / 4, year % 100 % 4, by omega, by omega, by omega, by omega⟩
  have hlong : day = 365 → rest = 3 ∧ (leaps = 24 → century = 3) := by omega
  have hsum : dayOfCycle = 36524 * century + (1461 * leaps + 365 * rest + day) := by
    simp only [dayOfCycle, startOfYear]
    omega
  clear_value dayOfCycle
  clear hleap hyear hcycle
  have hbounds : 0 ≤ dayOfCycle ∧ dayOfCycle < 146097 := by omega
  refine ⟨hbounds.1, hbounds.2, ?_⟩
  -- The last day of a cycle is the only one whose century a division by 36524 misses.
  have hcenturies : dayOfCycle / 36524 - dayOfCycle / 146096 = century := by
    by_cases hend : dayOfCycle = 146096
    · subst hend
      omega
    · have hwithin : 1461 * leaps + 365 * rest + day < 36524 := by omega
      have hcentury' : dayOfCycle / 36524 = century := by omega
      have hcycle : dayOfCycle / 146096 = 0 := by omega
      omega
  have hquarters : dayOfCycle / 1460 =
      (24 * century + leaps + 365 * rest + day) / 1460 + (25 * century + leaps) := by
    rw [← Int.add_mul_ediv_left _ _ (by decide), hsum]
    congr 1
    ring
  -- Only the last day of a leap year lies behind a quarter of its 1461 days.
  have hshort : 0 ≤ day - (24 * century + leaps + 365 * rest + day) / 1460 ∧
      day - (24 * century + leaps + 365 * rest + day) / 1460 < 365 := by
    clear hsum hbounds hcenturies hquarters
    omega
  calc
    (dayOfCycle - dayOfCycle / 1460 + dayOfCycle / 36524 - dayOfCycle / 146096) / 365 =
        (365 * (100 * century + 4 * leaps + rest) +
          (day - (24 * century + leaps + 365 * rest + day) / 1460)) / 365 := by
      rw [Int.add_sub_assoc, hcenturies, hquarters, hsum]
      congr 1
      ring
    _ = 100 * century + 4 * leaps + rest := by
      rw [Int.mul_add_ediv_left _ _ (by decide), Int.ediv_eq_zero_of_lt hshort.1 hshort.2,
        Int.add_zero]

namespace Date

/-! ## Days of a year -/

/-- The year of a date when years start in March. -/
def marchYear (date : Date) : Int := if date.month ≤ 2 then date.year - 1 else date.year

/-- The month of a date counted from March. -/
def marchMonth (date : Date) : Int :=
  if date.month ≤ 2 then date.month + 9 else date.month - 3

/-- The day of a year that starts in March. -/
def dayOfYear (date : Date) : Int := (153 * date.marchMonth + 2) / 5 + date.day - 1

theorem toDays_eq (date : Date) :
    date.toDays = date.marchYear / 400 * 146097 +
      (startOfYear (date.marchYear % 400) + date.dayOfYear) - 719468 := by
  unfold toDays startOfYear dayOfYear marchMonth marchYear
  dsimp only
  omega

theorem month_mem (date : Date) : 1 ≤ date.month ∧ date.month ≤ 12 := by
  have hday := date.isDate.2.2
  unfold daysInMonth at hday
  split at hday <;> omega

/-- The month of a date is found from the day of the year, which is the 366th only on a leap day. -/
theorem dayOfYear_spec (date : Date) :
    0 ≤ date.dayOfYear ∧ date.dayOfYear ≤ 365 ∧
      (date.dayOfYear = 365 → date.month = 2 ∧ isLeapYear date.year) ∧
      (5 * date.dayOfYear + 2) / 153 = date.marchMonth := by
  obtain ⟨hleast, hmost⟩ := date.month_mem
  obtain ⟨-, -, hfirst, hlast⟩ := date.isDate
  unfold dayOfYear marchMonth
  generalize date.month = month at *
  by_cases hfebruary : month = 2
  · subst hfebruary
    by_cases hleap : isLeapYear date.year <;> simp [daysInMonth, hleap] at hlast ⊢ <;> omega
  · interval_cases month <;> simp [daysInMonth] at hlast hfebruary ⊢ <;> omega

/-- The month of a date is found from the month counted from March. -/
theorem month_marchMonth (date : Date) :
    (if date.marchMonth < 10 then date.marchMonth + 3 else date.marchMonth - 9) = date.month := by
  have hbounds := date.month_mem
  unfold marchMonth
  omega

/-- The year of a date is found from its year in a cycle of the years that start in March. -/
theorem year_marchYear (date : Date) :
    date.marchYear % 400 + date.marchYear / 400 * 400 + (if (date.month : Int) ≤ 2 then 1 else 0) =
      date.year := by
  unfold marchYear
  omega

/-! ## Dates and days -/

/-- A date is found again from the number of its day. -/
theorem ofDays?_toDays (date : Date) : ofDays? date.toDays = some date := by
  obtain ⟨hday, hlast, hleap, hmonth⟩ := date.dayOfYear_spec
  have hyear : 0 ≤ date.marchYear % 400 ∧ date.marchYear % 400 < 400 := by omega
  have hlong : date.dayOfYear = 365 → date.marchYear % 400 % 4 = 3 ∧
      (date.marchYear % 400 % 100 = 99 → date.marchYear % 400 = 399) := by
    intro h
    obtain ⟨hmonth, hleap⟩ := hleap h
    simp [isLeapYear] at hleap
    simp only [marchYear, hmonth]
    omega
  obtain ⟨hfirst, hend, hfound⟩ := yearOfCycle_eq hyear.1 hyear.2 hday hlast hlong
  have hdays := date.toDays_eq
  obtain ⟨dayOfCycle, hdayOfCycle⟩ :
      ∃ dayOfCycle, dayOfCycle = startOfYear (date.marchYear % 400) + date.dayOfYear := ⟨_, rfl⟩
  rw [← hdayOfCycle] at hfirst hend hfound hdays
  have hcycle : (date.toDays + 719468) / 146097 = date.marchYear / 400 := by omega
  have hrest : (date.toDays + 719468) % 146097 = dayOfCycle := by omega
  have hdayOfYear : dayOfCycle - (365 * (date.marchYear % 400) + date.marchYear % 400 / 4 -
      date.marchYear % 400 / 100) = date.dayOfYear := by
    rw [hdayOfCycle, startOfYear]
    omega
  have hdays : date.dayOfYear - (153 * date.marchMonth + 2) / 5 + 1 = date.day := by
    unfold dayOfYear
    omega
  unfold ofDays?
  dsimp only
  rw [hcycle, hrest, hfound, hdayOfYear, hmonth, date.month_marchMonth,
    date.year_marchYear, hdays]
  exact dif_pos date.isDate

/-- The days of the calendar, roughly. -/
theorem toDays_bounds (date : Date) : -100000000 < date.toDays ∧ date.toDays < 100000000 := by
  obtain ⟨hday, hlast, -, -⟩ := date.dayOfYear_spec
  obtain ⟨hleast, hmost, -, -⟩ := date.isDate
  have hyear : date.year - 1 ≤ date.marchYear ∧ date.marchYear ≤ date.year := by
    unfold marchYear
    omega
  have hdays := date.toDays_eq
  unfold startOfYear at hdays
  unfold minYear at hleast
  unfold maxYear at hmost
  omega

/-- A day that has a date lies within the calendar. -/
theorem bounds_of_ofDays? {days : Int} (h : (ofDays? days).isSome) :
    -100000000 < days ∧ days < 100000000 := by
  unfold ofDays? ofParts? at h
  dsimp only at h
  rw [Option.isSome_dite] at h
  obtain ⟨hleast, hmost, -, -⟩ := h
  unfold minYear at hleast
  unfold maxYear at hmost
  omega

end Date

/-! ## Instants -/

namespace Instant

/-- Whether an instant lies on a whole microsecond outside of leap seconds. -/
def isWholeMicro (instant : Instant) : Bool :=
  decide (instant.nanos < 1000000000) && instant.nanos % 1000 == 0

theorem isWholeMicro_iff {instant : Instant} :
    instant.isWholeMicro ↔ instant.nanos < 1000000000 ∧ instant.nanos % 1000 = 0 := by
  simp [isWholeMicro]

/-- The microseconds of an instant on a whole one are exact. -/
theorem wireMicros_mul {instant : Instant} (h : instant.isWholeMicro) :
    instant.wireMicros * 1000 =
      (instant.seconds - wireEpochSeconds) * 1000000000 + instant.nanos := by
  rw [isWholeMicro_iff] at h
  exact Int.tdiv_mul_cancel (by omega)

/-- The microseconds of the calendar fit 64 bits. -/
theorem fitsSigned_wireMicros {instant : Instant} (hcalendar : instant.date?.isSome)
    (h : instant.isWholeMicro) : fitsSigned 8 instant.wireMicros := by
  have hmicros := wireMicros_mul h
  have hbounds := Date.bounds_of_ofDays? hcalendar
  rw [isWholeMicro_iff] at h
  have hlimit : twoTo (8 * 8) = 18446744073709551616 := by decide
  rw [fitsSigned_iff, hlimit]
  unfold wireEpochSeconds at hmicros
  unfold secondsPerDay at hbounds
  omega

/-- An instant on a whole microsecond is found again from its number. -/
theorem instantOfMicros?_wireMicros {instant : Instant} (hcalendar : instant.date?.isSome)
    (h : instant.isWholeMicro) : Wire.instantOfMicros? instant.wireMicros = some instant := by
  have hmicros := wireMicros_mul h
  rw [isWholeMicro_iff] at h
  have hseconds : (wireEpochSeconds * 1000000000 + instant.wireMicros * 1000) / 1000000000 =
      instant.seconds := by omega
  have hnanos : ((wireEpochSeconds * 1000000000 + instant.wireMicros * 1000) % 1000000000).toNat =
      instant.nanos := by omega
  unfold Wire.instantOfMicros?
  dsimp only
  rw [hseconds, hnanos]
  obtain ⟨date, hdate⟩ := Option.isSome_iff_exists.1 hcalendar
  unfold checked
  rw [hdate]
  rfl

end Instant
end SqlComposer
