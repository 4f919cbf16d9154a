/-!
# Days of the Gregorian calendar

The calendar is extended without change into the past and future, and has a year 0.

* `Date.Day`: year, month and day of the month; `Date.Day.IsValid` says which triples are days.
* `Date.Day.number`: the days from 1970-01-01 to a day.
* `Date.Day.ofNumber`: the day with a given number.
* `Date.Day.number_ofNumber`: each number is that of its day.

Both count years from March, so that the leap day is the last of its year, in eras of 400 years,
which have 146097 days. Years of an era, and months and days of a year, are counted from 0.
-/

namespace RecordQuery.Date

/-- A year has 366 days if four divides it, except that of the years that a hundred divides only
those do that four hundred divides. -/
def isLeapYear (year : Int) : Bool := year % 4 = 0 && (year % 100 ≠ 0 || year % 400 = 0)

/-- How many days a month has. -/
def daysInMonth (year : Int) (month : Nat) : Nat :=
  if month = 2 then (if isLeapYear year then 29 else 28)
  else if month = 4 ∨ month = 6 ∨ month = 9 ∨ month = 11 then 30
  else 31

/-- A year, a month from 1 and a day of the month from 1. -/
structure Day where
  year : Int
  month : Nat
  day : Nat
deriving DecidableEq, Repr

/-- The triple names a day of the calendar. -/
def Day.IsValid (d : Day) : Prop :=
  1 ≤ d.month ∧ d.month ≤ 12 ∧ 1 ≤ d.day ∧ d.day ≤ daysInMonth d.year d.month

instance (d : Day) : Decidable d.IsValid := inferInstanceAs (Decidable (_ ∧ _ ∧ _ ∧ _))

/-! ## Years of an era and months of a year -/

/-- The days of an era before one of its years. -/
def daysBeforeYear (year : Nat) : Nat := year * 365 + year / 4 - year / 100

/-- The year of an era that a day of the era belongs to. The last of the four centuries and the
last year of a leap cycle have a day more than the others. -/
def yearOfDay (day : Nat) : Nat :=
  let century := min (day / 36524) 3
  let dayOfCentury := day - century * 36524
  century * 100 + dayOfCentury / 1461 * 4 + min (dayOfCentury % 1461 / 365) 3

/-- The days of a year before one of its months, counted from March. -/
def daysBeforeMonth (month : Nat) : Nat := (153 * month + 2) / 5

/-- The month, counted from March, that a day of the year belongs to. -/
def monthOfDay (day : Nat) : Nat := (5 * day + 2) / 153

/-- A day of an era by its century, its cycle of four years, its year in the cycle and its day. Only
the last year of a cycle can have 366 days, and that of the last cycle only in the last century. -/
theorem exists_yearOfDay_eq {day : Nat} (h : day < 146097) :
    ∃ century cycle year rest, yearOfDay day = century * 100 + cycle * 4 + year ∧
      day = century * 36524 + cycle * 1461 + year * 365 + rest ∧ century ≤ 3 ∧ cycle ≤ 24 ∧
      year ≤ 3 ∧ rest ≤ 365 ∧ (rest = 365 → year = 3 ∧ (cycle = 24 → century = 3)) := by
  simp only [yearOfDay]
  have hcentury : min (day / 36524) 3 ≤ 3 ∧ min (day / 36524) 3 * 36524 ≤ day ∧
      day - min (day / 36524) 3 * 36524 ≤ 36524 ∧
      (min (day / 36524) 3 < 3 → day - min (day / 36524) 3 * 36524 < 36524) := by omega
  generalize min (day / 36524) 3 = century at *
  obtain ⟨dayOfCentury, rfl⟩ : ∃ d, day = century * 36524 + d := ⟨day - century * 36524, by omega⟩
  rw [Nat.add_sub_cancel_left] at *
  have hcycle : dayOfCentury / 1461 * 1461 + dayOfCentury % 1461 = dayOfCentury ∧
      dayOfCentury % 1461 < 1461 ∧ dayOfCentury / 1461 ≤ 24 := by omega
  generalize dayOfCentury / 1461 = cycle at *
  generalize dayOfCentury % 1461 = dayOfCycle at *
  have hyear : min (dayOfCycle / 365) 3 ≤ 3 ∧ min (dayOfCycle / 365) 3 * 365 ≤ dayOfCycle ∧
      dayOfCycle ≤ min (dayOfCycle / 365) 3 * 365 + 365 ∧
      (min (dayOfCycle / 365) 3 < 3 → dayOfCycle < min (dayOfCycle / 365) 3 * 365 + 365) := by
    omega
  generalize min (dayOfCycle / 365) 3 = year at *
  obtain ⟨rest, rfl⟩ : ∃ r, dayOfCycle = year * 365 + r := ⟨dayOfCycle - year * 365, by omega⟩
  refine ⟨century, cycle, year, rest, rfl, by omega, hcentury.1, hcycle.2.2, hyear.1, by omega, ?_⟩
  intro hlast
  exact ⟨by omega, fun _ => by omega⟩

/-- The years before one of a cycle have 365 days each, the cycles before it a leap day each, and the
centuries before it one leap day less. -/
theorem daysBeforeYear_eq (century : Nat) {cycle year : Nat} (hcycle : cycle ≤ 24) (hyear : year ≤ 3) :
    daysBeforeYear (century * 100 + cycle * 4 + year) =
      century * 36524 + cycle * 1461 + year * 365 := by
  have hfour : (century * 100 + cycle * 4 + year) / 4 = century * 25 + cycle := by omega
  have hhundred : (century * 100 + cycle * 4 + year) / 100 = century := by omega
  simp only [daysBeforeYear]
  omega

/-- A day of an era belongs to the year that begins last before it. -/
theorem daysBeforeYear_yearOfDay {day : Nat} (h : day < 146097) :
    daysBeforeYear (yearOfDay day) ≤ day ∧ day < daysBeforeYear (yearOfDay day) + 366 ∧
      yearOfDay day < 400 := by
  obtain ⟨century, cycle, year, rest, hyearOfDay, hday, hcentury, hcycle, hyear, hrest, -⟩ :=
    exists_yearOfDay_eq h
  rw [hyearOfDay, daysBeforeYear_eq century hcycle hyear]
  omega

/-- A day of a year belongs to the month that begins last before it. -/
theorem daysBeforeMonth_monthOfDay {day : Nat} (h : day < 366) :
    daysBeforeMonth (monthOfDay day) ≤ day ∧ day < daysBeforeMonth (monthOfDay day + 1) ∧
      monthOfDay day < 12 := by
  simp only [daysBeforeMonth, monthOfDay]
  omega

/-! ## Numbers of days -/

/-- The days from 1970-01-01 to the day, negative before it. -/
def Day.number (d : Day) : Int :=
  let year := if d.month ≤ 2 then d.year - 1 else d.year
  let dayOfYear := daysBeforeMonth ((d.month + 9) % 12) + (d.day - 1)
  year / 400 * 146097 + (daysBeforeYear (year % 400).toNat + dayOfYear : Nat) - 719468

/-- The day with the given number. -/
def Day.ofNumber (n : Int) : Day :=
  let day := ((n + 719468) % 146097).toNat
  let yearOfEra := yearOfDay day
  let dayOfYear := day - daysBeforeYear yearOfEra
  let monthOfYear := monthOfDay dayOfYear
  let year := (n + 719468) / 146097 * 400 + yearOfEra
  let month := (monthOfYear + 2) % 12 + 1
  ⟨if month ≤ 2 then year + 1 else year, month, dayOfYear - daysBeforeMonth monthOfYear + 1⟩

theorem Day.number_of_march (era : Int) {year month : Nat} (day : Nat) (hyear : year < 400)
    (hmonth : month < 12) :
    Day.number ⟨if (month + 2) % 12 + 1 ≤ 2 then era * 400 + year + 1 else era * 400 + year,
        (month + 2) % 12 + 1, day + 1⟩ =
      era * 146097 + (daysBeforeYear year + (daysBeforeMonth month + day) : Nat) - 719468 := by
  have hif : (if (month + 2) % 12 + 1 ≤ 2 then
      (if (month + 2) % 12 + 1 ≤ 2 then era * 400 + (year : Int) + 1 else era * 400 + year) - 1
      else if (month + 2) % 12 + 1 ≤ 2 then era * 400 + (year : Int) + 1 else era * 400 + year)
      = era * 400 + year := by split <;> omega
  have hera : (era * 400 + (year : Int)) / 400 = era := by omega
  have hyear' : ((era * 400 + (year : Int)) % 400).toNat = year := by omega
  have hmonth' : ((month + 2) % 12 + 1 + 9) % 12 = month := by omega
  simp only [Day.number, hif, hera, hyear', hmonth', Nat.add_sub_cancel]

theorem Day.number_ofNumber (n : Int) : (Day.ofNumber n).number = n := by
  have hday : ((n + 719468) % 146097).toNat < 146097 := by omega
  have hn : (n + 719468) / 146097 * 146097 + (((n + 719468) % 146097).toNat : Int) = n + 719468 := by
    omega
  obtain ⟨hyear, hyear', hyear''⟩ := daysBeforeYear_yearOfDay hday
  have hrest : ((n + 719468) % 146097).toNat -
      daysBeforeYear (yearOfDay ((n + 719468) % 146097).toNat) < 366 := by omega
  obtain ⟨hmonth, -, hmonth'⟩ := daysBeforeMonth_monthOfDay hrest
  rw [Day.ofNumber, Day.number_of_march _ _ hyear'' hmonth']
  omega

end RecordQuery.Date
