/-!
# Civil dates

Dates of the Gregorian calendar, extended to all years without a gap at year
zero. A date is counted in four ways: by year, month and day, by year and day
of the year, by its number in the sequence of all days, and by year, ISO week
and weekday. Years run from -262143 to 262142.
-/

namespace DataPipeline.Calendar

/-- Whether a year has 366 days. -/
def isLeapYear (year : Int) : Bool :=
  year % 4 = 0 && (year % 100 ≠ 0 || year % 400 = 0)

/-- Number of days of a year. -/
def yearLength (year : Int) : Nat := if isLeapYear year then 366 else 365

/-- Number of days of a month, January being the first. -/
def monthLength (year : Int) (month : Nat) : Nat :=
  if month = 2 then (if isLeapYear year then 29 else 28)
  else if month = 4 ∨ month = 6 ∨ month = 9 ∨ month = 11 then 30
  else 31

/-- The first year with dates. -/
def firstYear : Int := -262143

/-- The last year with dates. -/
def lastYear : Int := 262142

/-- A date by year, month and day. -/
structure Date where
  /-- The year; year zero comes before year one. -/
  year : Int
  /-- The month, from 1 to 12. -/
  month : Nat
  /-- The day of the month, from 1. -/
  day : Nat
  /-- The year is one of those with dates. -/
  year_bounds : firstYear ≤ year ∧ year ≤ lastYear
  /-- The month is a month. -/
  month_bounds : 1 ≤ month ∧ month ≤ 12
  /-- The month has this day. -/
  day_bounds : 1 ≤ day ∧ day ≤ monthLength year month
  deriving DecidableEq

/-- The days of the week. -/
inductive Weekday
  | monday
  | tuesday
  | wednesday
  | thursday
  | friday
  | saturday
  | sunday
  deriving DecidableEq, Repr

namespace Weekday

/-- The days of the week from Monday on. -/
def all : List Weekday := [monday, tuesday, wednesday, thursday, friday, saturday, sunday]

/-- Number of days since Monday. -/
def fromMonday : Weekday → Nat
  | monday => 0
  | tuesday => 1
  | wednesday => 2
  | thursday => 3
  | friday => 4
  | saturday => 5
  | sunday => 6

/-- The weekday a number of days after a Monday. -/
def ofFromMonday (n : Nat) : Weekday := all.getD (n % 7) monday

/-- Number of days from one weekday to the next one of the given kind. -/
def daysSince (w start : Weekday) : Nat := (w.fromMonday + 7 - start.fromMonday) % 7

/-- Number of days since Sunday. -/
def fromSunday (w : Weekday) : Nat := w.daysSince sunday

theorem ofFromMonday_fromMonday (w : Weekday) : ofFromMonday w.fromMonday = w := by
  cases w <;> rfl

end Weekday

/-- Number of days of a year before the first of a month. -/
def daysBeforeMonth (year : Int) : (month : Nat) → Nat
  | 0 | 1 => 0
  | month + 2 => daysBeforeMonth year (month + 1) + monthLength year (month + 1)

/-- Number of the day before the first of January, the first day of year one
having number one. -/
def daysBeforeYear (year : Int) : Int :=
  365 * (year - 1) + (year - 1) / 4 - (year - 1) / 100 + (year - 1) / 400

/-- The weekday of the day with a number; the first day of year one is a
Monday. -/
def weekdayOfNumber (n : Int) : Weekday := .ofFromMonday ((n - 1) % 7).toNat

/-- The month and the day of the month for a day counted from the first of
the given months. -/
def splitOrdinal (year : Int) : (months : List Nat) → Nat → Option (Nat × Nat)
  | [], _ => none
  | month :: months, n =>
    if n ≤ monthLength year month then some (month, n)
    else splitOrdinal year months (n - monthLength year month)

/-- Number of ISO weeks of a year: 53 if it starts on a Thursday, or on a
Wednesday and is a leap year, else 52. -/
def isoWeekCount (year : Int) : Nat :=
  let first := weekdayOfNumber (daysBeforeYear year + 1)
  if first = .thursday ∨ (first = .wednesday ∧ isLeapYear year = true) then 53 else 52

/-- A week of the ISO calendar. -/
structure IsoWeek where
  /-- The year that has most days of the week. -/
  year : Int
  /-- The number of the week in that year, from 1. -/
  week : Nat
  deriving DecidableEq, Repr

namespace Date

/-- The date of a year, month and day, if there is one. -/
def ofCivil? (year : Int) (month day : Nat) : Option Date :=
  if h : (firstYear ≤ year ∧ year ≤ lastYear) ∧ (1 ≤ month ∧ month ≤ 12) ∧
      (1 ≤ day ∧ day ≤ monthLength year month) then
    some ⟨year, month, day, h.1, h.2.1, h.2.2⟩
  else none

theorem ofCivil?_self (d : Date) : ofCivil? d.year d.month d.day = some d := by
  simp [ofCivil?, d.year_bounds, d.month_bounds, d.day_bounds]

/-- The day of the year, from 1. -/
def ordinal (d : Date) : Nat := daysBeforeMonth d.year d.month + d.day

/-- The date of a day of a year. -/
def ofOrdinal? (year : Int) (ordinal : Nat) : Option Date :=
  match splitOrdinal year (List.range' 1 12) ordinal with
  | some (month, day) => ofCivil? year month day
  | none => none

/-- The number of a date in the sequence of all days. -/
def number (d : Date) : Int := daysBeforeYear d.year + d.ordinal

/-- The date with a number. A cycle of 400 years has 146097 days; within it
centuries, groups of four years and years follow each other. -/
def ofNumber? (n : Int) : Option Date :=
  let cycle := (n - 1) / 146097
  let inCycle := ((n - 1) % 146097).toNat
  let century := min (inCycle / 36524) 3
  let inCentury := inCycle - century * 36524
  let quad := inCentury / 1461
  let inQuad := inCentury - quad * 1461
  let single := min (inQuad / 365) 3
  let year := 400 * cycle + (100 * century + 4 * quad + single + 1 : Nat)
  ofOrdinal? year (inQuad - single * 365 + 1)

/-- The date a number of days later. -/
def addDays? (d : Date) (days : Int) : Option Date :=
  if days = 0 then some d else ofNumber? (d.number + days)

/-- The weekday of a date. -/
def weekday (d : Date) : Weekday := weekdayOfNumber d.number

/-- The quarter of a date, from 1 to 4. -/
def quarter (d : Date) : Nat := (d.month - 1) / 3 + 1

/-- Number of the week within the year, when weeks start on the given weekday
and days before the first such weekday are in week zero. -/
def weekFrom (start : Weekday) (d : Date) : Nat := (d.ordinal + 6 - d.weekday.daysSince start) / 7

/-- The ISO week of a date. -/
def isoWeek (d : Date) : IsoWeek :=
  let week := (d.ordinal + 9 - d.weekday.fromMonday) / 7
  if week = 0 then ⟨d.year - 1, isoWeekCount (d.year - 1)⟩
  else if isoWeekCount d.year < week then ⟨d.year + 1, 1⟩
  else ⟨d.year, week⟩

/-- The date of a weekday in an ISO week. The fourth of January is in the first
week of its year. -/
def ofIsoWeek? (year : Int) (week : Nat) (weekday : Weekday) : Option Date :=
  if week = 0 ∨ isoWeekCount year < week then none
  else
    let fourth := daysBeforeYear year + 4
    let firstMonday := fourth - (weekdayOfNumber fourth).fromMonday
    ofNumber? (firstMonday + 7 * (week - 1) + weekday.fromMonday)

/-- The date of a weekday in a week that is counted as in `weekFrom`; absent
for days outside the year. -/
def ofWeekFrom? (start : Weekday) (year : Int) (week : Nat) (weekday : Weekday) : Option Date :=
  let firstDay := weekdayOfNumber (daysBeforeYear year + 1)
  let weekStart : Int := 1 + start.daysSince firstDay + ((week : Int) - 1) * 7
  let ordinal := weekStart + weekday.daysSince start
  if ordinal ≤ 0 ∨ yearLength year < ordinal then none else ofOrdinal? year ordinal.toNat

end Date

end DataPipeline.Calendar
