import DataPipeline.Calendar.Instant
import DataPipeline.DatePattern.Fields

/-!
# Resolving fields to dates and times

A date is found from the first complete combination of fields: year, month and
day; year and day of the year; year, week and weekday; ISO year, week and
weekday. The other fields must then agree with it. A time needs an hour and a
minute. A timestamp can stand in for a missing date or time.
-/

namespace DataPipeline.DatePattern

open Calendar

/-- A year from its full number, its century and its number within the
century. Two digits alone mean the years from 1970 to 2069. -/
def resolveYear (full century short : Option Int) : Except DateError (Option Int) :=
  match full, century, short with
  | full, none, none => .ok full
  | some y, century, short =>
    if 0 ≤ y ∧ century.getD (y / 100) = y / 100 ∧ short.getD (y % 100) = y % 100 then .ok (some y)
    else .error .impossible
  | none, some c, some s => (bounded32 (c * 100 + s)).map some
  | none, none, some s => .ok (some (s + if s < 70 then 2000 else 1900))
  | none, some _, none => .error .notEnough

/-- Whether a field that may be absent has the given value. -/
def agrees {α : Type} [DecidableEq α] (field : Option α) (value : α) : Bool :=
  field.getD value = value

/-- Whether the century and the number within it fit a year. Years before year
zero have neither. -/
def fitsYearParts (century short : Option Int) (year : Int) : Bool :=
  if 0 ≤ year then agrees century (year / 100) && agrees short (year % 100)
  else century.isNone && short.isNone

namespace Fields

/-- Whether year, month and day fit a date. -/
def fitsCivil (f : Fields) (d : Date) : Bool :=
  agrees f.year d.year && fitsYearParts f.century f.yearOfCentury d.year &&
    agrees f.month d.month && agrees f.day d.day

/-- Whether ISO year, ISO week and weekday fit a date. -/
def fitsIsoWeek (f : Fields) (d : Date) : Bool :=
  agrees f.isoYear d.isoWeek.year && fitsYearParts none f.isoYearOfCentury d.isoWeek.year &&
    agrees f.isoWeek d.isoWeek.week && agrees f.weekday d.weekday

/-- Whether the day of the year and the weeks of the year fit a date. -/
def fitsOrdinal (f : Fields) (d : Date) : Bool :=
  agrees f.ordinal d.ordinal && agrees f.weekFromSunday (d.weekFrom .sunday) &&
    agrees f.weekFromMonday (d.weekFrom .monday)

/-- The date of a weekday in a week of a year. -/
def weekDate (start : Weekday) (year : Int) (week : Nat) (weekday : Weekday) :
    Except DateError Date :=
  if year < firstYear ∨ lastYear < year then .error .outOfRange
  else (Date.ofWeekFrom? start year week weekday).elim (.error .impossible) .ok

/-- A date if it exists and the remaining fields fit it. -/
def verified (date : Option Date) (fits : Date → Bool) : Except DateError Date :=
  match date with
  | none => .error .outOfRange
  | some d => if fits d then .ok d else .error .impossible

/-- The date that the fields give. -/
def date (f : Fields) : Except DateError Date := do
  let year ← resolveYear f.year f.century f.yearOfCentury
  let isoYear ← resolveYear f.isoYear none f.isoYearOfCentury
  let fitsQuarter (d : Date) := agrees f.quarter d.quarter
  let fitsAll (d : Date) := f.fitsCivil d && f.fitsIsoWeek d && f.fitsOrdinal d && fitsQuarter d
  match year, f.month, f.day, f.ordinal, f.weekFromSunday, f.weekFromMonday, f.weekday, isoYear,
      f.isoWeek with
  | some y, some m, some d, _, _, _, _, _, _ =>
    verified (Date.ofCivil? y m d) fun d => f.fitsIsoWeek d && f.fitsOrdinal d && fitsQuarter d
  | some y, _, _, some n, _, _, _, _, _ => verified (Date.ofOrdinal? y n) fitsAll
  | some y, _, _, _, some w, _, some wd, _, _ =>
    verified (some (← weekDate .sunday y w wd)) fitsAll
  | some y, _, _, _, _, some w, some wd, _, _ =>
    verified (some (← weekDate .monday y w wd)) fitsAll
  | _, _, _, _, _, _, some wd, some y, some w =>
    verified (Date.ofIsoWeek? y w wd) fun d => f.fitsCivil d && f.fitsOrdinal d && fitsQuarter d
  | _, _, _, _, _, _, _, _, _ => .error .notEnough

/-- The time of day that the fields give. Seconds may be missing, but not if
there are nanoseconds; second 60 is the leap second after second 59. -/
def time (f : Fields) : Except DateError TimeOfDay := do
  match f.afternoon, f.hour, f.minute with
  | some afternoon, some hour, some minute =>
    if f.second.isNone ∧ f.nanosecond.isSome then .error .notEnough
    let (second, leap) := match f.second with
      | some 60 => (59, 1000000000)
      | some s => (s, 0)
      | none => (0, 0)
    let hour := if afternoon then hour + 12 else hour
    (TimeOfDay.ofParts? hour minute second (leap + f.nanosecond.getD 0)).elim
      (.error .outOfRange) .ok
  | _, _, _ => .error .notEnough

/-- Whether a result is the given error. -/
def failsWith {α : Type} (e : DateError) : Except DateError α → Bool
  | .error found => found = e
  | .ok _ => false

/-- The fields with the ones added that a timestamp gives, read at an offset.
A leap second is reached from the second before it or from the one after. -/
def withTimestamp (f : Fields) (timestamp offset : Int) : Except DateError Fields := do
  let found ← (Instant.ofEpoch? (timestamp + offset) 0).elim (.error .outOfRange) .ok
  let i ← if f.second = some 60 ∧ found.time.second = 0 then
      (Instant.ofEpoch? (timestamp + offset - 1) 0).elim (.error .outOfRange) .ok
    else pure found
  let f ← if f.second = some 60 then
      if i.time.second = 59 then pure f else .error .impossible
    else f.putSecond i.time.second
  let f ← f.putYear i.date.year
  let f ← f.putOrdinal i.date.ordinal
  let f ← f.putHour i.time.hour
  f.putMinute i.time.minute

/-- The date and the time that the fields give on a clock at an offset. -/
def dateAndTime (f : Fields) (offset : Int) : Except DateError (Date × TimeOfDay) :=
  match f.date, f.time, f.timestamp with
  | .ok date, .ok time, none => .ok (date, time)
  | .ok date, .ok time, some timestamp =>
    let expected := (Instant.mk date time).epochSecond - offset
    if timestamp = expected ∨ (1000000000 ≤ time.nano ∧ timestamp = expected + 1) then
      .ok (date, time)
    else .error .impossible
  | date, time, some timestamp => do
    if failsWith .outOfRange date || failsWith .outOfRange time then .error .outOfRange
    if failsWith .impossible date || failsWith .impossible time then .error .impossible
    let f ← f.withTimestamp timestamp offset
    return (← f.date, ← f.time)
  | .error e, _, none => .error e
  | _, .error e, none => .error e

/-- The instant of fields with an offset or a timestamp, which is in universal
time. -/
def zonedInstant (f : Fields) : Except DateError Instant := do
  let offset ← match f.offset, f.timestamp with
    | some offset, _ => .ok offset
    | none, some _ => .ok 0
    | none, none => .error .notEnough
  let (date, time) ← f.dateAndTime offset
  if offset ≤ -86400 ∨ 86400 ≤ offset then .error .outOfRange
  (Instant.ofLocal? date time offset).elim (.error .impossible) .ok

/-- The instant of fields read as universal time, whatever their offset. -/
def plainInstant (f : Fields) : Except DateError Instant := do
  let (date, time) ← f.dateAndTime 0
  return ⟨date, time⟩

/-- The start of the day that the fields give. -/
def midnight (f : Fields) : Except DateError Instant := do
  return ⟨← f.date, .midnight⟩

end Fields

end DataPipeline.DatePattern
