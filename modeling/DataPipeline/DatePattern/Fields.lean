import DataPipeline.Calendar.Date
import DataPipeline.DatePattern.Item
import DataPipeline.Numeric.Word

/-!
# Fields of a parsed date

Reading a text by a pattern collects what its items say in a record of fields.
A field that is given twice must get the same value twice. Values beyond the
range of a field are refused at once.
-/

namespace DataPipeline.DatePattern

open Calendar

/-- Why a text gives no date. -/
inductive DateError
  | outOfRange
  | impossible
  | notEnough
  | invalid
  | tooShort
  | tooLong
  | badPattern
  deriving DecidableEq, Repr

/-- The wording of an error. -/
def DateError.message : DateError → String
  | outOfRange => "input is out of range"
  | impossible => "no possible date and time matching input"
  | notEnough => "input is not enough for unique date and time"
  | invalid => "input contains invalid characters"
  | tooShort => "premature end of input"
  | tooLong => "trailing input"
  | badPattern => "bad or unsupported format string"

/-- What the items of a pattern have said so far. -/
structure Fields where
  year : Option Int := none
  century : Option Int := none
  yearOfCentury : Option Int := none
  isoYear : Option Int := none
  isoYearOfCentury : Option Int := none
  quarter : Option Nat := none
  month : Option Nat := none
  day : Option Nat := none
  weekFromSunday : Option Nat := none
  weekFromMonday : Option Nat := none
  isoWeek : Option Nat := none
  weekday : Option Weekday := none
  ordinal : Option Nat := none
  /-- Whether the hour is one of the second half of the day. -/
  afternoon : Option Bool := none
  /-- The hour within its half of the day, from 0 to 11. -/
  hour : Option Nat := none
  minute : Option Nat := none
  /-- The second, 60 for a leap second. -/
  second : Option Nat := none
  nanosecond : Option Nat := none
  /-- Seconds since the start of 1970. -/
  timestamp : Option Int := none
  /-- Seconds east of universal time. -/
  offset : Option Int := none
  deriving DecidableEq

/-- A field with a value, unless it already has another one. -/
def agree {α : Type} [DecidableEq α] (old : Option α) (value : α) : Except DateError (Option α) :=
  match old with
  | some earlier => if earlier = value then .ok old else .error .impossible
  | none => .ok (some value)

/-- A value within bounds, as a natural number. -/
def bounded (low high : Nat) (value : Int) : Except DateError Nat :=
  if (low : Int) ≤ value ∧ value ≤ high then .ok value.toNat else .error .outOfRange

/-- A value that fits 32 bits with its sign. -/
def bounded32 (value : Int) : Except DateError Int :=
  if Numeric.fitsSigned 32 value then .ok value else .error .outOfRange

namespace Fields

/-- Adds the half of the day. -/
def putAfternoon (f : Fields) (value : Bool) : Except DateError Fields := do
  return { f with afternoon := ← agree f.afternoon value }

/-- Adds an hour of the half day, of which twelve is the start. -/
def putHour12 (f : Fields) (value : Int) : Except DateError Fields := do
  return { f with hour := ← agree f.hour ((← bounded 1 12 value) % 12) }

/-- Adds an hour of the whole day. -/
def putHour (f : Fields) (value : Int) : Except DateError Fields := do
  let hour ← bounded 0 23 value
  let f ← f.putAfternoon (12 ≤ hour)
  return { f with hour := ← agree f.hour (hour % 12) }

/-- Adds a weekday. -/
def putWeekday (f : Fields) (value : Weekday) : Except DateError Fields := do
  return { f with weekday := ← agree f.weekday value }

/-- Adds a year. -/
def putYear (f : Fields) (value : Int) : Except DateError Fields := do
  return { f with year := ← agree f.year (← bounded32 value) }

/-- Adds a day of the year. -/
def putOrdinal (f : Fields) (value : Int) : Except DateError Fields := do
  return { f with ordinal := ← agree f.ordinal (← bounded 1 366 value) }

/-- Adds a month. -/
def putMonth (f : Fields) (value : Int) : Except DateError Fields := do
  return { f with month := ← agree f.month (← bounded 1 12 value) }

/-- Adds a minute. -/
def putMinute (f : Fields) (value : Int) : Except DateError Fields := do
  return { f with minute := ← agree f.minute (← bounded 0 59 value) }

/-- Adds a second. -/
def putSecond (f : Fields) (value : Int) : Except DateError Fields := do
  return { f with second := ← agree f.second (← bounded 0 60 value) }

/-- Adds nanoseconds. -/
def putNanosecond (f : Fields) (value : Int) : Except DateError Fields := do
  return { f with nanosecond := ← agree f.nanosecond (← bounded 0 999999999 value) }

/-- Adds an offset in seconds. -/
def putOffset (f : Fields) (value : Int) : Except DateError Fields := do
  return { f with offset := ← agree f.offset (← bounded32 value) }

/-- Adds the value of a number item. -/
def putNumber (f : Fields) (field : NumberField) (value : Int) : Except DateError Fields :=
  match field with
  | .year => f.putYear value
  | .century => do
    return { f with century := ← agree f.century (Int.ofNat (← bounded 0 2147483647 value)) }
  | .yearOfCentury => do
    return { f with yearOfCentury := ← agree f.yearOfCentury (Int.ofNat (← bounded 0 99 value)) }
  | .isoYear => do return { f with isoYear := ← agree f.isoYear (← bounded32 value) }
  | .isoYearOfCentury => do
    return { f with
      isoYearOfCentury := ← agree f.isoYearOfCentury (Int.ofNat (← bounded 0 99 value)) }
  | .quarter => do return { f with quarter := ← agree f.quarter (← bounded 1 4 value) }
  | .month => f.putMonth value
  | .day => do return { f with day := ← agree f.day (← bounded 1 31 value) }
  | .weekFromSunday => do
    return { f with weekFromSunday := ← agree f.weekFromSunday (← bounded 0 53 value) }
  | .weekFromMonday => do
    return { f with weekFromMonday := ← agree f.weekFromMonday (← bounded 0 53 value) }
  | .isoWeek => do return { f with isoWeek := ← agree f.isoWeek (← bounded 1 53 value) }
  | .daysFromSunday => do
    let days ← bounded 0 6 value
    f.putWeekday (.ofFromMonday (days + 6))
  | .weekdayFromMonday => do
    let days ← bounded 1 7 value
    f.putWeekday (.ofFromMonday (days - 1))
  | .ordinal => f.putOrdinal value
  | .hour => f.putHour value
  | .hour12 => f.putHour12 value
  | .minute => f.putMinute value
  | .second => f.putSecond value
  | .nanosecond => f.putNanosecond value
  | .timestamp => do return { f with timestamp := ← agree f.timestamp value }

end Fields

end DataPipeline.DatePattern
