import DataPipeline.Calendar.Date
import DataPipeline.Text.Digits

/-!
# Instants

A time of day has nanoseconds; during a leap second they run on from one
thousand million, so that the sixtieth second of a minute is kept apart from
the one before it. Times of day whose leap second follows another second are
kept as they are, but none is made from parts. An instant is a date and a time
of day in universal time.
-/

namespace DataPipeline.Calendar

/-- A time of day. -/
structure TimeOfDay where
  /-- The hour, from 0 to 23. -/
  hour : Nat
  /-- The minute, from 0 to 59. -/
  minute : Nat
  /-- The second, from 0 to 59. -/
  second : Nat
  /-- Nanoseconds since the start of the second, a leap second included. -/
  nano : Nat
  /-- The hour is an hour. -/
  hour_lt : hour < 24
  /-- The minute is a minute. -/
  minute_lt : minute < 60
  /-- The second is a second. -/
  second_lt : second < 60
  /-- At most two seconds pass. -/
  nano_lt : nano < 2000000000
  deriving DecidableEq

namespace TimeOfDay

/-- A leap second follows the last second of its minute. -/
def IsCivil (t : TimeOfDay) : Prop := 1000000000 ≤ t.nano → t.second = 59

instance (t : TimeOfDay) : Decidable t.IsCivil :=
  inferInstanceAs (Decidable (1000000000 ≤ t.nano → t.second = 59))

/-- The time of day with the given parts, if there is one. A leap second is only
taken behind the last second of a minute. -/
def ofParts? (hour minute second nano : Nat) : Option TimeOfDay :=
  if h : hour < 24 ∧ minute < 60 ∧ second < 60 ∧ nano < 2000000000 ∧
      (1000000000 ≤ nano → second = 59) then
    some ⟨hour, minute, second, nano, h.1, h.2.1, h.2.2.1, h.2.2.2.1⟩
  else none

/-- A time of day is made from its parts if a leap second ends its minute. -/
theorem ofParts?_self {t : TimeOfDay} (h : t.IsCivil) :
    ofParts? t.hour t.minute t.second t.nano = some t :=
  dif_pos ⟨t.hour_lt, t.minute_lt, t.second_lt, t.nano_lt, h⟩

/-- The start of the day. -/
def midnight : TimeOfDay :=
  ⟨0, 0, 0, 0, by decide, by decide, by decide, by decide⟩

/-- Number of whole seconds since midnight. -/
def secondOfDay (t : TimeOfDay) : Nat := (t.hour * 60 + t.minute) * 60 + t.second

/-- The time of day a number of seconds after midnight. -/
def ofSecondOfDay? (seconds nano : Nat) : Option TimeOfDay :=
  ofParts? (seconds / 3600) (seconds / 60 % 60) (seconds % 60) nano

/-- The time of day moved to another second of the day, with its nanoseconds as
they are. -/
def moveTo (t : TimeOfDay) (seconds : Nat) : TimeOfDay where
  hour := seconds / 3600 % 24
  minute := seconds / 60 % 60
  second := seconds % 60
  nano := t.nano
  hour_lt := Nat.mod_lt _ (by decide)
  minute_lt := Nat.mod_lt _ (by decide)
  second_lt := Nat.mod_lt _ (by decide)
  nano_lt := t.nano_lt

/-- The second as a clock shows it: 60 during the leap second of a minute. -/
def shownSecond (t : TimeOfDay) : Nat := t.second + t.nano / 1000000000

/-- Nanoseconds as a clock shows them. -/
def shownNano (t : TimeOfDay) : Nat := t.nano % 1000000000

end TimeOfDay

/-- A date and a time of day in universal time. -/
structure Instant where
  /-- The date. -/
  date : Date
  /-- The time of day. -/
  time : TimeOfDay
  deriving DecidableEq

namespace Instant

/-- The number of the first of January 1970. -/
def epochNumber : Int := 719163

/-- Whole seconds since the start of 1970; a leap second counts as the second
before it. -/
def epochSecond (i : Instant) : Int :=
  (i.date.number - epochNumber) * 86400 + i.time.secondOfDay

/-- The instant a number of seconds after the start of 1970. -/
def ofEpoch? (second : Int) (nano : Nat) : Option Instant := do
  let date ← Date.ofNumber? (second / 86400 + epochNumber)
  let time ← TimeOfDay.ofSecondOfDay? (second % 86400).toNat nano
  return ⟨date, time⟩

/-- The instant a number of milliseconds after the start of 1970. -/
def ofEpochMilli? (milli : Int) : Option Instant :=
  ofEpoch? (milli / 1000) ((milli % 1000).toNat * 1000000)

/-- The instant whose clock at the given offset east of universal time, in
seconds, shows the given date and time. -/
def ofLocal? (date : Date) (time : TimeOfDay) (offset : Int) : Option Instant := do
  let second := (time.secondOfDay : Int) - offset
  let date ← date.addDays? (second / 86400)
  return ⟨date, time.moveTo (second % 86400).toNat⟩

end Instant

end DataPipeline.Calendar
