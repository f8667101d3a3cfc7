import DataPipeline.Calendar.Names
import DataPipeline.Calendar.Rfc3339
import DataPipeline.DatePattern.Item

/-!
# Texts of dates by a pattern

An instant is written item by item in universal time. Patterns with an item
that does not exist, or that can only be read, write nothing.
-/

namespace DataPipeline.DatePattern

open Calendar Text

/-- A number filled up to a width; with `signed`, a sign is always written and
does not count. -/
def paddedNumber (padding : Padding) (width : Nat) (signed : Bool) (n : Int) : Text :=
  let sign := if n < 0 then ['-'] else if signed then ['+'] else []
  let digits := ofNat n.natAbs
  let missing := (if signed then width + 1 else width) - (sign.length + digits.length)
  match padding with
  | .none => sign ++ digits
  | .zero => sign ++ List.replicate missing '0' ++ digits
  | .space => List.replicate missing ' ' ++ sign ++ digits

/-- A year in at least four digits, with a sign outside 0 to 9999. -/
def paddedYear (padding : Padding) (year : Int) : Text :=
  paddedNumber padding 4 (year < 0 || 9999 < year) year

/-- A byte in two places. Tens above nine continue after the digits in the
order of characters. -/
def twoPlaces (padding : Padding) (n : Nat) : Text :=
  let ones := Char.ofNat ('0'.toNat + n % 10)
  match n / 10, padding with
  | 0, .none => [ones]
  | 0, .space => [' ', ones]
  | tens, _ => [Char.ofNat ('0'.toNat + tens), ones]

/-- The hour on a clock of twelve hours. -/
def clockHour (hour : Nat) : Nat := if hour % 12 = 0 then 12 else hour % 12

/-- A number of an instant. The century is written as one byte. -/
def numberText (i : Instant) (padding : Padding) : NumberField → Text
  | .year => paddedYear padding i.date.year
  | .century => twoPlaces padding (i.date.year / 100 % 256).toNat
  | .yearOfCentury => twoPlaces padding (i.date.year % 100).toNat
  | .isoYear => paddedYear padding i.date.isoWeek.year
  | .isoYearOfCentury => twoPlaces padding (i.date.isoWeek.year % 100).toNat
  | .quarter => ofNat i.date.quarter
  | .month => twoPlaces padding i.date.month
  | .day => twoPlaces padding i.date.day
  | .weekFromSunday => twoPlaces padding (i.date.weekFrom .sunday)
  | .weekFromMonday => twoPlaces padding (i.date.weekFrom .monday)
  | .isoWeek => twoPlaces padding i.date.isoWeek.week
  | .daysFromSunday => ofNat i.date.weekday.fromSunday
  | .weekdayFromMonday => ofNat (i.date.weekday.fromMonday + 1)
  | .ordinal => paddedNumber padding 3 false i.date.ordinal
  | .hour => twoPlaces padding i.time.hour
  | .hour12 => twoPlaces padding (clockHour i.time.hour)
  | .minute => twoPlaces padding i.time.minute
  | .second => twoPlaces padding i.time.shownSecond
  | .nanosecond => paddedNumber padding 9 false i.time.shownNano
  | .timestamp => paddedNumber padding 9 false i.epochSecond

/-- Universal time as an offset. -/
def zeroOffset : OffsetStyle → Text
  | .plain => "+0000".toList
  | .colon => "+00:00".toList
  | .seconds => "+00:00:00".toList
  | .hours => "+00".toList

/-- The text of an item for an instant. -/
def Item.text? (i : Instant) : Item → Option Text
  | .literal t => some t
  | .blanks t => some t
  | .number field padding => some (numberText i padding field)
  | .monthName long =>
    let name := Calendar.monthName i.date.month
    some (if long then name else shortName name)
  | .weekdayName long =>
    let name := i.date.weekday.name
    some (if long then name else shortName name)
  | .meridiem upper =>
    some (match decide (12 ≤ i.time.hour), upper with
      | false, false => ['a', 'm']
      | false, true => ['A', 'M']
      | true, false => ['p', 'm']
      | true, true => ['P', 'M'])
  | .fraction => some (fractionGroups i.time.shownNano)
  | .fixedFraction digits true => some (fractionText digits i.time.shownNano)
  | .fixedFraction digits false => some ((fractionText digits i.time.shownNano).drop 1)
  | .zoneName => some "UTC".toList
  | .offset style => some (zeroOffset style)
  | .internetFormat => some (i.localText fractionGroups ++ zeroOffset .colon)
  | .lenientOffset => none
  | .invalid => none

/-- The text of an instant by a pattern. -/
def formatDate? (pattern : Text) (i : Instant) : Option Text :=
  ((items pattern).mapM (Item.text? i)).map List.flatten

end DataPipeline.DatePattern
