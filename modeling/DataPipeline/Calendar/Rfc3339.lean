import DataPipeline.Calendar.Instant
import DataPipeline.Numeric.FloatLiteral

/-!
# Dates in the internet format

Instants are written as date, `T`, time and `Z`, with a chosen number of
digits after the second. Years outside 0 to 9999 have a sign. Reading takes
four-digit years and any offset below a day, and is lenient only in the case of
the letters and in a blank for `T`.
-/

namespace DataPipeline.Calendar

open Text

/-- A year in four digits, or with a sign and at least four digits. -/
def yearText (year : Int) : Text :=
  if 0 ≤ year ∧ year ≤ 9999 then ofNatPadded 4 year.natAbs
  else (if year < 0 then '-' else '+') :: ofNatPadded 4 year.natAbs

/-- A point and the given number of leading digits of nine. -/
def fractionText (digits nano : Nat) : Text :=
  '.' :: ofNatPadded digits (nano / Nat.pow 10 (9 - digits))

/-- A point and as many groups of three digits as needed; nothing for zero. -/
def fractionGroups (nano : Nat) : Text :=
  if nano = 0 then []
  else if nano % 1000000 = 0 then fractionText 3 nano
  else if nano % 1000 = 0 then fractionText 6 nano
  else fractionText 9 nano

/-- Year, month and day. -/
def Date.text (d : Date) : Text :=
  yearText d.year ++ '-' :: ofNatPadded 2 d.month ++ '-' :: ofNatPadded 2 d.day

/-- Hour, minute and second, and the given digits after them. -/
def TimeOfDay.text (fraction : Nat → Text) (t : TimeOfDay) : Text :=
  ofNatPadded 2 t.hour ++ ':' :: ofNatPadded 2 t.minute ++ ':' :: ofNatPadded 2 t.shownSecond ++
    fraction t.shownNano

/-- Date and time without an offset. -/
def Instant.localText (fraction : Nat → Text) (i : Instant) : Text :=
  i.date.text ++ 'T' :: i.time.text fraction

/-- An instant with milliseconds; smaller parts are cut off. -/
def Instant.milliText (i : Instant) : Text := i.localText (fractionText 3) ++ ['Z']

/-- An instant with all its digits. -/
def Instant.fullText (i : Instant) : Text := i.localText fractionGroups ++ ['Z']

/-- The number in exactly so many digits at the front of a text. -/
def fixedDigits? (count : Nat) (t : Text) : Option (Nat × Text) :=
  if (t.take count).length = count then
    (natural? 10 (t.take count)).map fun n => (n, t.drop count)
  else none

/-- The rest of a text after one of the given characters. -/
def cutOneOf? (choices : List Char) : Text → Option Text
  | c :: rest => if choices.contains c then some rest else none
  | [] => none

/-- Nanoseconds after a point; digits past the ninth are dropped. -/
def cutFraction? : Text → Option (Nat × Text)
  | '.' :: rest =>
    let digits := rest.takeWhile Char.isDigit
    if digits = [] then none
    else some (ofDigits 10 ((digits ++ List.replicate 9 '0').take 9), rest.dropWhile Char.isDigit)
  | t => some (0, t)

/-- The offset in seconds that a text consists of: `Z` or hours and minutes
with a sign. -/
def wholeOffset? : Text → Option Int
  | ['Z'] | ['z'] => some 0
  | sign :: t => do
    let negative ← if sign = '+' then some false
      else if sign = '-' || sign = '\u2212' then some true else none
    let (hours, t) ← fixedDigits? 2 t
    let (minutes, t) ← fixedDigits? 2 (← cutOneOf? [':'] t)
    if t = [] ∧ hours < 24 ∧ minutes < 60 then
      let seconds : Int := (hours * 60 + minutes) * 60
      return if negative then -seconds else seconds
    else none
  | [] => none

/-- The instant that a text names. Second 60 is a leap second. -/
def Instant.ofRfc3339? (t : Text) : Option Instant := do
  let (year, t) ← fixedDigits? 4 t
  let (month, t) ← fixedDigits? 2 (← cutOneOf? ['-'] t)
  let (day, t) ← fixedDigits? 2 (← cutOneOf? ['-'] t)
  let (hour, t) ← fixedDigits? 2 (← cutOneOf? ['T', 't', ' '] t)
  let (minute, t) ← fixedDigits? 2 (← cutOneOf? [':'] t)
  let (second, t) ← fixedDigits? 2 (← cutOneOf? [':'] t)
  let (nano, t) ← cutFraction? t
  let offset ← wholeOffset? t
  let date ← Date.ofCivil? year month day
  let time ← if second = 60 then TimeOfDay.ofParts? hour minute 59 (1000000000 + nano)
    else TimeOfDay.ofParts? hour minute second nano
  Instant.ofLocal? date time offset

end DataPipeline.Calendar
