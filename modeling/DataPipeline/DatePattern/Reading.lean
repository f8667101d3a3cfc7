import DataPipeline.Calendar.Names
import DataPipeline.DatePattern.Fields
import DataPipeline.Text.Digits

/-!
# Reading a text by a pattern

The items of a pattern are matched against a text from left to right. Each
item takes characters from the front of the rest and may add to the fields. A
text that ends too early is told from one with wrong characters by its length
in bytes.
-/

namespace DataPipeline.DatePattern

open Calendar Text

/-- The number in a run of at most `limit` digits. It must fit 64 bits. -/
def takeNumber (limit : Option Nat) (t : Text) : Except DateError (Nat × Text) :=
  let run := (match limit with | some n => t.take n | none => t).takeWhile Char.isDigit
  if t = [] then .error .tooShort
  else if run = [] then .error .invalid
  else if !Numeric.fitsSigned 64 (ofDigits 10 run) then .error .outOfRange
  else .ok (ofDigits 10 run, t.drop run.length)

/-- The number in exactly so many digits. -/
def takeDigits (count : Nat) (t : Text) : Except DateError (Nat × Text) :=
  if byteSize t < count then .error .tooShort
  else if (t.take count).all Char.isDigit && (t.take count).length = count then
    .ok (ofDigits 10 (t.take count), t.drop count)
  else .error .invalid

/-- The number of digits that a number item takes at most without a sign. -/
def numberWidth : NumberField → Option Nat
  | .year | .isoYear => some 4
  | .quarter | .daysFromSunday | .weekdayFromMonday => some 1
  | .ordinal => some 3
  | .nanosecond => some 9
  | .timestamp => none
  | _ => some 2

/-- Whether a number item may have a sign. -/
def mayHaveSign : NumberField → Bool
  | .year | .isoYear => true
  | _ => false

/-- The value of a number item. Blanks before it are skipped, and a sign lifts
the limit on its digits. -/
def takeNumberItem (field : NumberField) (t : Text) : Except DateError (Int × Text) := do
  match mayHaveSign field, trimStart t with
  | true, '-' :: rest =>
    let (n, rest) ← takeNumber none rest
    return (-(n : Int), rest)
  | true, '+' :: rest =>
    let (n, rest) ← takeNumber none rest
    return ((n : Int), rest)
  | _, rest =>
    let (n, rest) ← takeNumber (numberWidth field) rest
    return ((n : Int), rest)

/-- The index of the name at the front of a text, by its first three letters in
either case. With `long`, the rest of the name is taken too if it follows. -/
def takeName (names : List Text) (long : Bool) (t : Text) : Except DateError (Nat × Text) :=
  if byteSize t < 3 then .error .tooShort
  else
    match names.findIdx? fun name => asciiLower (shortName name) = asciiLower (t.take 3) with
    | none => .error .invalid
    | some index =>
      let ending := (names.getD index []).drop 3
      let rest := t.drop 3
      if long && asciiLower (rest.take ending.length) = asciiLower ending then
        .ok (index, rest.drop ending.length)
      else .ok (index, rest)

/-- Morning or afternoon. -/
def takeMeridiem (t : Text) : Except DateError (Bool × Text) :=
  if byteSize t < 2 then .error .tooShort
  else if asciiLower (t.take 2) = ['a', 'm'] then .ok (false, t.drop 2)
  else if asciiLower (t.take 2) = ['p', 'm'] then .ok (true, t.drop 2)
  else .error .invalid

/-- Nanoseconds in one or more digits, of which those past the ninth are
dropped. -/
def takeFraction (t : Text) : Except DateError (Nat × Text) := do
  let (n, rest) ← takeNumber (some 9) t
  let count := t.length - rest.length
  return (n * Nat.pow 10 (9 - count), rest.dropWhile Char.isDigit)

/-- Nanoseconds in exactly so many digits. -/
def takeFixedFraction (count : Nat) (t : Text) : Except DateError (Nat × Text) := do
  let (n, rest) ← takeDigits count t
  return (n * Nat.pow 10 (9 - count), rest)

/-- Two digits at the front of a text. -/
def takePair (t : Text) : Except DateError ((Nat × Nat) × Text) :=
  if byteSize t < 2 then .error .tooShort
  else
    match t with
    | a :: b :: rest =>
      if a.isDigit && b.isDigit then .ok ((digitValue a, digitValue b), rest) else .error .invalid
    | _ => .error .invalid

/-- The sign of an offset, true for `-`. -/
def takeOffsetSign : Text → Except DateError (Bool × Text)
  | [] => .error .tooShort
  | c :: rest =>
    if c = '+' then .ok (false, rest)
    else if c = '-' || c = '\u2212' then .ok (true, rest)
    else .error .invalid

/-- The minutes of an offset; with `lenient` they may be missing at the end of
the text. -/
def takeOffsetMinutes (lenient : Bool) (t : Text) : Except DateError (Nat × Text) :=
  if lenient && t = [] then .ok (0, [])
  else do
    let ((tens, ones), rest) ← takePair t
    if 6 ≤ tens then .error .outOfRange
    return (tens * 10 + ones, rest)

/-- An offset in seconds: hours and minutes with a sign, with any colons and
blanks between them, or `Z` if that is allowed. -/
def takeOffset (zulu lenient : Bool) (t : Text) : Except DateError (Int × Text) := do
  if zulu && (t.head? = some 'Z' || t.head? = some 'z') then return (0, t.drop 1)
  let (negative, t) ← takeOffsetSign t
  let ((tens, ones), t) ← takePair t
  let (minutes, t) ← takeOffsetMinutes lenient (t.dropWhile fun c => c = ':' || isBlank c)
  let seconds : Int := ((tens * 10 + ones) * 60 + minutes) * 60
  return (if negative then -seconds else seconds, t)

/-- The rest of a text after a literal. -/
def takeLiteral (literal t : Text) : Except DateError Text :=
  if byteSize t < byteSize literal then .error .tooShort
  else (dropStart? literal t).elim (.error .invalid) .ok

/-- The fields and the rest of the text after an item other than
`Item.internetFormat`. -/
def takeItem (state : Fields × Text) : Item → Except DateError (Fields × Text)
  | .literal literal => do return (state.1, ← takeLiteral literal state.2)
  | .blanks _ => return (state.1, trimStart state.2)
  | .number field _ => do
    let (value, rest) ← takeNumberItem field state.2
    return (← state.1.putNumber field value, rest)
  | .monthName long => do
    let (index, rest) ← takeName monthNames long state.2
    return (← state.1.putMonth (index + 1), rest)
  | .weekdayName long => do
    let (index, rest) ← takeName weekdayNames long state.2
    return (← state.1.putWeekday (.ofFromMonday index), rest)
  | .meridiem _ => do
    let (afternoon, rest) ← takeMeridiem state.2
    return (← state.1.putAfternoon afternoon, rest)
  | .fraction =>
    match state.2 with
    | '.' :: rest => do
      let (nano, rest) ← takeFraction rest
      return (← state.1.putNanosecond nano, rest)
    | _ => return state
  | .fixedFraction count true =>
    match state.2 with
    | '.' :: rest => do
      let (nano, rest) ← takeFixedFraction count rest
      return (← state.1.putNanosecond nano, rest)
    | _ => return state
  | .fixedFraction count false => do
    let (nano, rest) ← takeFixedFraction count state.2
    return (← state.1.putNanosecond nano, rest)
  | .zoneName => return (state.1, state.2.dropWhile fun c => !isBlank c)
  | .offset _ => do
    let (seconds, rest) ← takeOffset false false (trimStart state.2)
    return (← state.1.putOffset seconds, rest)
  | .lenientOffset => do
    let (seconds, rest) ← takeOffset true true (trimStart state.2)
    return (← state.1.putOffset seconds, rest)
  | .internetFormat | .invalid => .error .badPattern

/-- The date items of the internet format, with optional blanks. -/
def internetDate : List Item :=
  [Item.zeros .year, .blanks [], .literal ['-'], Item.zeros .month, .blanks [], .literal ['-'],
    Item.zeros .day]

/-- The time items of the internet format, with optional blanks. -/
def internetTime : List Item :=
  [Item.zeros .hour, .blanks [], .literal [':'], Item.zeros .minute, .blanks [], .literal [':'],
    Item.zeros .second, .fraction, .blanks []]

/-- The separator between date and time. -/
def takeTimeMark : Text → Except DateError Text
  | [] => .error .tooShort
  | c :: rest => if c = 'T' || c = 't' || c = ' ' then .ok rest else .error .invalid

/-- Date, time and offset in the internet format; `UTC` may stand for the
offset. -/
def takeInternetFormat (state : Fields × Text) : Except DateError (Fields × Text) := do
  let (fields, rest) ← internetDate.foldlM takeItem state
  let (fields, rest) ← internetTime.foldlM takeItem (fields, ← takeTimeMark rest)
  let rest := trimStart rest
  let (seconds, rest) ←
    if asciiLower (rest.take 3) = ['u', 't', 'c'] then pure (0, rest.drop 3)
    else takeOffset true false rest
  return (← fields.putOffset seconds, rest)

/-- The fields and the rest of the text after an item. -/
def takeAnyItem (state : Fields × Text) (item : Item) : Except DateError (Fields × Text) :=
  match item with
  | .internetFormat => takeInternetFormat state
  | item => takeItem state item

/-- The fields that a whole text gives by the items of a pattern. -/
def readFields (items : List Item) (t : Text) : Except DateError Fields := do
  let (fields, rest) ← items.foldlM takeAnyItem ({}, t)
  if rest = [] then return fields else .error .tooLong

end DataPipeline.DatePattern
