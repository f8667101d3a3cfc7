import DataPipeline.Text.Basic

/-!
# Items of a date pattern

A date pattern is a sequence of items: literal text, blanks, and conversions
that start with `%`. A conversion stands for a number, a name, a fraction of a
second or an offset; some letters abbreviate several items. A sign after `%`
changes the padding of a number when dates are written.
-/

namespace DataPipeline.DatePattern

/-- The numbers that a pattern can name. -/
inductive NumberField
  | year
  | century
  | yearOfCentury
  | isoYear
  | isoYearOfCentury
  | quarter
  | month
  | day
  | weekFromSunday
  | weekFromMonday
  | isoWeek
  | daysFromSunday
  | weekdayFromMonday
  | ordinal
  | hour
  | hour12
  | minute
  | second
  | nanosecond
  | timestamp
  deriving DecidableEq, Repr

/-- How a number is filled up to its width. -/
inductive Padding
  | none
  | zero
  | space
  deriving DecidableEq, Repr

/-- How much of an offset is written, and with which separators. -/
inductive OffsetStyle
  /-- Hours and minutes. -/
  | plain
  /-- Hours and minutes with a colon. -/
  | colon
  /-- Hours, minutes and seconds with colons. -/
  | seconds
  /-- Hours alone. -/
  | hours
  deriving DecidableEq, Repr

/-- One item of a pattern. -/
inductive Item
  | literal (t : Text)
  | blanks (t : Text)
  | number (field : NumberField) (padding : Padding)
  | monthName (long : Bool)
  | weekdayName (long : Bool)
  /-- Morning or afternoon. -/
  | meridiem (upper : Bool)
  /-- A point and as many digits as needed. -/
  | fraction
  /-- A fixed number of digits of a second, with a point before them or not. -/
  | fixedFraction (digits : Nat) (point : Bool)
  | zoneName
  | offset (style : OffsetStyle)
  /-- An offset that may lack its minutes; it can only be read. -/
  | lenientOffset
  /-- Date, time and offset in the internet format. -/
  | internetFormat
  /-- A conversion that does not exist. -/
  | invalid
  deriving DecidableEq, Repr

namespace Item

/-- A number filled with zeros. -/
def zeros (field : NumberField) : Item := .number field .zero

/-- A number filled with spaces. -/
def spaces (field : NumberField) : Item := .number field .space

/-- Month, day and short year with slashes. -/
def slashDate : List Item :=
  [zeros .month, .literal ['/'], zeros .day, .literal ['/'], zeros .yearOfCentury]

/-- Hour, minute and second with colons. -/
def clock : List Item :=
  [zeros .hour, .literal [':'], zeros .minute, .literal [':'], zeros .second]

/-- The items that a letter stands for; none if the letter needs more letters
after it or stands for nothing. -/
def ofLetter (c : Char) : List Item :=
  match c with
  | 'A' => [.weekdayName true]
  | 'B' => [.monthName true]
  | 'C' => [zeros .century]
  | 'D' => slashDate
  | 'F' => [zeros .year, .literal ['-'], zeros .month, .literal ['-'], zeros .day]
  | 'G' => [zeros .isoYear]
  | 'H' => [zeros .hour]
  | 'I' => [zeros .hour12]
  | 'M' => [zeros .minute]
  | 'P' => [.meridiem false]
  | 'R' => [zeros .hour, .literal [':'], zeros .minute]
  | 'S' => [zeros .second]
  | 'T' => clock
  | 'U' => [zeros .weekFromSunday]
  | 'V' => [zeros .isoWeek]
  | 'W' => [zeros .weekFromMonday]
  | 'X' => clock
  | 'Y' => [zeros .year]
  | 'Z' => [.zoneName]
  | 'a' => [.weekdayName false]
  | 'b' => [.monthName false]
  | 'c' =>
    [.weekdayName false, .blanks [' '], .monthName false, .blanks [' '], spaces .day,
      .blanks [' ']] ++ clock ++ [.blanks [' '], zeros .year]
  | 'd' => [zeros .day]
  | 'e' => [spaces .day]
  | 'f' => [zeros .nanosecond]
  | 'g' => [zeros .isoYearOfCentury]
  | 'h' => [.monthName false]
  | 'j' => [zeros .ordinal]
  | 'k' => [spaces .hour]
  | 'l' => [spaces .hour12]
  | 'm' => [zeros .month]
  | 'n' => [.blanks ['\n']]
  | 'p' => [.meridiem true]
  | 'q' => [.number .quarter .none]
  | 'r' =>
    [zeros .hour12, .literal [':'], zeros .minute, .literal [':'], zeros .second, .blanks [' '],
      .meridiem true]
  | 's' => [.number .timestamp .none]
  | 't' => [.blanks ['\t']]
  | 'u' => [.number .weekdayFromMonday .none]
  | 'v' =>
    [spaces .day, .literal ['-'], .monthName false, .literal ['-'], zeros .year]
  | 'w' => [.number .daysFromSunday .none]
  | 'x' => slashDate
  | 'y' => [zeros .yearOfCentury]
  | 'z' => [.offset .plain]
  | '+' => [.internetFormat]
  | '%' => [.literal ['%']]
  | _ => []

/-- The items of a conversion, given what follows its `%` and padding sign, and
the number of characters it takes. -/
def ofConversion : Text → List Item × Nat
  | ':' :: ':' :: ':' :: 'z' :: _ => ([.offset .hours], 4)
  | ':' :: ':' :: 'z' :: _ => ([.offset .seconds], 3)
  | ':' :: 'z' :: _ => ([.offset .colon], 2)
  | '.' :: 'f' :: _ => ([.fraction], 2)
  | '.' :: '3' :: 'f' :: _ => ([.fixedFraction 3 true], 3)
  | '.' :: '6' :: 'f' :: _ => ([.fixedFraction 6 true], 3)
  | '.' :: '9' :: 'f' :: _ => ([.fixedFraction 9 true], 3)
  | '3' :: 'f' :: _ => ([.fixedFraction 3 false], 2)
  | '6' :: 'f' :: _ => ([.fixedFraction 6 false], 2)
  | '9' :: 'f' :: _ => ([.fixedFraction 9 false], 2)
  | c :: _ => if ofLetter c = [] then ([.invalid], 1) else (ofLetter c, 1)
  | [] => ([.invalid], 0)

/-- The padding that a sign after `%` asks for. -/
def paddingOfSign? : Char → Option Padding
  | '-' => some .none
  | '0' => some .zero
  | '_' => some .space
  | _ => none

/-- A single number with another padding; nothing else can be padded. -/
def withPadding (padding : Padding) : List Item → List Item
  | [.number field _] => [.number field padding]
  | _ => [.invalid]

/-- The items after a `%`, and the number of characters they take. -/
def afterPercent (t : Text) : List Item × Nat :=
  match t with
  | '#' :: 'z' :: _ => ([.lenientOffset], 2)
  | '#' :: _ => ([.invalid], 1)
  | sign :: rest =>
    match paddingOfSign? sign with
    | some padding =>
      let (items, taken) := ofConversion rest
      (withPadding padding items, taken + 1)
    | none => ofConversion t
  | [] => ([.invalid], 0)

end Item

/-- The items of a pattern. -/
def items (pattern : Text) : List Item :=
  match pattern with
  | [] => []
  | c :: rest =>
    if c = '%' then
      (Item.afterPercent rest).1 ++ items (rest.drop (Item.afterPercent rest).2)
    else if Text.isBlank c then
      let run := rest.takeWhile Text.isBlank
      .blanks (c :: run) :: items (rest.drop run.length)
    else
      let run := rest.takeWhile fun c => !(Text.isBlank c || c = '%')
      .literal (c :: run) :: items (rest.drop run.length)
termination_by pattern.length
decreasing_by all_goals simp only [List.length_drop, List.length_cons]; omega

end DataPipeline.DatePattern
