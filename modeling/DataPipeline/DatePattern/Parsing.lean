import DataPipeline.DatePattern.Reading
import DataPipeline.DatePattern.Resolution

/-!
# Dates from texts

A pattern with an offset yields that instant; a pattern with a time but no
offset is read as universal time; a pattern with a date alone yields the start
of that day. If all three readings fail, the second one says why.
-/

namespace DataPipeline.DatePattern

open Calendar

/-- A text that gives no date by a pattern. -/
structure ParseFailure where
  /-- The text. -/
  text : Text
  /-- The pattern. -/
  pattern : Text
  /-- Why the text gives no date and time by it. -/
  error : DateError
  deriving DecidableEq, Repr

/-- The wording of a failure. -/
def ParseFailure.message (e : ParseFailure) : String :=
  "'" ++ String.ofList e.text ++ "' does not match pattern '" ++ String.ofList e.pattern ++ "': " ++
    e.error.message

/-- The instant that fields give: with an offset, else as universal time, else
as a date alone. -/
def Fields.instant (f : Fields) : Except DateError Instant :=
  match f.zonedInstant, f.plainInstant, f.midnight with
  | .ok i, _, _ => .ok i
  | _, .ok i, _ => .ok i
  | _, .error _, .ok i => .ok i
  | _, .error e, .error _ => .error e

/-- The instant that a text gives by a pattern. -/
def parseDate (text pattern : Text) : Except ParseFailure Instant :=
  match readFields (items pattern) text >>= Fields.instant with
  | .ok i => .ok i
  | .error e => .error ⟨text, pattern, e⟩

end DataPipeline.DatePattern
