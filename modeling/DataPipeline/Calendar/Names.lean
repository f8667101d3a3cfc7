import DataPipeline.Calendar.Date
import DataPipeline.Text.Basic

/-!
# Names of months and weekdays

English names. The short form of a name is its first three letters.
-/

namespace DataPipeline.Calendar

/-- The names of the months, January first. -/
def monthNames : List Text :=
  ["January", "February", "March", "April", "May", "June", "July", "August", "September",
    "October", "November", "December"].map String.toList

/-- The names of the weekdays, Monday first. -/
def weekdayNames : List Text :=
  ["Monday", "Tuesday", "Wednesday", "Thursday", "Friday", "Saturday", "Sunday"].map String.toList

/-- The short form of a name. -/
def shortName (name : Text) : Text := name.take 3

/-- The name of a month, from 1. -/
def monthName (month : Nat) : Text := monthNames.getD (month - 1) []

/-- The name of a weekday. -/
def Weekday.name (w : Weekday) : Text := weekdayNames.getD w.fromMonday []

end DataPipeline.Calendar
