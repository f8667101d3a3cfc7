import DataPipeline.Json.Tree
import DataPipeline.Numeric.Word

/-!
# Decoding JSON trees

A record with named fields is decoded from an object, in which unknown keys
are ignored and a known key may stand only once, or from an array that lists
the fields in order. A choice among names is decoded from the name alone or
from an object that maps the name to `null`.
-/

namespace DataPipeline.Json

/-- The text of a string. -/
def text? : Json → Option Text
  | .string content => content
  | _ => none

/-- The value of `true` or `false`. -/
def bool? : Json → Option Bool
  | .bool value => some value
  | _ => none

/-- A natural number of 64 bits, spelled with digits alone. -/
def word64? : Json → Option Nat
  | .number literal =>
    if literal.all Char.isDigit then
      let n := Nat.ofDigitChars 10 literal 0
      if Numeric.fitsUnsigned 64 n then some n else none
    else none
  | _ => none

/-- The member of a known field: present, absent, or refused if repeated. -/
def member? (members : List (Option Text × Json)) (name : Text) : Option (Option Json) :=
  match members.filter fun (key, _) => key = some name with
  | [] => some none
  | [(_, value)] => some (some value)
  | _ => none

/-- The known fields of a record, in the order of their names. -/
def fields? (names : List Text) : Json → Option (List (Option Json))
  | .object members =>
    if members.any fun (key, _) => key.isNone then none else names.mapM (member? members)
  | .array items =>
    if names.length < items.length then none
    else some (items.map some ++ List.replicate (names.length - items.length) none)
  | _ => none

/-- A field that may be missing, with its default. -/
def orDefault {α : Type} (decode : Json → Option α) (default : α) : Option Json → Option α
  | none => some default
  | some j => decode j

/-- A choice among names. -/
def choice? {α : Type} (ofName? : Text → Option α) : Json → Option α
  | .string (some name) => ofName? name
  | .object [(some name, .null)] => ofName? name
  | _ => none

/-- The entries of an object whose values are strings. -/
def textEntries? : Json → Option (List (Text × Text))
  | .object members => members.mapM fun (key, value) => return (← key, ← value.text?)
  | _ => none

end DataPipeline.Json
