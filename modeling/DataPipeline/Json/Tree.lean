import DataPipeline.Text.Basic

/-!
# JSON trees

A tree keeps what a JSON text says: members in their order, also repeated
ones, and numbers as they are spelled. A string may name half of a surrogate
pair alone; such a string is well formed but is no text, and its content is
absent.
-/

namespace DataPipeline

/-- A JSON value. -/
inductive Json
  | null
  | bool (value : Bool)
  /-- A number by its spelling. -/
  | number (literal : Text)
  /-- A string; absent content stands for an unpaired surrogate. -/
  | string (content : Option Text)
  | array (items : List Json)
  /-- An object with its members in order. -/
  | object (members : List (Option Text × Json))

namespace Json

/-- A string with the given content. -/
def ofText (t : Text) : Json := .string (some t)

/-- A number by its decimal digits. -/
def ofNat (n : Nat) : Json := .number (Nat.toDigits 10 n)

/-- An object with the given keys. -/
def record (members : List (Text × Json)) : Json :=
  .object (members.map fun (key, value) => (some key, value))

/-- The blanks that may stand between the parts of a JSON text. -/
def isJsonBlank (c : Char) : Bool := c = ' ' || c = '\n' || c = '\t' || c = '\r'

/-- The text from its first character on that is no JSON blank. -/
def skipBlanks (t : Text) : Text := t.dropWhile isJsonBlank

end Json

end DataPipeline
