import DataPipeline.Json.Decode

/-!
# Types of values

Every value of a record has one of fifteen types. A type is named when values
are converted and in messages; its name is also its form in JSON.
-/

namespace DataPipeline

/-- The types of values. -/
inductive ValueType
  /-- Absence of a value. -/
  | null
  | bool
  /-- Integers of 8 bits. -/
  | byte
  /-- Integers of 16 bits. -/
  | short
  /-- Integers of 32 bits. -/
  | int
  /-- Integers of 64 bits. -/
  | long
  /-- Floating point numbers of 32 bits. -/
  | float
  /-- Floating point numbers of 64 bits. -/
  | double
  /-- Decimals of arbitrary precision. -/
  | decimal
  | string
  | char
  /-- Instants in universal time. -/
  | date
  | bytes
  /-- Nested records. -/
  | record
  /-- Values of the application. -/
  | foreign
  deriving DecidableEq, Repr

namespace ValueType

/-- All types. -/
def all : List ValueType :=
  [null, bool, byte, short, int, long, float, double, decimal, string, char, date, bytes, record,
    foreign]

/-- The name of a type. -/
def name : ValueType → String
  | null => "null"
  | bool => "bool"
  | byte => "byte"
  | short => "short"
  | int => "int"
  | long => "long"
  | float => "float"
  | double => "double"
  | decimal => "bigdecimal"
  | string => "string"
  | char => "char"
  | date => "date"
  | bytes => "bytes"
  | record => "tuple"
  | foreign => "opaque"

/-- The type of a name. -/
def ofName? (name : String) : Option ValueType := all.find? fun type => type.name = name

theorem ofName?_name (type : ValueType) : ofName? type.name = some type := by
  cases type <;> decide

/-- The JSON string of a type. -/
def toJson (type : ValueType) : Json := .ofText type.name.toList

/-- The type that a JSON tree names. -/
def ofJson? (j : Json) : Option ValueType := j.choice? fun name => ofName? (String.ofList name)

end ValueType

end DataPipeline
