import DataPipeline.Calendar.Instant
import DataPipeline.Numeric.Decimal
import DataPipeline.Record.ValueType

/-!
# Values and records

A record is a list of named values, which may be records themselves. Each
record carries a stamp with its identity and its time of construction, and the
conversion service through which its values are read; neither belongs to what
the record says. Equality compares names and values in order, floating point
numbers by their bits, decimals by the number they denote and values of the
application by their handle.
-/

namespace DataPipeline

open Calendar Numeric

/-- Identity and time of construction of a record. -/
structure Stamp where
  /-- The identifier, which differs from that of every other construction. -/
  id : BitVec 128
  /-- Time of construction in milliseconds since the start of 1970. -/
  time : Int
  deriving DecidableEq, Repr

/-- A value of the application, which is known by its handle alone. -/
structure Foreign where
  /-- The handle that the application gave it. -/
  handle : Nat
  /-- The name of its type in the application. -/
  typeName : Text
  deriving DecidableEq, Repr

mutual

/-- A value of a record whose conversion service is of type `σ`. -/
inductive Value (σ : Type) : Type
  | null
  | bool (b : Bool)
  | byte (n : Int8)
  | short (n : Int16)
  | int (n : Int32)
  | long (n : Int64)
  | float (x : Single)
  | double (x : Double)
  | decimal (d : Decimal)
  | string (t : Text)
  | char (c : Char)
  | date (i : Instant)
  | bytes (b : ByteArray)
  | record (r : Record σ)
  | foreign (f : Foreign)

/-- A list of named values with a stamp and a conversion service. -/
structure Record (σ : Type) : Type where
  /-- The fields in order. -/
  fields : List (Text × Value σ)
  /-- Identity and time of construction. -/
  stamp : Stamp
  /-- The service through which values are read. -/
  service : σ

end

namespace Value

variable {σ : Type}

/-- The type of a value. -/
def type : Value σ → ValueType
  | null => .null
  | bool _ => .bool
  | byte _ => .byte
  | short _ => .short
  | int _ => .int
  | long _ => .long
  | float _ => .float
  | double _ => .double
  | decimal _ => .decimal
  | string _ => .string
  | char _ => .char
  | date _ => .date
  | bytes _ => .bytes
  | record _ => .record
  | foreign _ => .foreign

/-- Whether a value is absent. -/
def isNull : Value σ → Bool
  | null => true
  | _ => false

/-- The text of a string. -/
def string? : Value σ → Option Text
  | string t => some t
  | _ => none

/-- The record of a nested record. -/
def record? : Value σ → Option (Record σ)
  | record r => some r
  | _ => none

/-- The value of an optional one; absence is null. -/
def ofOption {α : Type} (wrap : α → Value σ) : Option α → Value σ
  | some a => wrap a
  | none => null

end Value

/-- What the values of a type hold. -/
def ValueType.Payload (σ : Type) : ValueType → Type
  | .null => Unit
  | .bool => Bool
  | .byte => Int8
  | .short => Int16
  | .int => Int32
  | .long => Int64
  | .float => Single
  | .double => Double
  | .decimal => Decimal
  | .string => Text
  | .char => Char
  | .date => Instant
  | .bytes => ByteArray
  | .record => Record σ
  | .foreign => Foreign

namespace Value

variable {σ : Type}

/-- The value of a type with a payload. -/
def ofPayload : (type : ValueType) → type.Payload σ → Value σ
  | .null, _ => null
  | .bool, b => bool b
  | .byte, n => byte n
  | .short, n => short n
  | .int, n => int n
  | .long, n => long n
  | .float, x => float x
  | .double, x => double x
  | .decimal, d => decimal d
  | .string, t => string t
  | .char, c => char c
  | .date, i => date i
  | .bytes, b => bytes b
  | .record, r => record r
  | .foreign, f => foreign f

/-- The payload of a value, if it is of the given type. -/
def payload? : (type : ValueType) → Value σ → Option (type.Payload σ)
  | .null, null => some ()
  | .bool, bool b => some b
  | .byte, byte n => some n
  | .short, short n => some n
  | .int, int n => some n
  | .long, long n => some n
  | .float, float x => some x
  | .double, double x => some x
  | .decimal, decimal d => some d
  | .string, string t => some t
  | .char, char c => some c
  | .date, date i => some i
  | .bytes, bytes b => some b
  | .record, record r => some r
  | .foreign, foreign f => some f
  | _, _ => none

theorem payload?_ofPayload (type : ValueType) (p : type.Payload σ) :
    payload? type (ofPayload type p) = some p := by
  cases type <;> rfl

end Value

mutual

/-- Whether two values are equal. -/
def Value.same {σ : Type} : Value σ → Value σ → Bool
  | .null, .null => true
  | .bool a, .bool b => a = b
  | .byte a, .byte b => a = b
  | .short a, .short b => a = b
  | .int a, .int b => a = b
  | .long a, .long b => a = b
  | .float a, .float b => a = b
  | .double a, .double b => a = b
  | .decimal a, .decimal b => a.same b
  | .string a, .string b => a = b
  | .char a, .char b => a = b
  | .date a, .date b => a = b
  | .bytes a, .bytes b => a.data = b.data
  | .record a, .record b => a.same b
  | .foreign a, .foreign b => a.handle = b.handle
  | _, _ => false
termination_by structural value => value

/-- Whether two records have equal fields in the same order. -/
def Record.same {σ : Type} : Record σ → Record σ → Bool
  | ⟨fields, _, _⟩, ⟨others, _, _⟩ => sameFields fields others
termination_by structural r => r

/-- Whether two lists of fields have equal names and values in order. -/
def sameFields {σ : Type} : List (Text × Value σ) → List (Text × Value σ) → Bool
  | [], [] => true
  | (name, value) :: fields, (other, value') :: others =>
    name = other && value.same value' && sameFields fields others
  | _, _ => false
termination_by structural fields => fields

end

instance {σ : Type} : BEq (Value σ) := ⟨Value.same⟩

instance {σ : Type} : BEq (Record σ) := ⟨Record.same⟩

end DataPipeline
