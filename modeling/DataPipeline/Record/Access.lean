import DataPipeline.Record.Build
import DataPipeline.Record.Conversion
import DataPipeline.Record.Selection

/-!
# Reading records

Fields are addressed by name or by position and are read through the
conversion service of the record. Text is trimmed; characters, booleans and
dates by a pattern are read from the trimmed text.
-/

namespace DataPipeline

open Calendar DatePattern

/-- The address of a field. -/
inductive Field
  | name (name : Text)
  | index (index : Nat)
  deriving DecidableEq, Repr

/-- An address as messages show it. -/
def Field.text : Field → Text
  | name n => '[' :: (n ++ [']'])
  | index i => '#' :: Text.ofNat i

/-- Why a field cannot be read, or a selection cannot be made. -/
inductive AccessError (σ : Type)
  /-- No field has this name; the known names are listed. -/
  | unknownField (name : Text) (known : List Text)
  | indexOutOfBounds (index size : Nat)
  /-- The value of the field does not convert. -/
  | conversion (field : Field) (failure : ConversionFailure σ)
  | invalidSelection (expression : Text) (fault : SelectionFault)
  /-- A selected record would not be one. -/
  | shape (e : ShapeError)

/-- The wording of an error. -/
def AccessError.messageBy {σ : Type} (style : StampStyle) : AccessError σ → String
  | unknownField name known =>
    "Cannot access field [" ++ String.ofList name ++ "] from " ++
      String.ofList (Text.bracketed (known.map Text.quote))
  | indexOutOfBounds index size =>
    "Field index " ++ toString index ++ " out of bounds for tuple of size " ++ toString size
  | conversion field failure =>
    "Cannot convert field " ++ String.ofList field.text ++ ": " ++ failure.messageBy style
  | invalidSelection expression fault =>
    "Invalid selection '" ++ String.ofList expression ++ "': " ++ fault.message
  | shape e => e.message

namespace Record

variable {σ : Type}

/-- The position of a name. -/
def indexOf (r : Record σ) (name : Text) : Except (AccessError σ) Nat :=
  (r.index? name).elim (.error (.unknownField name r.names)) .ok

/-- The value of a field as it is stored. -/
def value (r : Record σ) (field : Field) : Except (AccessError σ) (Value σ) :=
  match field with
  | .name name => (r.value? name).elim (.error (.unknownField name r.names)) .ok
  | .index index => (r.values[index]?).elim (.error (.indexOutOfBounds index r.size)) .ok

variable [ConversionService σ]

/-- What a field holds after conversion to a type. -/
def get (r : Record σ) (field : Field) (type : ValueType) :
    Except (AccessError σ) (type.Payload σ) := do
  let raw ← r.value field
  match ConversionService.convert r.service raw type with
  | .error failure => .error (.conversion field failure)
  | .ok converted =>
    match Value.payload? type converted with
    | some payload => return payload
    | none => .error (.conversion field ⟨raw, type, .producedType converted.type⟩)

/-- The trimmed text of a field. -/
def string (r : Record σ) (field : Field) : Except (AccessError σ) Text := do
  return Text.trim (← r.get field .string)

/-- The single character of the trimmed text of a field. -/
def char (r : Record σ) (field : Field) : Except (AccessError σ) Char := do
  let raw ← r.value field
  let text ← r.string field
  match Text.single? text with
  | some c => return c
  | none => .error (.conversion field ⟨raw, .char, .fieldCharacter text⟩)

/-- Whether the trimmed text of a field is the given one. -/
def boolWith (r : Record σ) (field : Field) (trueText : Text) : Except (AccessError σ) Bool := do
  return (← r.string field) = trueText

/-- Whether the trimmed text of a field is `true`. -/
def bool (r : Record σ) (field : Field) : Except (AccessError σ) Bool :=
  r.boolWith field "true".toList

/-- A field as an integer of 8 bits. -/
def byte (r : Record σ) (field : Field) : Except (AccessError σ) Int8 := r.get field .byte

/-- A field as an integer of 16 bits. -/
def short (r : Record σ) (field : Field) : Except (AccessError σ) Int16 := r.get field .short

/-- A field as an integer of 32 bits. -/
def int (r : Record σ) (field : Field) : Except (AccessError σ) Int32 := r.get field .int

/-- A field as an integer of 64 bits. -/
def long (r : Record σ) (field : Field) : Except (AccessError σ) Int64 := r.get field .long

/-- A field as a floating point number of 32 bits. -/
def float (r : Record σ) (field : Field) : Except (AccessError σ) Numeric.Single :=
  r.get field .float

/-- A field as a floating point number of 64 bits. -/
def double (r : Record σ) (field : Field) : Except (AccessError σ) Numeric.Double :=
  r.get field .double

/-- A field as a decimal. -/
def decimal (r : Record σ) (field : Field) : Except (AccessError σ) Numeric.Decimal :=
  r.get field .decimal

/-- A field as an instant. -/
def date (r : Record σ) (field : Field) : Except (AccessError σ) Instant := r.get field .date

/-- The instant that the trimmed text of a field gives by a pattern. -/
def dateWithPattern (r : Record σ) (field : Field) (pattern : Text) :
    Except (AccessError σ) Instant := do
  let text ← r.string field
  match parseDate text pattern with
  | .ok i => return i
  | .error failure => .error (.conversion field ⟨.string text, .date, .dateMismatch failure⟩)

end Record

/-- The record that an expression selects. -/
def Record.select {σ : Type} (r : Record σ) (expression : Text) (stamp : Stamp) :
    Except (AccessError σ) (Record σ) :=
  match Selection.parse expression with
  | .error fault => .error (.invalidSelection expression fault)
  | .ok selection => (r.apply selection stamp).mapError .shape

end DataPipeline
