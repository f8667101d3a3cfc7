import DataPipeline.Calendar.Rfc3339
import DataPipeline.DatePattern.Rendering
import DataPipeline.Numeric.IntegerLiteral
import DataPipeline.Record.Conversion
import DataPipeline.Settings

/-!
# Default conversions

The default service converts between numbers, texts, characters, dates and
bytes. Integers are exact or out of range, floating point numbers are rounded
to the nearest, and literals are trimmed before they are read. A value that
already has the type asked for, and the null value, stay as they are.
-/

namespace DataPipeline

open Calendar DatePattern Numeric

namespace Value

variable {σ : Type}

/-- The text of a value, with dates by a pattern. -/
def toText (pattern : Text) : Value σ → Except Reason Text
  | string t => .ok t
  | date i => (formatDate? pattern i).elim (.error (.invalidPattern pattern)) .ok
  | bytes b => (String.fromUTF8? b).elim (.error .invalidUtf8) fun s => .ok s.toList
  | null => .error (.noTextForm .null)
  | record _ => .error (.noTextForm .record)
  | foreign _ => .error (.noTextForm .foreign)
  | value => .ok value.text

/-- The boolean of a literal: `true`, `on`, `yes` and `1`, or `false`, `off`,
`no` and `0`, in letters of either case. -/
def booleanLiteral? (t : Text) : Option Bool :=
  let word := String.ofList (Text.asciiLower t)
  if word ∈ ["true", "on", "yes", "1"] then some true
  else if word ∈ ["false", "off", "no", "0"] then some false
  else none

/-- The boolean of a value. -/
def toBoolean : Value σ → Except Reason Bool
  | string t => (booleanLiteral? (Text.trim t)).elim (.error .booleanLiteral) .ok
  | value => .error (.notBoolean value.type)

/-- An integer, if it fits a width. -/
def fitting (bits : Nat) (n : Int) : Except Reason Int :=
  if fitsSigned bits n then .ok n else .error .outOfRange

/-- The integer part of a floating point number. -/
def truncated {f : Format} (x : Binary f) : Except Reason Int :=
  match x.truncate? with
  | none => .error .notFinite
  | some n => fitting 64 n

/-- The integer part of a numeric value, within 64 bits. -/
def toInteger : Value σ → Except Reason Int
  | byte n => .ok n.toInt
  | short n => .ok n.toInt
  | int n => .ok n.toInt
  | long n => .ok n.toInt
  | float x => truncated x
  | double x => truncated x
  | decimal d => d.toLong?.elim (.error .outOfRange) .ok
  | string t =>
    match integerLiteral? (Text.trim t) with
    | none => .error .integerLiteral
    | some n => fitting 64 n
  | value => .error (.notNumeric value.type)

/-- The floating point number of 64 bits nearest to a numeric value. -/
def toDouble : Value σ → Except Reason Double
  | byte n => .ok (.ofInt n.toInt)
  | short n => .ok (.ofInt n.toInt)
  | int n => .ok (.ofInt n.toInt)
  | long n => .ok (.ofInt n.toInt)
  | float x => .ok (x.convert .double)
  | double x => .ok x
  | decimal d => .ok d.toDouble
  | string t => (Binary.ofText? (Text.trim t)).elim (.error .numberLiteral) .ok
  | value => .error (.notNumeric value.type)

/-- A number of 64 bits rounded to 32 bits. A finite number must stay finite. -/
def toSingle (x : Double) : Except Reason Single :=
  let y := x.convert .single
  if x.isFinite && y.isInfinite then .error .outOfRange else .ok y

/-- The decimal equal to a numeric value. -/
def toDecimal : Value σ → Except Reason Decimal
  | byte n => .ok (.ofInt n.toInt)
  | short n => .ok (.ofInt n.toInt)
  | int n => .ok (.ofInt n.toInt)
  | long n => .ok (.ofInt n.toInt)
  | float x => (Decimal.ofBinary? x).elim (.error .notFinite) .ok
  | double x => (Decimal.ofBinary? x).elim (.error .notFinite) .ok
  | string t => (Decimal.ofText? (Text.trim t)).elim (.error .decimalLiteral) .ok
  | value => .error (.notNumeric value.type)

/-- The character of a string of length one. -/
def toCharacter : Value σ → Except Reason Char
  | string t => (Text.single? t).elim (.error .notOneCharacter) .ok
  | value => .error (.notCharacter value.type)

/-- The instant of a text by a pattern or in the internet format, or of
milliseconds since the start of 1970. -/
def toInstant (pattern : Text) : Value σ → Except Reason Instant
  | string t =>
    match parseDate (Text.trim t) pattern with
    | .ok i => .ok i
    | .error failure =>
      (Instant.ofRfc3339? (Text.trim t)).elim (.error (.dateMismatch failure)) .ok
  | int n => (Instant.ofEpochMilli? n.toInt).elim (.error .epochOutOfRange) .ok
  | long n => (Instant.ofEpochMilli? n.toInt).elim (.error .epochOutOfRange) .ok
  | value => .error (.notDate value.type)

/-- The UTF-8 form of a string. -/
def toBytes : Value σ → Except Reason ByteArray
  | string t => .ok (String.ofList t).toUTF8
  | value => .error (.noByteForm value.type)

/-- The value of another type. -/
def convertTo (settings : ConversionSettings) (value : Value σ) :
    ValueType → Except Reason (Value σ)
  | .string => (value.toText settings.datePattern).map string
  | .bool => value.toBoolean.map bool
  | .byte => (value.toInteger >>= fitting 8).map fun n => byte (.ofInt n)
  | .short => (value.toInteger >>= fitting 16).map fun n => short (.ofInt n)
  | .int => (value.toInteger >>= fitting 32).map fun n => int (.ofInt n)
  | .long => value.toInteger.map fun n => long (.ofInt n)
  | .float => (value.toDouble >>= toSingle).map float
  | .double => value.toDouble.map double
  | .decimal => value.toDecimal.map decimal
  | .char => value.toCharacter.map char
  | .date => (value.toInstant settings.datePattern).map date
  | .bytes => value.toBytes.map bytes
  | .null => .error (.noConversion .null)
  | .record => .error (.noConversion .record)
  | .foreign => .error (.noConversion .foreign)

/-- Converts a value by the default conversions. -/
def convert (settings : ConversionSettings) (value : Value σ) (target : ValueType) :
    Except (ConversionFailure σ) (Value σ) :=
  if value.type = target || value.isNull then .ok value
  else (value.convertTo settings target).mapError fun reason => ⟨value, target, reason⟩

end Value

/-- The settings are the service that converts by them. -/
instance : ConversionService ConversionSettings := ⟨Value.convert⟩

end DataPipeline
