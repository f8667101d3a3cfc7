import DataPipeline.DatePattern.Parsing
import DataPipeline.Record.Rendering

/-!
# Conversion services

A conversion service turns a value into one of another type, or says why it
cannot. Records read their values through such a service and do not depend on
which one it is.
-/

namespace DataPipeline

open DatePattern

/-- Why a conversion fails. -/
inductive Reason
  | noTextForm (type : ValueType)
  | noByteForm (type : ValueType)
  | notBoolean (type : ValueType)
  | notNumeric (type : ValueType)
  | notCharacter (type : ValueType)
  | notDate (type : ValueType)
  /-- Nothing converts to this type. -/
  | noConversion (target : ValueType)
  | booleanLiteral
  | integerLiteral
  | numberLiteral
  | decimalLiteral
  /-- The number lies outside the target type. -/
  | outOfRange
  /-- An infinity or a NaN. -/
  | notFinite
  /-- The string has none or several characters. -/
  | notOneCharacter
  | invalidUtf8
  /-- Milliseconds beyond the calendar. -/
  | epochOutOfRange
  | invalidPattern (pattern : Text)
  | dateMismatch (failure : ParseFailure)
  /-- The service answered with another type than asked for. -/
  | producedType (type : ValueType)
  /-- A field that is read as a character holds this text. -/
  | fieldCharacter (text : Text)
  /-- The words of a service of the application. -/
  | words (text : Text)
  deriving DecidableEq, Repr

/-- The wording of a reason. -/
def Reason.message : Reason → String
  | noTextForm type => type.name ++ " has no text form"
  | noByteForm type => type.name ++ " has no byte form"
  | notBoolean type => type.name ++ " is not a boolean"
  | notNumeric type => type.name ++ " is not numeric"
  | notCharacter type => type.name ++ " is not a character"
  | notDate type => type.name ++ " is not a date"
  | noConversion target => "no conversion to " ++ target.name
  | booleanLiteral => "not a boolean literal"
  | integerLiteral => "not an integer literal"
  | numberLiteral => "not a number literal"
  | decimalLiteral => "not a decimal literal"
  | outOfRange => "value out of range"
  | notFinite => "not a finite number"
  | notOneCharacter => "must be exactly one character"
  | invalidUtf8 => "bytes are not valid UTF-8"
  | epochOutOfRange => "epoch milliseconds out of range"
  | invalidPattern pattern => "invalid date pattern '" ++ String.ofList pattern ++ "'"
  | dateMismatch failure => failure.message
  | producedType type => "conversion service produced a " ++ type.name ++ " value"
  | fieldCharacter text => "cannot convert field value '" ++ String.ofList text ++ "' to char"
  | words text => String.ofList text

/-- A conversion that failed. -/
structure ConversionFailure (σ : Type) where
  /-- The value to convert. -/
  value : Value σ
  /-- The type asked for. -/
  target : ValueType
  /-- Why it failed. -/
  reason : Reason

/-- The wording of a failure. -/
def ConversionFailure.messageBy {σ : Type} (style : StampStyle) (e : ConversionFailure σ) :
    String :=
  "cannot convert " ++ e.value.type.name ++ " value '" ++ String.ofList (e.value.textBy style) ++
    "' to " ++ e.target.name ++ ": " ++ e.reason.message

/-- Services that convert the values of records that carry them. -/
class ConversionService (σ : Type) where
  /-- Converts a value to a type. -/
  convert : σ → Value σ → ValueType → Except (ConversionFailure σ) (Value σ)

end DataPipeline
