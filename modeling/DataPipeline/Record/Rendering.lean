import DataPipeline.Calendar.Rfc3339
import DataPipeline.Record.Value
import DataPipeline.Text.Quoted

/-!
# Texts of values and records

The plain text of a value is what a user reads; the inspected text also shows
types and hidden characters. Both show the stamp of a record, in a style that
the caller can choose.
-/

namespace DataPipeline

open Text

/-- How identities and times of construction are written. -/
structure StampStyle where
  /-- The text of an identifier. -/
  id : BitVec 128 → Text
  /-- The text of a time of construction. -/
  time : Int → Text

/-- Identifiers in five groups of hexadecimal digits, times as integers. -/
def StampStyle.full : StampStyle where
  id bits :=
    let digits := Nat.toDigits 16 bits.toNat
    let digits := List.replicate (32 - digits.length) '0' ++ digits
    ['-'].intercalate [digits.take 8, (digits.drop 8).take 4, (digits.drop 12).take 4,
      (digits.drop 16).take 4, digits.drop 20]
  time := ofInt

/-- A byte array as a list of numbers. -/
def bytesText (b : ByteArray) : Text := bracketed (b.data.toList.map fun byte => ofNat byte.toNat)

mutual

/-- The plain text of a value. -/
def Value.textBy {σ : Type} (style : StampStyle) : Value σ → Text
  | .null => "null".toList
  | .bool true => "true".toList
  | .bool false => "false".toList
  | .byte n => ofInt n.toInt
  | .short n => ofInt n.toInt
  | .int n => ofInt n.toInt
  | .long n => ofInt n.toInt
  | .float x => x.text
  | .double x => x.text
  | .decimal d => d.text
  | .string t => t
  | .char c => [c]
  | .date i => i.milliText
  | .bytes b => bytesText b
  | .record r => r.textBy style
  | .foreign f => '<' :: (f.typeName ++ ['>'])
termination_by structural value => value

/-- The plain text of a record. -/
def Record.textBy {σ : Type} (style : StampStyle) : Record σ → Text
  | ⟨fields, stamp, _⟩ =>
    "Tuple [names=".toList ++ bracketed (fields.map Prod.fst) ++ ", values=".toList ++
      bracketed (valueTexts style fields) ++ ", id=".toList ++ style.id stamp.id ++
      ", timestamp=".toList ++ style.time stamp.time ++ [']']
termination_by structural r => r

/-- The plain texts of the values of fields. -/
def valueTexts {σ : Type} (style : StampStyle) : List (Text × Value σ) → List Text
  | [] => []
  | (_, value) :: fields => value.textBy style :: valueTexts style fields
termination_by structural fields => fields

end

/-- The plain text of a value with full stamps. -/
def Value.text {σ : Type} (value : Value σ) : Text := value.textBy .full

/-- A constructor with its argument. -/
def applied (name : String) (argument : Text) : Text :=
  name.toList ++ '(' :: (argument ++ [')'])

mutual

/-- The inspected text of a value. -/
def Value.inspectBy {σ : Type} (style : StampStyle) : Value σ → Text
  | .null => "Null".toList
  | .bool b => applied "Bool" (if b then "true".toList else "false".toList)
  | .byte n => applied "Byte" (ofInt n.toInt)
  | .short n => applied "Short" (ofInt n.toInt)
  | .int n => applied "Int" (ofInt n.toInt)
  | .long n => applied "Long" (ofInt n.toInt)
  | .float x => applied "Float" x.annotated
  | .double x => applied "Double" x.annotated
  | .decimal d => applied "BigDecimal" d.text
  | .string t => applied "String" (quote t)
  | .char c => applied "Char" (quoteBy '\'' [c])
  | .date i => applied "Date" i.fullText
  | .bytes b => applied "Bytes" (bytesText b)
  | .record r => applied "Tuple" (r.inspectBy style)
  | .foreign f => applied "Opaque" (applied "Opaque" f.typeName)
termination_by structural value => value

/-- The inspected text of a record. -/
def Record.inspectBy {σ : Type} (style : StampStyle) : Record σ → Text
  | ⟨fields, stamp, _⟩ =>
    "Tuple \x7b names: ".toList ++ bracketed (fields.map fun (name, _) => quote name) ++
      ", values: ".toList ++ bracketed (inspectedValues style fields) ++ ", id: ".toList ++
      applied "TupleId" (style.id stamp.id) ++ ", timestamp: ".toList ++ style.time stamp.time ++
      ", .. \x7d".toList
termination_by structural r => r

/-- The inspected texts of the values of fields. -/
def inspectedValues {σ : Type} (style : StampStyle) : List (Text × Value σ) → List Text
  | [] => []
  | (_, value) :: fields => value.inspectBy style :: inspectedValues style fields
termination_by structural fields => fields

end

end DataPipeline
