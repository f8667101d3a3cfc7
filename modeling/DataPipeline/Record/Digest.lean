import DataPipeline.Record.Value

/-!
# Digests

A digest is the sequence of parts that a hash of a value is computed from.
Equal values have equal digests; in particular a decimal enters by a text that
does not depend on its scale. Stamps, services and the types of values of the
application stay out of it.
-/

namespace DataPipeline

/-- One part of a digest. -/
inductive DigestPart
  /-- The type of the value that follows. -/
  | type (t : ValueType)
  | number (n : Int)
  | text (t : Text)
  | bytes (b : Array UInt8)
  deriving DecidableEq

mutual

/-- The digest of a value. -/
def Value.digest {σ : Type} : Value σ → List DigestPart
  | .null => [.type .null]
  | .bool b => [.type .bool, .number (if b then 1 else 0)]
  | .byte n => [.type .byte, .number n.toInt]
  | .short n => [.type .short, .number n.toInt]
  | .int n => [.type .int, .number n.toInt]
  | .long n => [.type .long, .number n.toInt]
  | .float x => [.type .float, .number x.bits.toNat]
  | .double x => [.type .double, .number x.bits.toNat]
  | .decimal d => [.type .decimal, .text d.hashText]
  | .string t => [.type .string, .text t]
  | .char c => [.type .char, .number c.toNat]
  | .date i =>
    [.type .date, .number i.date.year, .number i.date.ordinal, .number i.time.secondOfDay,
      .number i.time.nano]
  | .bytes b => [.type .bytes, .bytes b.data]
  | .record r => .type .record :: r.digest
  | .foreign f => [.type .foreign, .number f.handle]
termination_by structural value => value

/-- The digest of a record: its names, then its values, each with their number
in front. -/
def Record.digest {σ : Type} : Record σ → List DigestPart
  | ⟨fields, _, _⟩ =>
    .number fields.length :: (fields.map fun (name, _) => .text name) ++
      .number fields.length :: digestValues fields
termination_by structural r => r

/-- The digests of the values of fields. -/
def digestValues {σ : Type} : List (Text × Value σ) → List DigestPart
  | [] => []
  | (_, value) :: fields => value.digest ++ digestValues fields
termination_by structural fields => fields

end

end DataPipeline
