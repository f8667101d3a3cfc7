import DataPipeline.Record.Value

/-!
# Building records

A record has as many values as names; its names are nonempty and distinct, and
no value is null. Records are built from parallel lists, from fields one after
the other, or from a map that keeps the order of insertion. Only the stamp of
a record distinguishes it from another one with the same fields.
-/

namespace DataPipeline

/-- What can be wrong with the names and values of a record. -/
inductive ShapeError
  /-- More names than values, or fewer. -/
  | sizeMismatch (names values : Nat)
  /-- A name without characters. -/
  | emptyName
  /-- A name that stands twice. -/
  | duplicateName (name : Text)
  /-- A field without a value. -/
  | nullValue (name : Text)
  deriving DecidableEq, Repr

/-- The wording of an error. -/
def ShapeError.message : ShapeError → String
  | sizeMismatch names values =>
    "Field names must be same length as values: " ++ toString names ++ " names, " ++
      toString values ++ " values"
  | emptyName => "Field names must not be empty"
  | duplicateName name => "Duplicate field name [" ++ String.ofList name ++ "]"
  | nullValue name => "Field [" ++ String.ofList name ++ "] has a null value"

variable {σ : Type}

/-- The first fault among fields, when the given names have come before. -/
def firstFault (seen : List Text) : List (Text × Value σ) → Option ShapeError
  | [] => none
  | (name, value) :: fields =>
    if name = [] then some .emptyName
    else if name ∈ seen then some (.duplicateName name)
    else if value.isNull then some (.nullValue name)
    else firstFault (name :: seen) fields

/-- A map from names to values in the order of insertion. -/
structure FieldMap (σ : Type) where
  /-- The entries in order. -/
  entries : List (Text × Value σ)

namespace FieldMap

/-- The map without entries. -/
def empty : FieldMap σ := ⟨[]⟩

/-- The entries with a value for a name: in its place if the name is known,
else at the end. -/
def putEntry (name : Text) (value : Value σ) : List (Text × Value σ) → List (Text × Value σ)
  | [] => [(name, value)]
  | (known, old) :: entries =>
    if known = name then (known, value) :: entries else (known, old) :: putEntry name value entries

/-- The map with a value for a name. -/
def insert (m : FieldMap σ) (name : Text) (value : Value σ) : FieldMap σ :=
  ⟨putEntry name value m.entries⟩

/-- The map of entries inserted one after the other. -/
def ofList (entries : List (Text × Value σ)) : FieldMap σ :=
  entries.foldl (fun m entry => m.insert entry.1 entry.2) empty

end FieldMap

namespace Record

/-- The record without fields. -/
def empty (stamp : Stamp) (service : σ) : Record σ := ⟨[], stamp, service⟩

/-- The record of fields in order. -/
def ofFields (fields : List (Text × Value σ)) (stamp : Stamp) (service : σ) :
    Except ShapeError (Record σ) :=
  match firstFault [] fields with
  | some e => .error e
  | none => .ok ⟨fields, stamp, service⟩

/-- The record of parallel names and values. -/
def ofLists (names : List Text) (values : List (Value σ)) (stamp : Stamp) (service : σ) :
    Except ShapeError (Record σ) :=
  if names.length = values.length then ofFields (names.zip values) stamp service
  else .error (.sizeMismatch names.length values.length)

/-- The record of a map. -/
def ofMap (m : FieldMap σ) (stamp : Stamp) (service : σ) : Except ShapeError (Record σ) :=
  ofFields m.entries stamp service

/-- The fields of a record as a map. -/
def toMap (r : Record σ) : FieldMap σ := .ofList r.fields

/-- Number of fields. -/
def size (r : Record σ) : Nat := r.fields.length

/-- Whether a record has no fields. -/
def isEmpty (r : Record σ) : Bool := r.fields.isEmpty

/-- The names in order. -/
def names (r : Record σ) : List Text := r.fields.map Prod.fst

/-- The values in order. -/
def values (r : Record σ) : List (Value σ) := r.fields.map Prod.snd

/-- The types of the values in order. -/
def types (r : Record σ) : List ValueType := r.values.map Value.type

/-- Whether a field has the given name. -/
def hasField (r : Record σ) (name : Text) : Bool := r.names.contains name

/-- The position of a name. -/
def index? (r : Record σ) (name : Text) : Option Nat := r.names.findIdx? (· = name)

/-- The value of a name. -/
def value? (r : Record σ) (name : Text) : Option (Value σ) := r.fields.lookup name

end Record

/-- Collects fields for records that share one conversion service. -/
structure Builder (σ : Type) where
  /-- The names put so far. -/
  names : List Text
  /-- The values put so far. -/
  values : List (Value σ)
  /-- The service of the records to build. -/
  service : σ

namespace Builder

/-- A builder without fields. -/
def new (service : σ) : Builder σ := ⟨[], [], service⟩

/-- The builder with one more field. -/
def put (b : Builder σ) (name : Text) (value : Value σ) : Builder σ :=
  { b with names := b.names ++ [name], values := b.values ++ [value] }

/-- The builder with more fields, in order. -/
def putAll (b : Builder σ) (fields : List (Text × Value σ)) : Builder σ :=
  fields.foldl (fun b field => b.put field.1 field.2) b

/-- The record of the fields put so far. -/
def build (b : Builder σ) (stamp : Stamp) : Except ShapeError (Record σ) :=
  Record.ofLists b.names b.values stamp b.service

/-- The record of parallel names and values; the fields put so far do not
matter. -/
def ofLists (b : Builder σ) (names : List Text) (values : List (Value σ)) (stamp : Stamp) :
    Except ShapeError (Record σ) :=
  Record.ofLists names values stamp b.service

/-- The record of a map; the fields put so far do not matter. -/
def ofMap (b : Builder σ) (m : FieldMap σ) (stamp : Stamp) : Except ShapeError (Record σ) :=
  Record.ofMap m stamp b.service

/-- The record without fields. -/
def empty (b : Builder σ) (stamp : Stamp) : Record σ := Record.empty stamp b.service

end Builder

end DataPipeline
