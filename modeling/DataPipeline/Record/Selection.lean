import DataPipeline.Record.Build

/-!
# Selections

A selection picks fields of a record: all of them, the record that a path
names, or a projection onto several paths. A path is a sequence of names with
dots between them. A field named exactly like the whole path comes first;
otherwise the path descends through nested records.
-/

namespace DataPipeline

/-- A path through nested records. -/
structure FieldPath where
  /-- The names along the path. -/
  segments : List Text
  deriving DecidableEq, Repr

/-- A path as it is written. -/
def FieldPath.text (p : FieldPath) : Text := ['.'].intercalate p.segments

/-- What is selected from a record. -/
inductive Selection
  /-- All fields. -/
  | all
  /-- The nested record that a path names. -/
  | path (p : FieldPath)
  /-- The values of several paths. -/
  | project (paths : List FieldPath)
  deriving DecidableEq, Repr

/-- What can be wrong with a selection expression. -/
inductive SelectionFault
  | blank
  /-- A path with nothing before, between or after its dots. -/
  | emptySegment (path : Text)
  deriving DecidableEq, Repr

/-- The wording of a fault. -/
def SelectionFault.message : SelectionFault → String
  | blank => "expression is blank"
  | emptySegment path => "empty segment in path '" ++ String.ofList path ++ "'"

/-- The path of a text. -/
def FieldPath.parse (t : Text) : Except SelectionFault FieldPath :=
  let segments := (t.splitOn '.').map Text.trim
  if segments.any List.isEmpty then .error (.emptySegment t) else .ok ⟨segments⟩

/-- The text between braces that enclose it. -/
def unbraced? : Text → Option Text
  | '\x7b' :: rest => Text.dropEnd? ['\x7d'] rest
  | _ => none

namespace Selection

/-- The selection of an expression. -/
def parse (expression : Text) : Except SelectionFault Selection :=
  let trimmed := Text.trim expression
  if trimmed = [] then .error .blank
  else if trimmed = ['*'] then .ok .all
  else
    match unbraced? trimmed with
    | some body => ((body.splitOn ',').mapM FieldPath.parse).map project
    | none =>
      if ',' ∈ trimmed then ((trimmed.splitOn ',').mapM FieldPath.parse).map project
      else (FieldPath.parse trimmed).map path

/-- An expression of a selection, without blanks. -/
def text : Selection → Text
  | all => ['*']
  | path p => p.text
  | project paths => '\x7b' :: ([','].intercalate (paths.map FieldPath.text) ++ ['\x7d'])

end Selection

namespace Record

variable {σ : Type}

/-- The value that is reached by looking up one name after the other in nested
records. -/
def descend (r : Record σ) : List Text → Option (Value σ)
  | [] => none
  | [name] => r.value? name
  | name :: names =>
    match r.value? name with
    | some (.record nested) => nested.descend names
    | _ => none

/-- The value of a path: the field of that name, or else the one that the path
descends to. -/
def resolve (r : Record σ) (p : FieldPath) : Option (Value σ) :=
  (r.value? p.text).or (r.descend p.segments)

/-- The fields of a projection, in the order of the first mention of each path
that has a value; `taken` holds the fields found before. -/
def projectFields (r : Record σ) (taken : List (Text × Value σ)) :
    List FieldPath → List (Text × Value σ)
  | [] => taken
  | p :: paths =>
    if p.text ∈ taken.map Prod.fst then r.projectFields taken paths
    else
      match r.resolve p with
      | some value => r.projectFields (taken ++ [(p.text, value)]) paths
      | none => r.projectFields taken paths

/-- The fields that a selection picks. A path that names no record picks
none. -/
def selectFields (r : Record σ) : Selection → List (Text × Value σ)
  | .all => r.fields
  | .path p =>
    match r.resolve p with
    | some (.record nested) => nested.fields
    | _ => []
  | .project paths => r.projectFields [] paths

/-- The record of a selection, which keeps the conversion service. -/
def apply (r : Record σ) (selection : Selection) (stamp : Stamp) : Except ShapeError (Record σ) :=
  ofFields (r.selectFields selection) stamp r.service

end Record

end DataPipeline
