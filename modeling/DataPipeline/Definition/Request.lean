import DataPipeline.Definition.OptionMap

/-!
# Deployment requests

A request deploys one module of a pipeline. Its role follows from its position
alone: the last module is the sink, also when it stands alone, the first of
several is the source, and the others are processors.
-/

namespace DataPipeline.Definition

/-- The role of a module within its pipeline. -/
inductive Role
  | source
  | processor
  | sink
  deriving DecidableEq, Repr

namespace Role

/-- The role of the module at an index in a pipeline of that many modules. -/
def atPosition (index count : Nat) : Role :=
  if count ≤ index + 1 then .sink else if index = 0 then .source else .processor

/-- The written name of a role. -/
def name : Role → String
  | .source => "source"
  | .processor => "processor"
  | .sink => "sink"

/-- The role of a written name. -/
def ofName? (name : String) : Option Role :=
  [source, processor, sink].find? fun role => role.name = name

/-- The explanation for a name that is no role. -/
def unknownMessage (name : String) : String := "unknown module type '" ++ name ++ "'"

theorem ofName?_name (role : Role) : ofName? role.name = some role := by
  cases role <;> decide

end Role

/-- The request to deploy one module. -/
structure Request where
  /-- The name of the module. -/
  moduleName : Text
  /-- The name of the pipeline that it belongs to. -/
  group : Text
  /-- Position in the pipeline, counted from the source. -/
  index : Nat
  /-- The role of the module in its pipeline. -/
  role : Role
  /-- The options of the module. -/
  options : OptionMap
  deriving DecidableEq

/-- The request on one line: group, module, index and role, then the options
in key order. -/
def Request.line (r : Request) : Text :=
  r.group ++ '.' :: r.moduleName ++ '[' :: (toString r.index).toList ++
    "] (".toList ++ r.role.name.toList ++ ')' :: r.options.tail

end DataPipeline.Definition
