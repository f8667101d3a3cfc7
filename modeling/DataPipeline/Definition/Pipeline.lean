import DataPipeline.Definition.Request
import DataPipeline.Definition.Segment

/-!
# Reading pipeline definitions

A definition such as `time --every=5 | transform --expr=x | log` becomes one
deployment request for each segment. The list runs against the flow, sink
first, while indices count from the source. The options of a single module
can be read without a pipeline around it.
-/

namespace DataPipeline.Definition

/-- The requests of a group for the segments of its pipeline, in the order of
the segments. -/
def requestsOf (group : Text) (segments : List Segment) : List Request :=
  segments.mapIdx fun index segment =>
    ⟨segment.name, group, index, Role.atPosition index segments.length, segment.options⟩

/-- Reads the definition of a pipeline into deployment requests, sink first. -/
def parse (settings : ParserSettings) (group definition : Text) :
    Except ParseError (List Request) := do
  if Text.isAllBlank group then .error ⟨.blankName, group, 0⟩
  let found ← segments settings false definition
  return (requestsOf group found).reverse

/-- Reads the options of the single module that a text must hold. -/
def parameters (settings : ParserSettings) (text : Text) : Except ParseError OptionMap := do
  match ← segments settings true text with
  | [segment] => return segment.options
  | _ => .error ⟨.notOneModule, text, 0⟩

end DataPipeline.Definition
