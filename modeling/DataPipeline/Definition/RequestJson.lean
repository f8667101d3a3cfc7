import DataPipeline.Definition.Request
import DataPipeline.Json.Decode
import DataPipeline.Json.Printer
import DataPipeline.Json.Reader

/-!
# Requests as JSON

A request is an object with the fields `module`, `group`, `index`, `type` and
`parameters`, in this order; the parameters are an object in key order. All
five fields are required on reading.
-/

namespace DataPipeline.Definition

/-- The JSON object of an option map. -/
def OptionMap.toJson (o : OptionMap) : Json :=
  .record (o.entries.map fun (key, value) => (key, .ofText value))

/-- The option map of a JSON object; later members replace earlier ones of
the same key. -/
def OptionMap.ofJson? (j : Json) : Option OptionMap := j.textEntries?.map .ofList

/-- The option map that a JSON text describes. -/
def OptionMap.read? (t : Text) : Option OptionMap := Json.read? t >>= OptionMap.ofJson?

/-- The names of the fields of a request. -/
def Request.fieldNames : List Text :=
  ["module", "group", "index", "type", "parameters"].map String.toList

/-- The JSON object of a request. -/
def Request.toJson (r : Request) : Json :=
  .record (Request.fieldNames.zip
    [.ofText r.moduleName, .ofText r.group, .ofNat r.index, .ofText r.role.name.toList,
      r.options.toJson])

/-- The request that a JSON tree describes. -/
def Request.ofJson? (j : Json) : Option Request := do
  match ← j.fields? Request.fieldNames with
  | [some moduleName, some group, some index, some role, some options] =>
    return ⟨← moduleName.text?, ← group.text?, ← index.word64?,
      ← role.choice? fun name => Role.ofName? (String.ofList name), ← OptionMap.ofJson? options⟩
  | _ => none

/-- The request that a JSON text describes. -/
def Request.read? (t : Text) : Option Request := Json.read? t >>= Request.ofJson?

/-- The JSON array of a list of requests. -/
def requestsToJson (requests : List Request) : Json := .array (requests.map Request.toJson)

/-- The list of requests that a JSON array describes. -/
def requestsOfJson? : Json → Option (List Request)
  | .array items => items.mapM Request.ofJson?
  | _ => none

/-- The list of requests that a JSON text describes. -/
def readRequests? (t : Text) : Option (List Request) := Json.read? t >>= requestsOfJson?

end DataPipeline.Definition
