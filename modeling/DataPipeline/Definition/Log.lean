import DataPipeline.Definition.Pipeline
import DataPipeline.Text.Digits
import DataPipeline.Text.Quoted

/-!
# Events of reading

While a definition is read, events are reported: each token that is cut, each
option that replaces an earlier value of its key, and each pipeline that was
read. What was reported before an error stays reported.
-/

namespace DataPipeline.Definition

open Text

/-- How much an event matters. -/
inductive Level
  | trace
  | debug
  | info
  | warn
  deriving DecidableEq, Repr

namespace Level

/-- The place of a level, from the least to the greatest. -/
def rank : Level → Nat
  | trace => 0
  | debug => 1
  | info => 2
  | warn => 3

/-- Whether a level is logged if nothing else is asked for. -/
def isLogged (level : Level) : Bool := info.rank ≤ level.rank

/-- The name of a level, five places wide. -/
def name : Level → Text
  | trace => "TRACE".toList
  | debug => "DEBUG".toList
  | info => " INFO".toList
  | warn => " WARN".toList

end Level

/-- Something that the reader reports while it works. -/
inductive Event
  /-- A token was cut from the text. -/
  | tokenCut (token : Token)
  /-- An option replaced an earlier value of its key. -/
  | overridden (moduleName key : Text)
  /-- A pipeline of so many modules was read. -/
  | pipelineRead (group : Text) (count : Nat)
  deriving DecidableEq, Repr

namespace Event

/-- How much an event matters. -/
def level : Event → Level
  | tokenCut _ => .trace
  | overridden _ _ => .warn
  | pipelineRead _ _ => .debug

/-- The part of the reader that reports an event. -/
def source : Event → Text
  | tokenCut _ => "streamdef::stream::lexer".toList
  | overridden _ _ | pipelineRead _ _ => "streamdef::stream::parser".toList

/-- What an event says. -/
def message : Event → Text
  | tokenCut _ => "lexed token".toList
  | overridden _ _ => "duplicate option overrides earlier value".toList
  | pipelineRead _ _ => "parsed stream definition".toList

/-- What an event is about, by name. -/
def fields : Event → List (Text × Text)
  | tokenCut token => [("offset".toList, ofNat token.offset), ("text".toList, token.text)]
  | overridden moduleName key => [("module".toList, moduleName), ("option".toList, key)]
  | pipelineRead group count =>
    [("definition".toList, quote group), ("modules".toList, ofNat count)]

/-- An event on one line, after its time. -/
def line (e : Event) : Text :=
  e.level.name ++ ' ' :: e.source ++ ": ".toList ++ e.message ++
    e.fields.flatMap fun (name, value) => ' ' :: (name ++ '=' :: value)

end Event

/-- The tokens that are cut from a text, up to its end or its first fault. -/
def tokensCut (d : Dialect) (nameDue : Bool) (offset : Nat) (t : Text) : List Token :=
  match _ht : t.dropWhile isAsciiBlank with
  | [] => []
  | c :: rest =>
    let start := offset + (t.takeWhile isAsciiBlank).length
    match _hl : lexToken d nameDue (c :: rest) with
    | .error _ => []
    | .ok l =>
      ⟨l.kind, l.text, start⟩ ::
        tokensCut d (l.kind = .pipe) (start + l.text.length) ((c :: rest).drop l.text.length)
termination_by t.length
decreasing_by exact length_rest_lt _ht _hl

/-- The options that replace an earlier value while tokens are grouped, up to the
first error. -/
def overrides (policy : RepeatPolicy) : (current : Option Segment) → List Token → List Event
  | _, [] => []
  | current, token :: tokens =>
    match token.kind, current with
    | .name name, _ => overrides policy (some ⟨name, .empty⟩) tokens
    | .option key value, some segment =>
      match segment.addOption policy key value token with
      | .error _ => []
      | .ok next =>
        let later := overrides policy (some next) tokens
        if segment.options.contains key then .overridden segment.name key :: later else later
    | .pipe, some _ => overrides policy none tokens
    | _, none => []

/-- The events while the segments of a text are read. -/
def segmentEvents (settings : ParserSettings) (singleModule : Bool) (text : Text) : List Event :=
  if isAllBlank text then []
  else
    let d : Dialect := ⟨settings.allowEmptyValues, singleModule⟩
    (tokensCut d true 0 text).map .tokenCut ++
      match tokenize d text with
      | .error _ => []
      | .ok tokens => overrides settings.repeatedKeys none tokens

/-- The events while the definition of a pipeline is read. -/
def parseEvents (settings : ParserSettings) (group definition : Text) : List Event :=
  if isAllBlank group then []
  else
    segmentEvents settings false definition ++
      match parse settings group definition with
      | .error _ => []
      | .ok requests => [.pipelineRead group requests.length]

/-- The events while the options of a single module are read. -/
def parametersEvents (settings : ParserSettings) (text : Text) : List Event :=
  segmentEvents settings true text

end DataPipeline.Definition
