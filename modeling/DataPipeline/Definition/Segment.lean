import DataPipeline.Definition.OptionMap
import DataPipeline.Definition.Token

/-!
# Segments of a pipeline

Tokens are grouped into segments: a module name with its options. Separators
stand between segments, so a separator without a module on either side is an
error. A repeated option key is an error or replaces the earlier value, as the
settings say.
-/

namespace DataPipeline.Definition

/-- What to do when a module repeats an option key. -/
inductive RepeatPolicy
  /-- Report the repeated key. -/
  | reject
  /-- Keep the last value. -/
  | lastWins
  deriving DecidableEq, Repr, Inhabited

/-- Settings of the definition reader. -/
structure ParserSettings where
  /-- Handling of repeated option keys within one module. -/
  repeatedKeys : RepeatPolicy := .reject
  /-- Accept `--key=` with an empty value. -/
  allowEmptyValues : Bool := false
  deriving DecidableEq, Repr, Inhabited

/-- One module of a pipeline with its options. -/
structure Segment where
  /-- The name of the module. -/
  name : Text
  /-- The options given to it. -/
  options : OptionMap
  deriving DecidableEq

/-- The segment with the option of a token added. -/
def Segment.addOption (policy : RepeatPolicy) (segment : Segment) (key value : Text)
    (token : Token) : Except ParseError Segment :=
  if segment.options.contains key && policy = .reject then
    .error ⟨.repeatedKey key segment.name, token.text, token.offset⟩
  else .ok { segment with options := segment.options.insert key value }

/-- Groups tokens into segments. The open segment is the one that further
options go to; `lastPipe` is the separator before it. -/
def groupTokens (policy : RepeatPolicy) :
    (current : Option Segment) → (lastPipe : Option Token) → List Token →
      Except ParseError (List Segment)
  | some segment, _, [] => .ok [segment]
  | none, some pipe, [] => .error ⟨.noModuleAfter, pipe.text, pipe.offset⟩
  | none, none, [] => .ok []
  | current, lastPipe, token :: tokens =>
    match token.kind, current with
    | .name name, _ => groupTokens policy (some ⟨name, .empty⟩) lastPipe tokens
    | .option _ _, none => .error ⟨.strayOption, token.text, token.offset⟩
    | .option key value, some segment => do
      let segment ← segment.addOption policy key value token
      groupTokens policy (some segment) lastPipe tokens
    | .pipe, none => .error ⟨.noModuleBefore, token.text, token.offset⟩
    | .pipe, some segment => do
      let segments ← groupTokens policy none (some token) tokens
      return segment :: segments

/-- The segments of a text. Blank texts and texts without a module are
refused; faults in the tokens are reported before errors of grouping. -/
def segments (settings : ParserSettings) (singleModule : Bool) (text : Text) :
    Except ParseError (List Segment) := do
  if Text.isAllBlank text then .error ⟨.blankText, text, 0⟩
  let tokens ← tokenize ⟨settings.allowEmptyValues, singleModule⟩ text
  let found ← groupTokens settings.repeatedKeys none none tokens
  if found = [] then .error ⟨.noModules, text, 0⟩
  return found

end DataPipeline.Definition
