import DataPipeline.Text.Basic

/-!
# Errors of definition reading

An error is a cause, the offending fragment of the input and the character
position at which that fragment starts. Causes fall into six kinds; the
wording of each is fixed here and nowhere else.
-/

namespace DataPipeline.Definition

/-- The six kinds of error a reader of definitions can report. -/
inductive ErrorKind
  | emptyDefinition
  | missingModule
  | invalidModuleName
  | malformedOption
  | duplicateOption
  | unexpectedToken
  deriving DecidableEq, Repr

/-- Short words for a kind of error. -/
def ErrorKind.label : ErrorKind → String
  | .emptyDefinition => "empty definition"
  | .missingModule => "missing module"
  | .invalidModuleName => "invalid module name"
  | .malformedOption => "malformed option"
  | .duplicateOption => "duplicate option"
  | .unexpectedToken => "unexpected token"

/-- What is wrong with a definition. -/
inductive Cause
  /-- The name of the definition is blank. -/
  | blankName
  /-- The definition is blank. -/
  | blankText
  /-- Nothing but separators and blanks. -/
  | noModules
  /-- A separator with no module before it. -/
  | noModuleBefore
  /-- A last separator with no module after it. -/
  | noModuleAfter
  /-- A module name that starts with another character. -/
  | nameStart
  /-- A module name that holds another character. -/
  | nameCharacter
  /-- An option head glued to a module name. -/
  | gluedOption
  /-- An option where a module name is due. -/
  | optionFirst
  /-- An option without a module in its segment. -/
  | strayOption
  /-- An option mark without a key. -/
  | optionKey
  /-- An option key without `=`. -/
  | noEquals (key : Text)
  /-- An option without a value. -/
  | noValue (key : Text)
  /-- An option key that its module already has. -/
  | repeatedKey (key moduleName : Text)
  /-- A word that is neither an option nor a separator. -/
  | strayWord
  /-- A separator in the text of a single module. -/
  | separatorRefused
  /-- More than one module, or none, in the text of a single module. -/
  | notOneModule
  deriving DecidableEq, Repr

namespace Cause

/-- The kind that a cause falls into. -/
def kind : Cause → ErrorKind
  | blankName | blankText | noModules => .emptyDefinition
  | noModuleBefore | noModuleAfter => .missingModule
  | nameStart | nameCharacter => .invalidModuleName
  | gluedOption | optionFirst | strayOption | optionKey | noEquals _ | noValue _ => .malformedOption
  | repeatedKey _ _ => .duplicateOption
  | strayWord | separatorRefused | notOneModule => .unexpectedToken

/-- The explanation of a cause. -/
def detail : Cause → String
  | blankName => "definition name must not be blank"
  | blankText => "definition is blank"
  | noModules => "definition contains no modules"
  | noModuleBefore => "no module before '|'"
  | noModuleAfter => "no module after '|'"
  | nameStart => "module name must start with a letter or '_'"
  | nameCharacter => "module name may only contain letters, digits, '_' and '-'"
  | gluedOption => "missing whitespace between module name and option"
  | optionFirst | strayOption => "option must follow a module name"
  | optionKey => "option key must be an identifier"
  | noEquals key => "expected '=' after option key '" ++ String.ofList key ++ "'"
  | noValue key => "option '" ++ String.ofList key ++ "' has no value"
  | repeatedKey key moduleName =>
    "option '" ++ String.ofList key ++ "' is already set for module '" ++
      String.ofList moduleName ++ "'"
  | strayWord => "expected '--key=value' option or '|'"
  | separatorRefused => "pipeline separator is not allowed in a single module"
  | notOneModule => "expected exactly one module"

end Cause

/-- A failure to read a definition. -/
structure ParseError where
  /-- What is wrong. -/
  cause : Cause
  /-- The offending part of the input. -/
  fragment : Text
  /-- Number of characters before the fragment. -/
  offset : Nat
  deriving DecidableEq, Repr

namespace ParseError

/-- The kind of the error's cause. -/
def kind (e : ParseError) : ErrorKind := e.cause.kind

/-- The error on one line: kind, place, fragment and explanation. -/
def message (e : ParseError) : String :=
  e.kind.label ++ " at offset " ++ toString e.offset ++ " ('" ++ String.ofList e.fragment ++
    "'): " ++ e.cause.detail

end ParseError

end DataPipeline.Definition
