import DataPipeline.Definition.Log
import DataPipeline.Definition.RequestJson
import DataPipeline.Settings

/-!
# Command line

Two commands read a definition: `parse` prints the requests of a pipeline, one
a line or as JSON, and `params` prints the options of a single module as JSON.
What is logged while they read goes to the same stream, before what they print.
Options may stand anywhere among the arguments of their command, each at most
once, and `--` makes everything after it positional.
-/

namespace DataPipeline.CommandLine

open Definition

/-- An option that a command knows. -/
structure Known where
  /-- Its name after `--`. -/
  long : Text
  /-- Its letter after `-`, if any. -/
  short : Option Char
  /-- Whether a value follows it. -/
  valued : Bool

/-- What one argument is, seen alone. -/
inductive Argument
  /-- The mark `--`. -/
  | mark
  /-- An option that is complete; a plain flag has the empty value. -/
  | given (name value : Text)
  /-- An option whose value is the next argument. -/
  | wanting (name : Text)
  | positional (value : Text)
  | unknown

/-- An option with what stands behind it in the same argument. -/
def Known.classify (known : Known) (attached : Option Text) : Argument :=
  match known.valued, attached with
  | true, some value => .given known.long value
  | true, none => .wanting known.long
  | false, none => .given known.long []
  | false, some _ => .unknown

/-- What an argument is to a command with the given options. A lone `-` is
positional. -/
def classify (options : List Known) : Text → Argument
  | ['-', '-'] => .mark
  | '-' :: '-' :: body =>
    let name := body.takeWhile (· ≠ '=')
    let attached := body.dropWhile (· ≠ '=')
    match options.find? fun known => known.long = name with
    | some known => known.classify (if attached = [] then none else some (attached.drop 1))
    | none => .unknown
  | '-' :: letter :: attached =>
    match options.find? fun known => known.short = some letter with
    | some known =>
      known.classify (if attached = [] then none
        else some (if attached.head? = some '=' then attached.drop 1 else attached))
    | none => .unknown
  | value => .positional value

/-- Whether an argument can be the value of the option before it. -/
def isValue : Text → Bool
  | '-' :: _ :: _ => false
  | _ => true

/-- The options given among the arguments, and the positional arguments. When
`leading` holds, only options before the first positional argument are read,
and everything from there on is returned as it is. -/
def scan? (options : List Known) (leading : Bool) :
    List Text → Option (List (Text × Text) × List Text)
  | [] => some ([], [])
  | argument :: rest =>
    match classify options argument with
    | .mark => if leading then none else some ([], rest)
    | .given name value =>
      (scan? options leading rest).map fun (given, others) => ((name, value) :: given, others)
    | .wanting name =>
      match rest with
      | [] => none
      | value :: rest =>
        if isValue value then
          (scan? options leading rest).map fun (given, others) => ((name, value) :: given, others)
        else none
    | .positional value =>
      if leading then some ([], argument :: rest)
      else (scan? options leading rest).map fun (given, others) => (given, value :: others)
    | .unknown => none

/-- The value of an option that may be given at most once. -/
def atMostOnce? (given : List (Text × Text)) (name : Text) : Option (Option Text) :=
  match given.filter fun (n, _) => n = name with
  | [] => some none
  | [(_, value)] => some (some value)
  | _ => none

/-- What the program is asked to do. -/
inductive Command
  /-- Print the requests of a pipeline. -/
  | parse (group definition : Text) (json : Bool)
  /-- Print the options of a single module. -/
  | params (text : Text)
  deriving DecidableEq, Repr

/-- A complete command line. -/
structure Arguments where
  /-- The path of the settings file, if one is given. -/
  settingsPath : Option Text
  /-- What to do. -/
  command : Command
  deriving DecidableEq, Repr

/-- The name of the option for the settings file. -/
def configName : Text := "config".toList

/-- The name of the option for the pipeline's name. -/
def nameName : Text := "name".toList

/-- The name of the flag for JSON output. -/
def jsonName : Text := "json".toList

/-- The command of a list of arguments. -/
def Command.read? (name : Text) (arguments : List Text) : Option Command :=
  if name = "parse".toList then do
    let (given, positional) ←
      scan? [⟨nameName, some 'n', true⟩, ⟨jsonName, none, false⟩] false arguments
    let json ← atMostOnce? given jsonName
    match ← atMostOnce? given nameName, positional with
    | some group, [definition] => return .parse group definition json.isSome
    | _, _ => none
  else if name = "params".toList then do
    match ← scan? [] false arguments with
    | (_, [text]) => return .params text
    | _ => none
  else none

/-- The command line of a list of arguments, if it follows the usage. The path
of the settings file must not be empty. -/
def Arguments.read? (arguments : List Text) : Option Arguments := do
  let (given, rest) ← scan? [⟨configName, some 'c', true⟩] true arguments
  let settingsPath ← atMostOnce? given configName
  guard (settingsPath ≠ some [])
  match rest with
  | name :: rest => return ⟨settingsPath, ← Command.read? name rest⟩
  | [] => none

/-- How events are logged. -/
structure Logger where
  /-- Whether an event is logged at all. -/
  logs : Event → Bool
  /-- The line of an event. It may depend on the number of events before it, as
  times do. -/
  line : Nat → Event → Text

namespace Logger

/-- The lines of events one after the other, each ended by a line feed. -/
def text (logger : Logger) (events : List Event) : Text :=
  events.zipIdx.flatMap fun (e, n) => if logger.logs e then logger.line n e ++ ['\n'] else []

/-- The logger that is installed if nothing else is asked for. Each line begins
with a stamp for its time. -/
def standard (stamp : Nat → Text) : Logger where
  logs e := e.level.isLogged
  line n e := stamp n ++ e.line

end Logger

/-- What a command prints once it has read its text. -/
def Command.output (settings : ParserSettings) : Command → Except ParseError Text
  | .parse group definition json => do
    let requests ← Definition.parse settings group definition
    return if json then (requestsToJson requests).toIndented ++ ['\n']
      else requests.flatMap fun request => request.line ++ ['\n']
  | .params text => do
    return (← parameters settings text).toJson.toIndented ++ ['\n']

/-- The events while a command reads its text. -/
def Command.events (settings : ParserSettings) : Command → List Event
  | .parse group definition _ => parseEvents settings group definition
  | .params text => parametersEvents settings text

/-- What the command prints, without what is logged, or the message of its
failure. A failure to load the settings is reported before any error of the
definition. -/
def Command.run (command : Command) (settings : Except SettingsError Settings) :
    Except String Text :=
  match settings with
  | .error e => .error e.message
  | .ok settings =>
    match command.output settings.parser with
    | .error e => .error e.message
    | .ok t => .ok t

/-- What is logged while a command runs. Without settings nothing is read. -/
def Command.log (logger : Logger) (command : Command) :
    Except SettingsError Settings → Text
  | .error _ => []
  | .ok settings => logger.text (command.events settings.parser)

/-- All that the program writes to its standard output: what is logged, and then
what the command prints unless it fails. -/
def Command.written (logger : Logger) (command : Command)
    (settings : Except SettingsError Settings) : Text :=
  command.log logger settings ++ (command.run settings).toOption.getD []

/-- How the program is called. -/
def usage : String :=
  "usage: [--config FILE] parse --name NAME DEFINITION [--json]\n" ++
  "       [--config FILE] params MODULE"

end DataPipeline.CommandLine
