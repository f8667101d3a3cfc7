import DataPipeline.Definition.Segment
import DataPipeline.Json.Decode
import DataPipeline.Json.Printer
import DataPipeline.Json.Reader

/-!
# Settings

Settings of the definition reader and of the default conversions, with their
form as an indented JSON file. A field that the file does not give has its
default, at both levels.
-/

namespace DataPipeline

open Definition

/-- Settings of the default conversions. -/
structure ConversionSettings where
  /-- The pattern by which dates are written and read. -/
  datePattern : Text := "%Y-%m-%d".toList
  deriving DecidableEq, Repr, Inhabited

/-- All settings. -/
structure Settings where
  /-- Settings of the definition reader. -/
  parser : ParserSettings := {}
  /-- Settings of the default conversions. -/
  conversion : ConversionSettings := {}
  deriving DecidableEq, Repr, Inhabited

namespace Settings

/-- The written name of a policy. -/
def policyName : RepeatPolicy → Text
  | .reject => "reject".toList
  | .lastWins => "last-wins".toList

/-- The policy of a written name. -/
def policyOfName? (name : Text) : Option RepeatPolicy :=
  [.reject, .lastWins].find? fun policy => policyName policy = name

/-- The names of the fields of the reader's settings. -/
def parserFields : List Text := ["duplicate_options", "allow_empty_values"].map String.toList

/-- The names of the fields of the conversion settings. -/
def conversionFields : List Text := ["date_pattern"].map String.toList

/-- The names of the two groups of settings. -/
def groupFields : List Text := ["parser", "conversion"].map String.toList

/-- The JSON object of the settings, with every field written. -/
def toJson (s : Settings) : Json :=
  .record (groupFields.zip
    [.record (parserFields.zip
      [.ofText (policyName s.parser.repeatedKeys), .bool s.parser.allowEmptyValues]),
     .record (conversionFields.zip [.ofText s.conversion.datePattern])])

/-- The reader's settings of a JSON tree. -/
def parserOfJson? (j : Json) : Option ParserSettings := do
  match ← j.fields? parserFields with
  | [repeatedKeys, allowEmptyValues] =>
    return ⟨← Json.orDefault (Json.choice? policyOfName?) .reject repeatedKeys,
      ← Json.orDefault Json.bool? false allowEmptyValues⟩
  | _ => none

/-- The conversion settings of a JSON tree. -/
def conversionOfJson? (j : Json) : Option ConversionSettings := do
  match ← j.fields? conversionFields with
  | [datePattern] =>
    return ⟨← Json.orDefault Json.text? ({} : ConversionSettings).datePattern datePattern⟩
  | _ => none

/-- The settings of a JSON tree. -/
def ofJson? (j : Json) : Option Settings := do
  match ← j.fields? groupFields with
  | [parser, conversion] =>
    return ⟨← Json.orDefault parserOfJson? {} parser,
      ← Json.orDefault conversionOfJson? {} conversion⟩
  | _ => none

/-- The text of a settings file. -/
def write (s : Settings) : Text := s.toJson.toIndented

/-- The settings that the text of a file describes. -/
def read? (t : Text) : Option Settings := Json.read? t >>= ofJson?

end Settings

/-- What can go wrong with a settings file, whose path is given as it is to be
shown. -/
inductive SettingsError
  /-- The file cannot be read. -/
  | unreadable (shownPath : String)
  /-- The text of the file describes no settings. -/
  | malformed
  /-- The file cannot be written. -/
  | unwritable (shownPath : String)
  deriving DecidableEq, Repr

/-- The wording of an error. -/
def SettingsError.message : SettingsError → String
  | .unreadable path => "Failed to read config: " ++ path
  | .malformed => "Failed to deserialize config"
  | .unwritable path => "Failed to write config: " ++ path

/-- The settings in the contents of a file, which are absent if the file
cannot be read. -/
def Settings.load (shownPath : String) : Option Text → Except SettingsError Settings
  | none => .error (.unreadable shownPath)
  | some t => (read? t).elim (.error .malformed) .ok

end DataPipeline
