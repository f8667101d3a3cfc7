import DataPipeline.Proofs.Json.RecordFields
import DataPipeline.Settings

/-!
# Settings files

The text that is written for settings is read back as them. A file may also give
only some of the settings, at their places in any order and in any spelling, among
other keys with any values. It is loaded as the settings with these values and the
defaults everywhere else.
-/

namespace DataPipeline

open Definition

/-- The single settings. -/
inductive Setting
  | repeatedKeys
  | allowEmptyValues
  | datePattern
  deriving DecidableEq

namespace Settings

/-- The given ones of some settings, with the defaults everywhere else. -/
def only (given : Setting → Bool) (s : Settings) : Settings where
  parser.repeatedKeys := (if given .repeatedKeys then s else {}).parser.repeatedKeys
  parser.allowEmptyValues := (if given .allowEmptyValues then s else {}).parser.allowEmptyValues
  conversion.datePattern := (if given .datePattern then s else {}).conversion.datePattern

/-- The JSON forms of a policy: its name, or the name as the key of `null`. -/
inductive IsPolicy (policy : RepeatPolicy) : Json → Prop
  | name : IsPolicy policy (.ofText (policyName policy))
  | key : IsPolicy policy (.record [(policyName policy, .null)])

section Forms

variable (admits : Option Text → Prop) (given : Setting → Bool) (s : Settings)

/-- The group of the reader's settings gives those that are given. It may be missing
if none is. Other keys in it are admitted ones. -/
inductive GivesParser : Option Json → Prop
  | missing (repeatedKeys : given .repeatedKeys = false)
      (allowEmptyValues : given .allowEmptyValues = false) : GivesParser none
  | group {policy j : Json} (form : IsPolicy s.parser.repeatedKeys policy)
      (fields : j.HasFields admits (parserFields.zip
        [if given .repeatedKeys then some policy else none,
         if given .allowEmptyValues then some (.bool s.parser.allowEmptyValues) else none])) :
      GivesParser (some j)

/-- The group of the conversion settings gives those that are given. -/
inductive GivesConversion : Option Json → Prop
  | missing (datePattern : given .datePattern = false) : GivesConversion none
  | group {j : Json}
      (fields : j.HasFields admits (conversionFields.zip
        [if given .datePattern then some (.ofText s.conversion.datePattern) else none])) :
      GivesConversion (some j)

/-- A JSON object gives some of the settings in their groups. -/
inductive Gives (j : Json) : Prop
  | groups {parser conversion : Option Json} (isParser : GivesParser admits given s parser)
      (isConversion : GivesConversion admits given s conversion)
      (fields : j.HasFields admits (groupFields.zip [parser, conversion]))

end Forms

section Reading

variable {given : Setting → Bool} {s : Settings}

/-- Every policy is the choice of its name. -/
theorem policyOfName?_policyName (policy : RepeatPolicy) :
    policyOfName? (policyName policy) = some policy := by
  cases policy <;> decide

/-- What gives a policy is read as that policy. -/
theorem IsPolicy.choice?_eq {policy : RepeatPolicy} {j : Json} (h : IsPolicy policy j) :
    j.choice? policyOfName? = some policy := by
  cases h <;> exact policyOfName?_policyName policy

/-- A setting that stands in its place if it is given is read as its value or the
default. -/
theorem orDefault_given {α : Type} (setting : Settings → α) {decode : Json → Option α} {j : Json}
    (h : decode j = some (setting s)) (isGiven : Bool) :
    Json.orDefault decode (setting {}) (if isGiven then some j else none) =
      some (setting (if isGiven then s else {})) := by
  cases isGiven
  · rfl
  · exact h

/-- The reader's settings are read off their two fields. -/
theorem parserOfJson?_of_fields {j : Json} {policy empty : Option Json}
    (h : j.fields? parserFields = some [policy, empty]) :
    parserOfJson? j = do
      let repeatedKeys ← Json.orDefault (Json.choice? policyOfName?) .reject policy
      let allowEmptyValues ← Json.orDefault Json.bool? false empty
      return ⟨repeatedKeys, allowEmptyValues⟩ := by
  rw [parserOfJson?, h]
  rfl

/-- The conversion settings are read off their field. -/
theorem conversionOfJson?_of_fields {j : Json} {pattern : Option Json}
    (h : j.fields? conversionFields = some [pattern]) :
    conversionOfJson? j = do
      let datePattern ← Json.orDefault Json.text? ({} : ConversionSettings).datePattern pattern
      return ⟨datePattern⟩ := by
  rw [conversionOfJson?, h]
  rfl

/-- All settings are read off their two groups. -/
theorem ofJson?_of_fields {j : Json} {parser conversion : Option Json}
    (h : j.fields? groupFields = some [parser, conversion]) :
    ofJson? j = do
      let parser ← Json.orDefault parserOfJson? {} parser
      let conversion ← Json.orDefault conversionOfJson? {} conversion
      return ⟨parser, conversion⟩ := by
  rw [ofJson?, h]
  rfl

/-- What gives the reader's settings is read as those that are given. -/
theorem GivesParser.orDefault_eq {parser : Option Json}
    (h : GivesParser Json.IsTextKey given s parser) :
    Json.orDefault parserOfJson? {} parser = some (s.only given).parser := by
  cases h with
  | missing repeatedKeys allowEmptyValues =>
    rw [only, repeatedKeys, allowEmptyValues]
    rfl
  | @group policy j form fields =>
    have hpolicy := orDefault_given (·.parser.repeatedKeys) form.choice?_eq (given .repeatedKeys)
    have hempty := orDefault_given (·.parser.allowEmptyValues)
      (show Json.bool? (.bool s.parser.allowEmptyValues) = _ from rfl) (given .allowEmptyValues)
    rw [Json.orDefault, parserOfJson?_of_fields (fields.fields?_zip (by decide) rfl)]
    rw [hpolicy, hempty]
    rfl

/-- What gives the conversion settings is read as those that are given. -/
theorem GivesConversion.orDefault_eq {conversion : Option Json}
    (h : GivesConversion Json.IsTextKey given s conversion) :
    Json.orDefault conversionOfJson? {} conversion = some (s.only given).conversion := by
  cases h with
  | missing datePattern =>
    rw [only, datePattern]
    rfl
  | @group j fields =>
    have hpattern := orDefault_given (·.conversion.datePattern)
      (Json.text?_ofText s.conversion.datePattern) (given .datePattern)
    rw [Json.orDefault, conversionOfJson?_of_fields (fields.fields?_zip (by decide) rfl)]
    rw [hpattern]
    rfl

/-- What an object gives is read from it, with the defaults everywhere else. -/
theorem Gives.ofJson?_eq {j : Json}
    (h : Gives Json.IsTextKey given s j) : ofJson? j = some (s.only given) := by
  obtain ⟨isParser, isConversion, fields⟩ := h
  rw [ofJson?_of_fields (fields.fields?_zip (by decide) rfl),
    isParser.orDefault_eq, isConversion.orDefault_eq]
  rfl

end Reading

section Refusal

variable {given : Setting → Bool} {s : Settings}

/-- A group of the reader's settings has texts as its keys, or it is refused. -/
theorem GivesParser.texts_or_refused {parser : Option Json}
    (h : GivesParser (fun _ => True) given s parser) :
    GivesParser Json.IsTextKey given s parser ∨
      Json.orDefault parserOfJson? {} parser = none := by
  cases h with
  | missing repeatedKeys allowEmptyValues => exact .inl (.missing repeatedKeys allowEmptyValues)
  | group form fields =>
    refine fields.texts_or_refused.imp (.group form) fun hrefused => ?_
    rw [Json.orDefault, parserOfJson?, hrefused]
    rfl

/-- A group of conversion settings has texts as its keys, or it is refused. -/
theorem GivesConversion.texts_or_refused {conversion : Option Json}
    (h : GivesConversion (fun _ => True) given s conversion) :
    GivesConversion Json.IsTextKey given s conversion ∨
      Json.orDefault conversionOfJson? {} conversion = none := by
  cases h with
  | missing datePattern => exact .inl (.missing datePattern)
  | group fields =>
    refine fields.texts_or_refused.imp .group fun hrefused => ?_
    rw [Json.orDefault, conversionOfJson?, hrefused]
    rfl

/-- An object that gives settings is read unless it or one of its groups has a key
that is no text. -/
theorem Gives.texts_or_refused {j : Json} (h : Gives (fun _ => True) given s j) :
    Gives Json.IsTextKey given s j ∨ ofJson? j = none := by
  obtain ⟨isParser, isConversion, fields⟩ := h
  -- The object is read first, then its groups in their order.
  rcases fields.texts_or_refused with fields | hrefused
  · have hfields := ofJson?_of_fields (fields.fields?_zip (by decide) rfl)
    rcases isParser.texts_or_refused with isParser | hrefused
    · rcases isConversion.texts_or_refused with isConversion | hrefused
      · exact .inl (.groups isParser isConversion fields)
      · rw [hfields, isParser.orDefault_eq, hrefused]
        exact .inr rfl
    · rw [hfields, hrefused]
      exact .inr rfl
  · rw [ofJson?, hrefused]
    exact .inr rfl

end Refusal

section Writing

/-- The written object gives all settings. -/
theorem gives_toJson (admits : Option Text → Prop) (s : Settings) :
    Gives admits (fun _ => true) s s.toJson := by
  have hparser := Json.hasFields_record admits (parserFields.zip
    [.ofText (policyName s.parser.repeatedKeys), .bool s.parser.allowEmptyValues])
  have hconversion := Json.hasFields_record admits
    (conversionFields.zip [.ofText s.conversion.datePattern])
  exact .groups (.group .name hparser) (.group hconversion)
    (Json.hasFields_record admits (groupFields.zip [_, _]))

/-- The tree of settings is plain. -/
theorem isPlain_toJson (s : Settings) : s.toJson.IsPlain := by
  have hparser : (Json.record (parserFields.zip [.ofText (policyName s.parser.repeatedKeys),
      .bool s.parser.allowEmptyValues])).IsPlain := by
    refine Json.isPlain_record_zip ?_
    simp only [List.forall_mem_cons]
    exact ⟨Json.isPlain_ofText _, .bool _, List.forall_mem_nil _⟩
  have hconversion : (Json.record (conversionFields.zip
      [.ofText s.conversion.datePattern])).IsPlain :=
    Json.isPlain_record_zip (List.forall_mem_singleton.mpr (Json.isPlain_ofText _))
  refine Json.isPlain_record_zip ?_
  simp only [List.forall_mem_cons]
  exact ⟨hparser, hconversion, List.forall_mem_nil _⟩

end Writing

/-- What a file is loaded as depends on its JSON value alone. -/
theorem load_of_spells (shownPath : String) {t : Text} {j : Json} (h : Json.Spells t j) :
    load shownPath (some t) = (ofJson? j).elim (.error .malformed) .ok := by
  rw [load, read?, Json.read?_of_spells h]
  rfl

/-- A key that names half of a surrogate pair alone. It is no text, and no setting. -/
theorem gives_unpaired_key :
    let t : Text := ['\x7b', '"', '\\', 'u', 'd', '8', '0', '0', '"', ':', '0', '\x7d']
    let j : Json := .object [(none, .number ['0'])]
    Json.Spells t j ∧ Gives (fun _ => True) (fun _ => false) {} j ∧
      ¬Gives Json.IsTextKey (fun _ => false) {} j := by
  intro t j
  refine ⟨?_, ?_, ?_⟩
  · have hbody : Json.SpellsBody ['\\', 'u', 'd', '8', '0', '0'] [.code 0xD800] :=
      .code (h := 13) (i := 8) (j := 0) (k := 0) rfl rfl rfl rfl .nil
    have hkey : Json.Spells ['"', '\\', 'u', 'd', '8', '0', '0', '"'] (.string none) :=
      .string hbody
    have hvalue : Json.Spells ['0'] (.number ['0']) := .number (.parts (.inl rfl) .zero .none .none)
    exact @Json.Spells.object [] [⟨_, none, _, _⟩] (List.forall_mem_nil _)
      (List.forall_mem_singleton.mpr hkey) (List.forall_mem_singleton.mpr hvalue)
  · refine .groups (.missing rfl rfl) (.missing rfl)
      (@Json.HasFields.object _ _ [(none, .number ['0'])] _ (List.forall_mem_singleton.mpr ?_)
        (.refl _))
    exact ⟨trivial, fun _ _ h => by cases h⟩
  · rintro ⟨-, -, fields⟩
    exact absurd (fields.isTextKey _ (List.mem_singleton_self _)) Bool.false_ne_true

/-- Settings files. What is written for some settings is loaded as them. A file of
any spelling that gives some of them at their places, in any order and among other
members with any values, is loaded as the given ones with the defaults everywhere
else, as long as the other keys of the object and of its groups are texts. With
another key that is no text the file is refused. -/
theorem load_of_gives (shownPath : String) (s : Settings) :
    load shownPath (some s.write) = .ok s ∧
      (∀ (given : Setting → Bool) (t : Text) (j : Json), Json.Spells t j →
        Gives Json.IsTextKey given s j → load shownPath (some t) = .ok (s.only given)) ∧
      ∀ (given : Setting → Bool) (t : Text) (j : Json), Json.Spells t j →
        Gives (fun _ => True) given s j → ¬Gives Json.IsTextKey given s j →
        load shownPath (some t) = .error .malformed := by
  refine ⟨?_, fun given t j hspells hgives => ?_, fun given t j hspells hgives hno => ?_⟩
  · have hwritten := Json.spells_write Json.isBlank_indented s.isPlain_toJson 0
    rw [write, Json.toIndented, load_of_spells shownPath hwritten,
      (gives_toJson Json.IsTextKey s).ofJson?_eq]
    rfl
  · rw [load_of_spells shownPath hspells, hgives.ofJson?_eq]
    rfl
  · rw [load_of_spells shownPath hspells, hgives.texts_or_refused.resolve_left hno]
    rfl

theorem load_of_gives_sample :
    let s : Settings := ⟨⟨.lastWins, true⟩, ⟨['é', '😀', '"']⟩⟩
    load "settings.json" (some s.write) = .ok s ∧
      load "settings.json" (some ("\x7b\"x\":[\"\\ud800\"], \"conversion\" :\x7b\"\":-5e1," ++
        "\"date_pattern\":\"\\u00e9\\ud83d\\ude00\\\"\"\x7d,\"x\":null\x7d").toList) =
        .ok { conversion := ⟨['é', '😀', '"']⟩ } ∧
      load "settings.json" (some
        ['\x7b', '"', '\\', 'u', 'd', '8', '0', '0', '"', ':', '0', '\x7d']) =
          .error .malformed := by
  intro s
  have hnone : Json.AreBlanks [] := List.forall_mem_nil _
  have hblank : Json.AreBlanks [' '] := List.forall_mem_singleton.mpr rfl
  have hhalf : Json.Spells "\"\\ud800\"".toList (.string none) :=
    .string (.code (h := 13) (i := 8) (j := 0) (k := 0) (t := []) rfl rfl rfl rfl .nil)
  have hitems : Json.Spells "[\"\\ud800\"]".toList (.array [.string none]) :=
    @Json.Spells.array [] [⟨_, _⟩] hnone (List.forall_mem_singleton.mpr hhalf)
  have hnumber : Json.Spells ['-', '5', 'e', '1'] (.number ['-', '5', 'e', '1']) :=
    .number (@Json.IsNumeral.parts ['-'] ['5'] [] ['e', '1'] (.inr rfl)
      (.digits (by decide) ⟨List.cons_ne_nil _ _, List.forall_mem_singleton.mpr rfl⟩) .none
      (@Json.IsExponent.mark 'e' [] ['1'] (.inl rfl) (.inl rfl)
        ⟨List.cons_ne_nil _ _, List.forall_mem_singleton.mpr rfl⟩))
  have hpattern : Json.Spells "\"\\u00e9\\ud83d\\ude00\\\"\"".toList
      (.ofText s.conversion.datePattern) :=
    .string (.code (h := 0) (i := 0) (j := 14) (k := 9) rfl rfl rfl rfl
      (.code (h := 13) (i := 8) (j := 3) (k := 13) rfl rfl rfl rfl
        (.code (h := 13) (i := 14) (j := 0) (k := 0) rfl rfl rfl rfl (.short rfl .nil))))
  have hgroup := @Json.Spells.object []
    [⟨_, some [], _, _⟩, ⟨_, some "date_pattern".toList, _, _⟩] hnone
    (List.forall_mem_cons.mpr ⟨Json.spells_quote [],
      List.forall_mem_singleton.mpr (Json.spells_quote "date_pattern".toList)⟩)
    (List.forall_mem_cons.mpr ⟨hnumber, List.forall_mem_singleton.mpr hpattern⟩)
  have hconversion :=
    Json.Spells.blanks hblank hblank (Json.spells_quote "conversion".toList)
  have htext := @Json.Spells.object []
    [⟨_, some ['x'], _, _⟩, ⟨_, some "conversion".toList, _, _⟩, ⟨_, some ['x'], _, _⟩] hnone
    (List.forall_mem_cons.mpr ⟨Json.spells_quote ['x'], List.forall_mem_cons.mpr
      ⟨hconversion, List.forall_mem_singleton.mpr (Json.spells_quote ['x'])⟩⟩)
    (List.forall_mem_cons.mpr ⟨hitems, List.forall_mem_cons.mpr
      ⟨hgroup, List.forall_mem_singleton.mpr .null⟩⟩)
  obtain ⟨hunpaired, hany, hno⟩ := gives_unpaired_key
  refine ⟨(load_of_gives _ s).1,
    (load_of_gives _ s).2.1 (fun setting => setting = .datePattern) _ _ htext ?_,
    (load_of_gives _ {}).2.2 (fun _ => false) _ _ hunpaired hany hno⟩
  refine .groups (.missing rfl rfl) (.group ?_) (@Json.HasFields.object _ _
    [(some ['x'], .array [.string none]), (some ['x'], .null)] _ (by decide) (.swap _ _ _))
  exact @Json.HasFields.object _ _ [(some [], .number ['-', '5', 'e', '1'])] _ (by decide)
    (.swap _ _ _)

/-- An object with an unknown key is refused if the key is no text, although it
gives no setting wrongly. -/
theorem load_unpaired_key :
    let t : Text := ['\x7b', '"', '\\', 'u', 'd', '8', '0', '0', '"', ':', '0', '\x7d']
    let j : Json := .object [(none, .number ['0'])]
    Json.Spells t j ∧ Gives (fun _ => True) (fun _ => false) {} j ∧
      load "settings.json" (some t) ≠ .ok (only (fun _ => false) {}) :=
  ⟨gives_unpaired_key.1, gives_unpaired_key.2.1, by decide⟩

end Settings

end DataPipeline
