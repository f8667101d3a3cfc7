import DataPipeline.Proofs.Definition.Emission

/-!
# Lenient settings

Settings are ordered by what they let through: repeated keys and empty values.
The outcome under more lenient settings is the same, unless the stricter ones
refuse a key or a value on this ground. Each stage of reading keeps this
relation, and so do the readers. Where repeated keys are let through, the last
value of a key counts.
-/

namespace DataPipeline.Definition

open Text

/-- A policy lets through what a stricter one does. -/
instance : LE RepeatPolicy := ⟨fun strict lenient => strict = .reject ∨ lenient = .lastWins⟩

/-- Settings let through what stricter ones do. -/
instance : LE ParserSettings :=
  ⟨fun strict lenient => strict.repeatedKeys ≤ lenient.repeatedKeys ∧
    strict.allowEmptyValues ≤ lenient.allowEmptyValues⟩

/-- The errors on which settings differ: a repeated key and a value that is
missing. -/
def ParseError.IsRefusal (e : ParseError) : Prop :=
  e.kind = .duplicateOption ∨ ∃ key, e.cause = .noValue key

/-- The second outcome is the first one, unless that is a refusal. -/
def Relaxes {α : Type} (strict lenient : Except ParseError α) : Prop :=
  lenient = strict ∨ ∃ e, strict = .error e ∧ e.IsRefusal

section Outcomes

variable {α β : Type} {strict lenient : Except ParseError α}

/-- Every outcome relaxes itself. -/
theorem Relaxes.refl (outcome : Except ParseError α) : Relaxes outcome outcome := .inl rfl

/-- Steps that each relax another step do so one after the other. -/
theorem Relaxes.bind {next next' : α → Except ParseError β} (h : Relaxes strict lenient)
    (hnext : ∀ a, Relaxes (next a) (next' a)) :
    Relaxes (strict >>= next) (lenient >>= next') := by
  rcases h with rfl | ⟨e, rfl, he⟩
  · cases lenient with
    | error e => exact .refl _
    | ok a => exact hnext a
  · exact .inr ⟨e, rfl, he⟩

/-- What is made of the results does not matter. -/
theorem Relaxes.map (g : α → β) (h : Relaxes strict lenient) :
    Relaxes (strict.map g) (lenient.map g) := by
  rcases h with rfl | ⟨e, rfl, he⟩
  · exact .refl _
  · exact .inr ⟨e, rfl, he⟩

/-- What strict settings read, lenient ones read alike. -/
theorem Relaxes.ok {a : α} (h : Relaxes strict lenient) (hs : strict = .ok a) :
    lenient = .ok a := by
  rcases h with rfl | ⟨e, he, -⟩
  · exact hs
  · rw [hs] at he
    cases he

/-- An error that is no refusal stays under lenient settings. -/
theorem Relaxes.error {e : ParseError} (h : Relaxes strict lenient) (hs : strict = .error e)
    (hkind : e.kind ≠ .duplicateOption) (hcause : ∀ key, e.cause ≠ .noValue key) :
    lenient = .error e := by
  rcases h with rfl | ⟨e', he', hrefusal⟩
  · exact hs
  · rw [hs] at he'
    cases he'
    rcases hrefusal with hno | ⟨key, hno⟩
    · exact absurd hno hkind
    · exact absurd hno (hcause key)

end Outcomes

section Lexer

variable {a b singleModule nameDue : Bool} {t : Text}

/-- An option is read alike, or the strict reading misses a value. -/
theorem lexOption_relaxed (hle : a ≤ b) (ht : startsOption t = true) :
    lexOption ⟨b, singleModule⟩ t = lexOption ⟨a, singleModule⟩ t ∨
      ∃ key fragment, lexOption ⟨a, singleModule⟩ t = .error ⟨.noValue key, fragment⟩ := by
  obtain ⟨u, rfl⟩ := startsOption_iff.mp ht
  by_cases hk : leadingIdent u = []
  · exact .inl (by rw [lexOption_no_key hk, lexOption_no_key hk])
  · by_cases he : (u.drop (leadingIdent u).length).head? = some '='
    · obtain ⟨value, hv⟩ := List.head?_eq_some_iff.mp he
      rw [lexOption_equals hk hv, lexOption_equals hk hv]
      by_cases hempty : trimEnd (rawValue value) = [] ∧ a = false
      · exact .inr ⟨_, _, if_pos hempty⟩
      · have hempty' : ¬(trimEnd (rawValue value) = [] ∧ b = false) := by
          rintro ⟨hvalue, rfl⟩
          refine hempty ⟨hvalue, Bool.eq_false_iff.mpr fun ha => ?_⟩
          exact Bool.false_ne_true (hle ha)
        exact .inl (by rw [if_neg hempty, if_neg hempty'])
    · exact .inl (by rw [lexOption_no_equals hk he, lexOption_no_equals hk he])

/-- Only options without a value are read in two ways. -/
theorem lexToken_relaxed (hle : a ≤ b) :
    lexToken ⟨b, singleModule⟩ nameDue t = lexToken ⟨a, singleModule⟩ nameDue t ∨
      ∃ key fragment,
        lexToken ⟨a, singleModule⟩ nameDue t = .error ⟨.noValue key, fragment⟩ := by
  rw [lexToken, lexToken]
  split
  · exact .inl rfl
  · split
    · next ht =>
      cases nameDue with
      | true => exact .inl rfl
      | false => exact lexOption_relaxed hle ht
    · exact .inl rfl

/-- The lexer relaxes where empty values are let in. -/
theorem relaxes_tokensFrom (hle : a ≤ b) (singleModule nameDue : Bool) (offset : Nat) (t : Text) :
    Relaxes (tokensFrom ⟨a, singleModule⟩ nameDue offset t)
      (tokensFrom ⟨b, singleModule⟩ nameDue offset t) := by
  induction nameDue, offset, t using run_induction (d := ⟨a, singleModule⟩) with
  | done nameDue offset =>
    rw [tokensFrom_nil, tokensFrom_nil]
    exact .refl _
  | blank nameDue offset c t hc ih =>
    rw [tokensFrom_blank hc, tokensFrom_blank hc]
    exact ih
  | fault nameDue offset c t f hc hf =>
    rcases lexToken_relaxed hle with hsame | ⟨key, fragment, hrefused⟩
    · rw [tokensFrom_fault hc hf, tokensFrom_fault hc (hsame.trans hf)]
      exact .refl _
    · exact .inr ⟨_, tokensFrom_fault hc hrefused, .inr ⟨key, rfl⟩⟩
  | token nameDue offset c t l rest hc hl ht hstands ih =>
    rcases lexToken_relaxed hle with hsame | ⟨key, fragment, hrefused⟩
    · rw [tokensFrom_token hc ht hl, tokensFrom_token hc ht (hsame.trans hl)]
      exact ih.map _
    · rw [hl] at hrefused
      cases hrefused

end Lexer

section Grouping

variable {policy policy' : RepeatPolicy}

/-- Grouping relaxes where repeated keys are let through. -/
theorem relaxes_groupTokens (hle : policy ≤ policy') (current : Option Segment)
    (lastPipe : Option Token) (tokens : List Token) :
    Relaxes (groupTokens policy current lastPipe tokens)
      (groupTokens policy' current lastPipe tokens) := by
  induction current, lastPipe, tokens using grouping_induction policy with
  | close segment lastPipe =>
    rw [groupTokens, groupTokens]
    exact .refl _
  | dangling pipe =>
    rw [groupTokens, groupTokens]
    exact .refl _
  | empty =>
    rw [groupTokens, groupTokens]
    exact .refl _
  | name current lastPipe name text offset tokens ih =>
    rw [groupTokens_name, groupTokens_name]
    exact ih
  | stray lastPipe key value text offset tokens =>
    rw [groupTokens_stray, groupTokens_stray]
    exact .refl _
  | repeated segment lastPipe key value text offset tokens hr =>
    exact .inr ⟨_, groupTokens_repeated hr, .inl rfl⟩
  | option segment lastPipe key value text offset tokens hr ih =>
    have hr' : ¬(policy' = .reject ∧ segment.options.contains key = true) := by
      rintro ⟨rfl, hk⟩
      exact hr ⟨hle.resolve_right RepeatPolicy.noConfusion, hk⟩
    rw [groupTokens_option hr, groupTokens_option hr']
    exact ih
  | first lastPipe text offset tokens =>
    rw [groupTokens_pipe_first, groupTokens_pipe_first]
    exact .refl _
  | pipe segment lastPipe text offset tokens ih =>
    rw [groupTokens_pipe, groupTokens_pipe]
    exact ih.map _

end Grouping

section Readers

variable {strict lenient : ParserSettings}

/-- Reading segments relaxes with the settings. -/
theorem relaxes_segments (hle : strict ≤ lenient) (singleModule : Bool) (text : Text) :
    Relaxes (segments strict singleModule text) (segments lenient singleModule text) := by
  cases hb : isAllBlank text with
  | true =>
    rw [segments_of_blank hb, segments_of_blank hb]
    exact .refl _
  | false =>
    rw [segments_of_nonblank hb, segments_of_nonblank hb]
    refine (relaxes_tokensFrom hle.2 singleModule true 0 text).bind fun tokens => ?_
    exact (relaxes_groupTokens hle.1 none none tokens).bind fun _ => .refl _

/-- Reading a pipeline relaxes with the settings. -/
theorem relaxes_parse (hle : strict ≤ lenient) (group text : Text) :
    Relaxes (parse strict group text) (parse lenient group text) := by
  cases hb : isAllBlank group with
  | true =>
    rw [parse_of_blank hb, parse_of_blank hb]
    exact .refl _
  | false =>
    rw [parse_of_named hb, parse_of_named hb]
    exact (relaxes_segments hle false text).map _

/-- Reading a single module relaxes with the settings. -/
theorem relaxes_parameters (hle : strict ≤ lenient) (text : Text) :
    Relaxes (parameters strict text) (parameters lenient text) :=
  (relaxes_segments hle true text).bind fun _ => .refl _

end Readers

section RepeatedKeys

/-- Grouping that lets repeated keys through reports none. -/
theorem groupTokens_error_kind {current : Option Segment} {lastPipe : Option Token}
    {tokens : List Token} {e : ParseError}
    (h : groupTokens .lastWins current lastPipe tokens = .error e) :
    e.kind ≠ .duplicateOption := by
  induction current, lastPipe, tokens using grouping_induction .lastWins with
  | close => rw [groupTokens] at h; cases h
  | dangling => rw [groupTokens] at h; cases h; exact ErrorKind.noConfusion
  | empty => rw [groupTokens] at h; cases h
  | name current lastPipe name text offset tokens ih =>
    rw [groupTokens_name] at h
    exact ih h
  | stray => rw [groupTokens_stray] at h; cases h; exact ErrorKind.noConfusion
  | repeated segment lastPipe key value text offset tokens hr => cases hr.1
  | option segment lastPipe key value text offset tokens hr ih =>
    rw [groupTokens_option hr] at h
    exact ih h
  | first => rw [groupTokens_pipe_first] at h; cases h; exact ErrorKind.noConfusion
  | pipe segment lastPipe text offset tokens ih =>
    rw [groupTokens_pipe] at h
    exact ih (Except.map_eq_error_iff.mp h)

variable {settings : ParserSettings} {group text : Text} {e : ParseError}

/-- Reading segments that lets repeated keys through reports none. -/
theorem segments_error_kind {singleModule : Bool} (hp : settings.repeatedKeys = .lastWins)
    (h : segments settings singleModule text = .error e) : e.kind ≠ .duplicateOption := by
  rcases segments_error h with ⟨-, rfl⟩ | hf | ⟨tokens, -, hg⟩ | ⟨-, rfl⟩
  · exact ErrorKind.noConfusion
  · exact Cause.kind_ne_duplicateOption (tokensFrom_error hf).1
  · rw [hp] at hg
    exact groupTokens_error_kind hg
  · exact ErrorKind.noConfusion

/-- Reading a pipeline that lets repeated keys through reports none. -/
theorem parse_error_kind (hp : settings.repeatedKeys = .lastWins)
    (h : parse settings group text = .error e) : e.kind ≠ .duplicateOption := by
  rcases parse_eq_error_iff.mp h with ⟨-, rfl⟩ | ⟨-, hs⟩
  · exact ErrorKind.noConfusion
  · exact segments_error_kind hp hs

/-- Reading a single module that lets repeated keys through reports none. -/
theorem parameters_error_kind (hp : settings.repeatedKeys = .lastWins)
    (h : parameters settings text = .error e) : e.kind ≠ .duplicateOption := by
  rcases parameters_error h with hs | rfl
  · exact segments_error_kind hp hs
  · exact ErrorKind.noConfusion

end RepeatedKeys

/-- The last of the options with a key gives it a value. -/
def LastOption (kinds : List TokenKind) (key value : Text) : Prop :=
  ∃ before after, kinds = before ++ .option key value :: after ∧
    ∀ other, .option key other ∉ after

section Values

variable {settings : ParserSettings} {group text : Text}

/-- The options of a segment have the values that its tokens give last. -/
theorem Spells.get?_eq_some_iff {kinds : List TokenKind} {s : Segment} (h : Spells kinds s)
    (key value : Text) : s.options.get? key = some value ↔ LastOption kinds key value := by
  obtain ⟨entries, rfl, hoptions⟩ := h
  rw [hoptions, OptionMap.get?_ofList, OptionMap.lookup_reverse_eq_some_iff]
  constructor
  · rintro ⟨before, after, rfl, hlast⟩
    refine ⟨.name s.name :: before.map _, after.map _, by rw [List.map_append]; rfl, ?_⟩
    intro other hm
    obtain ⟨entry, hentry, heq⟩ := List.mem_map.mp hm
    cases heq
    exact hlast entry.2 hentry
  · rintro ⟨before, after, hkinds, hlast⟩
    cases before with
    | nil => cases hkinds
    | cons kind before =>
      obtain ⟨front, back, rfl, -, hback⟩ := List.map_eq_append_iff.mp (List.cons.inj hkinds).2
      obtain ⟨entry, later, rfl, hentry, rfl⟩ := List.map_eq_cons_iff.mp hback
      cases hentry
      exact ⟨front, later, rfl, fun w hw => hlast w (List.mem_map_of_mem hw)⟩

/-- Each request has the values that the tokens of its segment give last. -/
theorem lastOption_of_parse {requests : List Request}
    (h : parse settings group text = .ok requests) :
    ∃ tokens, tokenize (settings.dialect false) text = .ok tokens ∧
      ∀ r ∈ requests, ∃ kinds, ((tokens.map Token.kind).splitOn .pipe)[r.index]? = some kinds ∧
        ∀ key value, r.options.get? key = some value ↔ LastOption kinds key value := by
  obtain ⟨-, found, hfound, rfl⟩ := parse_eq_ok_iff.mp h
  obtain ⟨tokens, htokens, hsaid⟩ := exists_tokens_of_segments hfound
  refine ⟨tokens, htokens, fun r hr => ?_⟩
  obtain ⟨p, hp⟩ := List.mem_iff_getElem?.mp hr
  have hemitted := emittedAt_of_getElem? hsaid hp
  obtain ⟨kinds, hkinds, hspells⟩ := hemitted.segment
  rw [hemitted.index]
  exact ⟨kinds, hkinds, hspells.get?_eq_some_iff⟩

/-- The options of a single module have the values that its tokens give last. -/
theorem lastOption_of_parameters {options : OptionMap}
    (h : parameters settings text = .ok options) :
    ∃ tokens, tokenize (settings.dialect true) text = .ok tokens ∧
      ∀ key value, options.get? key = some value ↔
        LastOption (tokens.map Token.kind) key value := by
  obtain ⟨segment, hsegment, rfl⟩ := parameters_eq_ok_iff.mp h
  obtain ⟨tokens, htokens, hsaid⟩ := exists_tokens_of_segments hsegment
  refine ⟨tokens, htokens, ?_⟩
  -- One segment has been said, so it is all that the tokens say.
  obtain ⟨kinds, rest, hspells, hrest, hsplit⟩ := List.forall₂_cons_right_iff.mp hsaid
  rw [List.forall₂_nil_right_iff.mp hrest] at hsplit
  have hkinds : tokens.map Token.kind = kinds := by
    calc tokens.map Token.kind
        = [.pipe].intercalate ((tokens.map Token.kind).splitOn .pipe) :=
          (List.intercalate_splitOn _).symm
      _ = kinds := by simp [hsplit]
  rw [hkinds]
  exact hspells.get?_eq_some_iff

end Values

/-- Lenient settings only extend strict ones. What strict settings read, more
lenient ones read alike, and they report the same errors, save those of a
repeated key and of a missing value. Where the last value of a repeated key
counts, no repeated key is reported, and the value of each key is that of its
last option in the module. -/
theorem lenient_extends_strict (group text : Text) :
    (∀ strict lenient : ParserSettings, strict ≤ lenient →
      (∀ requests, parse strict group text = .ok requests →
        parse lenient group text = .ok requests) ∧
      (∀ options, parameters strict text = .ok options →
        parameters lenient text = .ok options) ∧
      ∀ e, e.kind ≠ .duplicateOption → (∀ key, e.cause ≠ .noValue key) →
        (parse strict group text = .error e → parse lenient group text = .error e) ∧
        (parameters strict text = .error e → parameters lenient text = .error e)) ∧
    ∀ settings : ParserSettings, settings.repeatedKeys = .lastWins →
      (∀ e, parse settings group text = .error e → e.kind ≠ .duplicateOption) ∧
      (∀ e, parameters settings text = .error e → e.kind ≠ .duplicateOption) ∧
      (∀ requests, parse settings group text = .ok requests →
        ∃ tokens, tokenize (settings.dialect false) text = .ok tokens ∧
          ∀ r ∈ requests, ∃ kinds,
            ((tokens.map Token.kind).splitOn .pipe)[r.index]? = some kinds ∧
            ∀ key value, r.options.get? key = some value ↔ LastOption kinds key value) ∧
      ∀ options, parameters settings text = .ok options →
        ∃ tokens, tokenize (settings.dialect true) text = .ok tokens ∧
          ∀ key value, options.get? key = some value ↔
            LastOption (tokens.map Token.kind) key value := by
  refine ⟨fun strict lenient hle => ?_, fun settings hp => ?_⟩
  · have hparse := relaxes_parse hle group text
    have hparameters := relaxes_parameters hle text
    exact ⟨fun _ h => hparse.ok h, fun _ h => hparameters.ok h, fun e hkind hcause =>
      ⟨fun h => hparse.error h hkind hcause, fun h => hparameters.error h hkind hcause⟩⟩
  · exact ⟨fun _ h => parse_error_kind hp h, fun _ h => parameters_error_kind hp h,
      fun _ h => lastOption_of_parse h, fun _ h => lastOption_of_parameters h⟩

theorem lenient_extends_strict_sample :
    (⟨.reject, false⟩ : ParserSettings) ≤ ⟨.lastWins, true⟩ ∧
      parse ⟨.reject, false⟩ "s".toList "m\n".toList = .ok [⟨['m'], ['s'], 0, .sink, .empty⟩] ∧
      parse ⟨.lastWins, true⟩ "s".toList "m\n".toList = .ok [⟨['m'], ['s'], 0, .sink, .empty⟩] ∧
      parameters ⟨.reject, false⟩ "m\n".toList = .ok .empty ∧
      parameters ⟨.lastWins, true⟩ "m\n".toList = .ok .empty ∧
      parse ⟨.reject, false⟩ "s".toList "a b".toList = .error ⟨.strayWord, ['b'], 2⟩ ∧
      parse ⟨.lastWins, true⟩ "s".toList "a b".toList = .error ⟨.strayWord, ['b'], 2⟩ ∧
      parameters ⟨.reject, false⟩ "a b".toList = .error ⟨.strayWord, ['b'], 2⟩ ∧
      parameters ⟨.lastWins, true⟩ "a b".toList = .error ⟨.strayWord, ['b'], 2⟩ ∧
      ErrorKind.unexpectedToken ≠ .duplicateOption ∧
      parse ⟨.lastWins, true⟩ "s".toList "\nm --z=1\t --a=x|y\u00a0 --z= |log".toList =
        .ok (requestsOf "s".toList (repeatedForms.map SegmentForm.segment)).reverse ∧
      (∃ tokens, tokenize ⟨true, false⟩ "\nm --z=1\t --a=x|y\u00a0 --z= |log".toList = .ok tokens ∧
        ∃ kinds, ((tokens.map Token.kind).splitOn .pipe)[0]? = some kinds ∧
          LastOption kinds "z".toList []) ∧
      parameters ⟨.lastWins, true⟩ "\nm --z=1\t --a=x|y\u00a0 --z= ".toList =
        .ok (.ofList [("a".toList, "x|y".toList), ("z".toList, [])]) ∧
      ∃ tokens, tokenize ⟨true, true⟩ "\nm --z=1\t --a=x|y\u00a0 --z= ".toList = .ok tokens ∧
        LastOption (tokens.map Token.kind) "z".toList [] := by
  have hle : (⟨.reject, false⟩ : ParserSettings) ≤ ⟨.lastWins, true⟩ := ⟨.inl rfl, fun _ => rfl⟩
  have hread : parse ⟨.reject, false⟩ "s".toList "m\n".toList =
      .ok [⟨['m'], ['s'], 0, .sink, .empty⟩] := by cbv
  have hoptions : parameters ⟨.reject, false⟩ "m\n".toList = .ok .empty := by cbv
  have hstray : parse ⟨.reject, false⟩ "s".toList "a b".toList =
      .error ⟨.strayWord, ['b'], 2⟩ := by cbv
  have hstray' : parameters ⟨.reject, false⟩ "a b".toList = .error ⟨.strayWord, ['b'], 2⟩ := by cbv
  obtain ⟨hextends, -⟩ := lenient_extends_strict "s".toList "m\n".toList
  obtain ⟨hsame, hsame', -⟩ := hextends _ _ hle
  obtain ⟨hextends, hlast⟩ := lenient_extends_strict "s".toList "a b".toList
  obtain ⟨hfails, hfails'⟩ := (hextends _ _ hle).2.2 ⟨.strayWord, ['b'], 2⟩ (by decide) (by simp)
  have hkind := (hlast ⟨.lastWins, true⟩ rfl).1 _ (hfails hstray)
  obtain ⟨tokens, htokens, hvalues⟩ := ((lenient_extends_strict "s".toList
    "\nm --z=1\t --a=x|y\u00a0 --z= |log".toList).2 _ rfl).2.2.1 _ parse_repeatedForms
  obtain ⟨kinds, hkinds, hvalue⟩ := hvalues ⟨"m".toList, "s".toList, 0, .source,
    .ofList [("a".toList, "x|y".toList), ("z".toList, [])]⟩ (by decide)
  obtain ⟨tokens', htokens', hvalue'⟩ := ((lenient_extends_strict "s".toList
    "\nm --z=1\t --a=x|y\u00a0 --z= ".toList).2 _ rfl).2.2.2 _ parameters_repeatedForms
  exact ⟨hle, hread, hsame _ hread, hoptions, hsame' _ hoptions, hstray, hfails hstray, hstray',
    hfails' hstray', hkind, parse_repeatedForms,
    ⟨tokens, htokens, kinds, hkinds, (hvalue _ _).mp (by decide)⟩, parameters_repeatedForms,
    tokens', htokens', (hvalue' _ _).mp (by decide)⟩

end DataPipeline.Definition
