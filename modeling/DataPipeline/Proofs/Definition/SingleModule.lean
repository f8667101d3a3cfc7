import DataPipeline.Proofs.Definition.Emission

/-!
# Single modules

The options of a single module are read by a run of the lexer that refuses
separators. Up to the first separator it keeps step with the run over a
pipeline: without one both end alike, and with one the first run ends there
while the second one goes on behind it. Hence both readers agree on single
modules, errors included.
-/

namespace DataPipeline.Definition

open Text

/-- How a run that refuses separators ends beside the run that takes them. -/
inductive InStep : (single whole : Except ParseError (List Token)) → Prop
  /-- Both runs end alike. -/
  | alike {outcome : Except ParseError (List Token)} : InStep outcome outcome
  /-- The first separator ends one run, and the other one goes on behind it. -/
  | refused {before : List Token} {offset : Nat} {rest : Except ParseError (List Token)}
      (first : ∀ token ∈ before, token.kind ≠ .pipe) :
      InStep (.error ⟨.separatorRefused, ['|'], offset⟩)
        (rest.map fun after => before ++ ⟨.pipe, ['|'], offset⟩ :: after)

section Lexer

variable {allow nameDue : Bool} {c : Char} {t : Text}

/-- A token before the first separator keeps both runs in step. -/
theorem InStep.cons {single whole : Except ParseError (List Token)} {token : Token}
    (hk : token.kind ≠ .pipe) (h : InStep single whole) :
    InStep (single.map fun tokens => token :: tokens)
      (whole.map fun tokens => token :: tokens) := by
  cases h with
  | alike => exact .alike
  | @refused before offset rest first =>
    have hwhole : (rest.map fun after => before ++ ⟨.pipe, ['|'], offset⟩ :: after).map
        (fun tokens => token :: tokens) =
          rest.map fun after => (token :: before) ++ ⟨.pipe, ['|'], offset⟩ :: after := by
      cases rest <;> rfl
    rw [hwhole]
    exact .refused (List.forall_mem_cons.mpr ⟨hk, first⟩)

/-- Only separators are read in two ways. -/
theorem lexToken_single (hp : c ≠ '|') :
    lexToken ⟨allow, true⟩ nameDue (c :: t) = lexToken ⟨allow, false⟩ nameDue (c :: t) := by
  have hhead : (c :: t).head? ≠ some '|' := fun h => hp (Option.some.inj h)
  rw [lexToken, lexToken, if_neg hhead, if_neg hhead]
  rfl

theorem Stands.kind_ne_pipe {d : Dialect} {l : Lexeme} {rest : Text}
    (h : Stands d nameDue l rest) (ht : c :: t = l.text ++ rest) (hp : c ≠ '|') :
    l.kind ≠ .pipe := by
  cases h with
  | pipe => exact fun _ => hp (List.cons.inj ht).1
  | name => exact TokenKind.noConfusion
  | option => exact TokenKind.noConfusion

theorem inStep_tokensFrom (allow nameDue : Bool) (offset : Nat) (t : Text) :
    InStep (tokensFrom ⟨allow, true⟩ nameDue offset t)
      (tokensFrom ⟨allow, false⟩ nameDue offset t) := by
  induction nameDue, offset, t using run_induction (d := ⟨allow, false⟩) with
  | done nameDue offset =>
    rw [tokensFrom_nil, tokensFrom_nil]
    exact .alike
  | blank nameDue offset c t hc ih =>
    rw [tokensFrom_blank hc, tokensFrom_blank hc]
    exact ih
  | fault nameDue offset c t f hc hf =>
    have hp : c ≠ '|' := by
      rintro rfl
      have hpipe : lexToken ⟨allow, false⟩ nameDue ('|' :: t) = .ok ⟨.pipe, ['|']⟩ :=
        lexToken_of_stands (.pipe rfl)
      rw [hpipe] at hf
      cases hf
    rw [tokensFrom_fault hc hf, tokensFrom_fault hc ((lexToken_single hp).trans hf)]
    exact .alike
  | token nameDue offset c t l rest hc hl ht hstands ih =>
    by_cases hp : c = '|'
    · subst hp
      have hpipe : lexToken ⟨allow, false⟩ nameDue ('|' :: t) = .ok ⟨.pipe, ['|']⟩ :=
        lexToken_of_stands (.pipe rfl)
      have hrefused : lexToken ⟨allow, true⟩ nameDue ('|' :: t) =
          .error ⟨.separatorRefused, ['|']⟩ := rfl
      rw [tokensFrom_fault hc hrefused, tokensFrom_token hc rfl hpipe]
      exact @InStep.refused [] offset _ (List.forall_mem_nil _)
    · rw [tokensFrom_token hc ht ((lexToken_single hp).trans hl), tokensFrom_token hc ht hl]
      exact ih.cons (hstands.kind_ne_pipe ht hp)

end Lexer

section Readers

variable {settings : ParserSettings} {group text : Text} {found : List Segment}

/-- A single module is a pipeline of one segment. -/
theorem segments_single_iff :
    segments settings true text = .ok found ↔
      segments settings false text = .ok found ∧ found.length = 1 := by
  rw [segments_eq_ok_iff_forms, segments_eq_ok_iff_forms]
  constructor
  · rintro ⟨forms, hne, hsingle, hsep, hforms, htext, rfl⟩
    refine ⟨⟨forms, hne, fun hno => absurd hno Bool.false_ne_true, hsep, hforms, htext, rfl⟩, ?_⟩
    rw [List.length_map, hsingle rfl]
  · rintro ⟨⟨forms, hne, -, hsep, hforms, htext, rfl⟩, hlength⟩
    rw [List.length_map] at hlength
    exact ⟨forms, hne, fun _ => hlength, hsep, hforms, htext, rfl⟩

/-- Without a separator a text is read alike as a single module and as a
pipeline; otherwise the first separator is refused in a single module. -/
theorem segments_single (settings : ParserSettings) (text : Text) :
    segments settings true text = segments settings false text ∨
      ∃ (before : List Token) (offset : Nat) (rest : Except ParseError (List Token)),
        (∀ token ∈ before, token.kind ≠ .pipe) ∧
        tokenize (settings.dialect false) text =
          rest.map (fun after => before ++ ⟨.pipe, ['|'], offset⟩ :: after) ∧
        segments settings true text = .error ⟨.separatorRefused, ['|'], offset⟩ := by
  cases hb : isAllBlank text with
  | true => exact .inl (by rw [segments_of_blank hb, segments_of_blank hb])
  | false =>
    have hstep : InStep (tokenize (settings.dialect true) text)
        (tokenize (settings.dialect false) text) := inStep_tokensFrom _ true 0 text
    generalize hs : tokenize (settings.dialect true) text = single at hstep
    generalize hw : tokenize (settings.dialect false) text = whole at hstep
    cases hstep with
    | alike => exact .inl (by rw [segments_of_nonblank hb, segments_of_nonblank hb, hs, hw])
    | @refused before offset rest first =>
      refine .inr ⟨before, offset, rest, first, rfl, ?_⟩
      rw [segments_of_nonblank hb]
      exact Except.bind_eq_error_iff.mpr (.inl hs)

/-- Reading the options of a single module fails only as reading its segment
does. -/
theorem segments_of_parameters_error {e : ParseError}
    (h : parameters settings text = .error e) : segments settings true text = .error e := by
  rw [parameters_eq] at h
  cases hs : segments settings true text with
  | error e' =>
    rw [hs] at h
    cases h
    rfl
  | ok found =>
    -- There is no other number of segments than one.
    obtain ⟨segment, rfl⟩ := List.length_eq_one_iff.mp (segments_single_iff.mp hs).2
    rw [hs] at h
    cases h

end Readers

/-- The readers of pipelines and of single modules agree. Under a proper name,
options are read from a text exactly when it is read as a pipeline of one
request that has these options; an error other than a refused separator is
also the error of reading the text as a pipeline; and where there are several
requests, the first separator of the text is refused at its place. -/
theorem parameters_agree_with_parse (settings : ParserSettings) {group : Text} (text : Text)
    (hgroup : isAllBlank group = false) :
    (∀ options, parameters settings text = .ok options ↔
      ∃ r, parse settings group text = .ok [r] ∧ r.options = options) ∧
    (∀ e, parameters settings text = .error e →
      ¬(e.kind = .unexpectedToken ∧ e.fragment = ['|']) → parse settings group text = .error e) ∧
    ∀ requests, parse settings group text = .ok requests → 2 ≤ requests.length →
      ∃ tokens first e, tokenize (settings.dialect false) text = .ok tokens ∧
        tokens.find? (fun token => token.kind = .pipe) = some first ∧
        parameters settings text = .error e ∧
        e.kind = .unexpectedToken ∧ e.fragment = ['|'] ∧ e.offset = first.offset := by
  refine ⟨fun options => ?_, fun e he hother => ?_, fun requests hparse hlength => ?_⟩
  · rw [parameters_eq_ok_iff]
    constructor
    · rintro ⟨segment, hsegment, rfl⟩
      have hfound := (segments_single_iff.mp hsegment).1
      exact ⟨_, parse_eq_ok_iff.mpr ⟨hgroup, [segment], hfound, rfl⟩, rfl⟩
    · rintro ⟨r, hr, rfl⟩
      obtain ⟨-, found, hfound, hrequests⟩ := parse_eq_ok_iff.mp hr
      have hlength : found.length = 1 := by
        rw [←length_requestsOf group, ←List.length_reverse, ←hrequests]
        rfl
      obtain ⟨segment, rfl⟩ := List.length_eq_one_iff.mp hlength
      obtain ⟨rfl, -⟩ := List.cons.inj hrequests
      exact ⟨segment, segments_single_iff.mpr ⟨hfound, rfl⟩, rfl⟩
  · have hsegments := segments_of_parameters_error he
    rcases segments_single settings text with halike | ⟨-, offset, -, -, -, hrefused⟩
    · exact parse_eq_error_iff.mpr (.inr ⟨hgroup, halike ▸ hsegments⟩)
    · rw [hrefused] at hsegments
      cases hsegments
      exact absurd ⟨rfl, rfl⟩ hother
  · obtain ⟨-, found, hfound, rfl⟩ := parse_eq_ok_iff.mp hparse
    rw [List.length_reverse, length_requestsOf] at hlength
    rcases segments_single settings text with halike | ⟨before, offset, rest, hfirst, hrest, href⟩
    · have hone := (segments_single_iff.mp (halike.trans hfound)).2
      omega
    · obtain ⟨tokens, htokens, -⟩ := exists_tokens_of_segments hfound
      cases rest with
      | error e => rw [hrest] at htokens; cases htokens
      | ok after =>
        have hnone : before.find? (fun token => token.kind = .pipe) = none := by
          rw [List.find?_eq_none]
          exact fun token hm => by simpa using hfirst token hm
        refine ⟨_, ⟨.pipe, ['|'], offset⟩, ⟨.separatorRefused, ['|'], offset⟩, hrest, ?_, ?_,
          rfl, rfl, rfl⟩
        · rw [List.find?_append, hnone]
          rfl
        · rw [parameters_eq, href]

theorem parameters_agree_with_parse_sample :
    isAllBlank "s".toList = false ∧
      parameters {} "a b | 1".toList = .error ⟨.strayWord, ['b'], 2⟩ ∧
      parse {} "s".toList "a b | 1".toList = .error ⟨.strayWord, ['b'], 2⟩ ∧
      parse ⟨.lastWins, true⟩ "s".toList "\nm --z=1\t --a=x|y\u00a0 --z= |log".toList =
        .ok (requestsOf "s".toList (repeatedForms.map SegmentForm.segment)).reverse ∧
      ∃ tokens first e,
        tokenize ⟨true, false⟩ "\nm --z=1\t --a=x|y\u00a0 --z= |log".toList = .ok tokens ∧
        tokens.find? (fun token => token.kind = .pipe) = some first ∧
        parameters ⟨.lastWins, true⟩ "\nm --z=1\t --a=x|y\u00a0 --z= |log".toList = .error e ∧
        e.kind = .unexpectedToken ∧ e.fragment = ['|'] ∧ e.offset = first.offset := by
  have hgroup : isAllBlank "s".toList = false := by decide
  have hstray : parameters {} "a b | 1".toList = .error ⟨.strayWord, ['b'], 2⟩ := by cbv
  have herror := (parameters_agree_with_parse {} "a b | 1".toList hgroup).2.1 _ hstray (by decide)
  have hseveral := (parameters_agree_with_parse ⟨.lastWins, true⟩ _ hgroup).2.2 _
    parse_repeatedForms (by decide)
  exact ⟨hgroup, hstray, herror, parse_repeatedForms, hseveral⟩

end DataPipeline.Definition
