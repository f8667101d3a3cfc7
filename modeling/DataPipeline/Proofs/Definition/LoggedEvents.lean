import DataPipeline.CommandLine
import DataPipeline.Proofs.Definition.Lenience

/-!
# Logged events

A text that is read to its end reports all its tokens. While tokens are grouped
an event is reported exactly if the grouping would fail on a repeated key under
the strict policy, and these are the only events that are logged if nothing else
is asked for. So a command logs nothing exactly if it would end in the same way
with repeated keys refused.
-/

namespace DataPipeline.Definition

open CommandLine Text

section Tokens

variable {d : Dialect} {nameDue : Bool} {offset : Nat} {t : Text} {tokens : List Token}

/-- A text without a fault is cut into all its tokens. -/
theorem tokensCut_of_tokensFrom (h : tokensFrom d nameDue offset t = .ok tokens) :
    tokensCut d nameDue offset t = tokens := by
  fun_induction tokensCut d nameDue offset t generalizing tokens with
  | case1 nameDue offset t ht =>
    rw [tokensFrom_eq, ht] at h
    exact Except.ok.inj h
  | case2 nameDue offset t c rest ht fault hl =>
    rw [tokensFrom_eq, ht] at h
    dsimp only at h
    rw [hl] at h
    cases h
  | case3 nameDue offset t c rest ht start l hl =>
    rename_i ih
    rw [tokensFrom_eq, ht] at h
    dsimp only at h
    rw [hl] at h
    obtain ⟨later, hlater, rfl⟩ := Except.map_eq_ok_iff.mp h
    rw [ih hlater]

end Tokens

section Overrides

variable {policy : RepeatPolicy} {current : Option Segment} {segment : Segment}
  {name key value text : Text} {offset : Nat} {lastPipe : Option Token} {tokens : List Token}

theorem overrides_nil : overrides policy current [] = [] := by
  rw [overrides]

/-- A name opens a segment and is not reported. -/
theorem overrides_name :
    overrides policy current (⟨.name name, text, offset⟩ :: tokens) =
      overrides policy (some ⟨name, .empty⟩) tokens := by
  rw [overrides.eq_def]

theorem overrides_stray :
    overrides policy none (⟨.option key value, text, offset⟩ :: tokens) = [] := by
  rw [overrides.eq_def]

/-- Where repeated keys are refused, none replaces a value. -/
theorem overrides_repeated (h : policy = .reject ∧ segment.options.contains key = true) :
    overrides policy (some segment) (⟨.option key value, text, offset⟩ :: tokens) = [] := by
  rw [overrides.eq_def]
  simp only [Segment.addOption, h.1, h.2, decide_true, Bool.and_self, if_true]

/-- An option that is let through is reported if its key has a value. -/
theorem overrides_option (h : ¬(policy = .reject ∧ segment.options.contains key = true)) :
    overrides policy (some segment) (⟨.option key value, text, offset⟩ :: tokens) =
      (if segment.options.contains key then [.overridden segment.name key] else []) ++
        overrides policy (some { segment with options := segment.options.insert key value })
          tokens := by
  have hno : ¬(segment.options.contains key && decide (policy = .reject)) = true := by
    rw [Bool.and_eq_true, decide_eq_true_eq]
    exact fun hk => h hk.symm
  rw [overrides.eq_def]
  simp only [Segment.addOption, if_neg hno]
  split <;> rfl

theorem overrides_pipe_first :
    overrides policy none (⟨.pipe, text, offset⟩ :: tokens) = [] := by
  rw [overrides.eq_def]

/-- A separator closes a segment and is not reported. -/
theorem overrides_pipe :
    overrides policy (some segment) (⟨.pipe, text, offset⟩ :: tokens) =
      overrides policy none tokens := by
  rw [overrides.eq_def]

/-- Grouping in which no option replaces another is the same under every policy. -/
theorem groupTokens_reject_of_overrides_eq_nil (h : overrides policy current tokens = []) :
    groupTokens .reject current lastPipe tokens = groupTokens policy current lastPipe tokens := by
  induction current, lastPipe, tokens using grouping_induction policy with
  | close segment lastPipe => rw [groupTokens, groupTokens]
  | dangling pipe => rw [groupTokens, groupTokens]
  | empty => rw [groupTokens, groupTokens]
  | name current lastPipe name text offset tokens ih =>
    rw [overrides_name] at h
    rw [groupTokens_name, groupTokens_name, ih h]
  | stray => rw [groupTokens_stray, groupTokens_stray]
  | repeated segment lastPipe key value text offset tokens hr => rw [hr.1]
  | option segment lastPipe key value text offset tokens hr ih =>
    rw [overrides_option hr] at h
    obtain ⟨hfresh, hlater⟩ := List.append_eq_nil_iff.mp h
    have hnew : ¬segment.options.contains key = true := by
      intro hk
      rw [if_pos hk] at hfresh
      cases hfresh
    rw [groupTokens_option hr, groupTokens_option fun hr' => hnew hr'.2, ih hlater]
  | first => rw [groupTokens_pipe_first, groupTokens_pipe_first]
  | pipe segment lastPipe text offset tokens ih =>
    rw [overrides_pipe] at h
    rw [groupTokens_pipe, groupTokens_pipe, ih h]

/-- Grouping in which an option replaces another lets repeated keys through, and
fails where they are refused. -/
theorem groupTokens_reject_of_overrides_ne_nil (h : overrides policy current tokens ≠ []) :
    policy = .lastWins ∧
      ∃ e, groupTokens .reject current lastPipe tokens = .error e ∧ e.kind = .duplicateOption := by
  induction current, lastPipe, tokens using grouping_induction policy with
  | close => exact absurd overrides_nil h
  | dangling => exact absurd overrides_nil h
  | empty => exact absurd overrides_nil h
  | name current lastPipe name text offset tokens ih =>
    rw [overrides_name] at h
    rw [groupTokens_name]
    exact ih h
  | stray => exact absurd overrides_stray h
  | repeated segment lastPipe key value text offset tokens hr =>
    exact absurd (overrides_repeated hr) h
  | option segment lastPipe key value text offset tokens hr ih =>
    by_cases hk : segment.options.contains key = true
    · have hpolicy : policy = .lastWins := by
        cases policy with
        | reject => exact absurd ⟨rfl, hk⟩ hr
        | lastWins => rfl
      exact ⟨hpolicy, _, groupTokens_repeated ⟨rfl, hk⟩, rfl⟩
    · rw [overrides_option hr, if_neg hk, List.nil_append] at h
      rw [groupTokens_option fun hr' => hk hr'.2]
      exact ih h
  | first => exact absurd overrides_pipe_first h
  | pipe segment lastPipe text offset tokens ih =>
    rw [overrides_pipe] at h
    obtain ⟨hpolicy, e, he, hkind⟩ := ih h
    rw [groupTokens_pipe, he]
    exact ⟨hpolicy, e, rfl, hkind⟩

/-- Only options are reported while tokens are grouped. -/
theorem exists_of_mem_overrides {e : Event} (h : e ∈ overrides policy current tokens) :
    ∃ moduleName key, e = .overridden moduleName key := by
  induction current, none, tokens using grouping_induction policy with
  | close => rw [overrides_nil] at h; cases h
  | dangling => rw [overrides_nil] at h; cases h
  | empty => rw [overrides_nil] at h; cases h
  | name current lastPipe name text offset tokens ih =>
    rw [overrides_name] at h
    exact ih h
  | stray => rw [overrides_stray] at h; cases h
  | repeated segment lastPipe key value text offset tokens hr =>
    rw [overrides_repeated hr] at h
    cases h
  | option segment lastPipe key value text offset tokens hr ih =>
    rw [overrides_option hr] at h
    rcases List.mem_append.mp h with hfirst | hlater
    · split at hfirst
      · exact ⟨_, _, List.mem_singleton.mp hfirst⟩
      · cases hfirst
    · exact ih hlater
  | first => rw [overrides_pipe_first] at h; cases h
  | pipe segment lastPipe text offset tokens ih =>
    rw [overrides_pipe] at h
    exact ih h

end Overrides

section Readers

/-- Nothing among some events is logged if nothing else is asked for. -/
def IsQuiet (events : List Event) : Prop := ∀ e ∈ events, e.level.isLogged = false

/-- Events are quiet if the earlier and the later ones are. -/
theorem isQuiet_append {earlier later : List Event} :
    IsQuiet (earlier ++ later) ↔ IsQuiet earlier ∧ IsQuiet later :=
  List.forall_mem_append

/-- Cutting tokens is not logged. -/
theorem isQuiet_tokensCut (tokens : List Token) : IsQuiet (tokens.map .tokenCut) := by
  intro e he
  obtain ⟨token, -, rfl⟩ := List.mem_map.mp he
  rfl

/-- Every option that replaces another one is logged. -/
theorem isQuiet_overrides_iff {policy : RepeatPolicy} {current : Option Segment}
    {tokens : List Token} :
    IsQuiet (overrides policy current tokens) ↔ overrides policy current tokens = [] := by
  refine ⟨fun h => List.eq_nil_iff_forall_not_mem.mpr fun e he => ?_, fun h => ?_⟩
  · obtain ⟨moduleName, key, rfl⟩ := exists_of_mem_overrides he
    exact Bool.noConfusion (h _ he)
  · rw [h]
    exact List.forall_mem_nil _

/-- The settings that refuse repeated keys and otherwise are as given. -/
def ParserSettings.refusing (settings : ParserSettings) : ParserSettings :=
  { settings with repeatedKeys := .reject }

/-- Where nothing is logged, refusing repeated keys does not change an outcome.
Otherwise repeated keys are let through, and refusing them ends in the error of a
repeated key. -/
def Reveals {α : Type} (settings : ParserSettings) (events : List Event)
    (refusing given : Except ParseError α) : Prop :=
  (IsQuiet events ∧ refusing = given) ∨
    (¬IsQuiet events ∧ settings.repeatedKeys = .lastWins ∧
      ∃ e, refusing = .error e ∧ e.kind = .duplicateOption)

variable {α β : Type} {settings : ParserSettings} {events : List Event}
  {refusing given : Except ParseError α}

/-- What follows a reader reveals as much as the reader. -/
theorem Reveals.bind (h : Reveals settings events refusing given)
    (next : α → Except ParseError β) :
    Reveals settings events (refusing >>= next) (given >>= next) := by
  rcases h with ⟨hquiet, rfl⟩ | ⟨hlogged, hpolicy, e, rfl, hkind⟩
  · exact .inl ⟨hquiet, rfl⟩
  · exact .inr ⟨hlogged, hpolicy, e, rfl, hkind⟩

/-- What is made of the results reveals as much as they do. -/
theorem Reveals.map (h : Reveals settings events refusing given) (g : α → β) :
    Reveals settings events (refusing.map g) (given.map g) := by
  rcases h with ⟨hquiet, rfl⟩ | ⟨hlogged, hpolicy, e, rfl, hkind⟩
  · exact .inl ⟨hquiet, rfl⟩
  · exact .inr ⟨hlogged, hpolicy, e, rfl, hkind⟩

/-- Other events with as little to log reveal as much. -/
theorem Reveals.congr {events' : List Event} (h : Reveals settings events refusing given)
    (hquiet : IsQuiet events' ↔ IsQuiet events) : Reveals settings events' refusing given := by
  rwa [Reveals, hquiet]

/-- An outcome without a repeated key shows whether something was logged. -/
theorem Reveals.isQuiet_iff (h : Reveals settings events refusing given)
    (hgiven : settings.repeatedKeys = .lastWins →
      ∀ e, given = .error e → e.kind ≠ .duplicateOption) :
    IsQuiet events ↔ refusing = given := by
  rcases h with ⟨hquiet, heq⟩ | ⟨hlogged, hpolicy, e, he, hkind⟩
  · exact iff_of_true hquiet heq
  · exact iff_of_false hlogged fun heq => hgiven hpolicy e (heq.symm.trans he) hkind

/-- The events of a text without a fault are its tokens, and then the options that
replace others. -/
theorem segmentEvents_of_tokenize {singleModule : Bool} {text : Text} {tokens : List Token}
    (hb : isAllBlank text = false)
    (h : tokenize (settings.dialect singleModule) text = .ok tokens) :
    segmentEvents settings singleModule text =
      tokens.map .tokenCut ++ overrides settings.repeatedKeys none tokens := by
  have hcut : tokensCut ⟨settings.allowEmptyValues, singleModule⟩ true 0 text = tokens :=
    tokensCut_of_tokensFrom h
  have htokens : tokenize ⟨settings.allowEmptyValues, singleModule⟩ text = .ok tokens := h
  rw [segmentEvents, if_neg (Bool.eq_false_iff.mp hb)]
  dsimp only
  rw [hcut, htokens]

/-- The events of a text with a fault are the tokens before it. -/
theorem segmentEvents_of_fault {singleModule : Bool} {text : Text} {e : ParseError}
    (hb : isAllBlank text = false)
    (h : tokenize (settings.dialect singleModule) text = .error e) :
    segmentEvents settings singleModule text =
      (tokensCut (settings.dialect singleModule) true 0 text).map .tokenCut := by
  have hfault : tokenize ⟨settings.allowEmptyValues, singleModule⟩ text = .error e := h
  rw [segmentEvents, if_neg (Bool.eq_false_iff.mp hb)]
  dsimp only
  rw [hfault, List.append_nil]
  rfl

/-- Reading segments reveals its events. -/
theorem reveals_segments (settings : ParserSettings) (singleModule : Bool) (text : Text) :
    Reveals settings (segmentEvents settings singleModule text)
      (segments settings.refusing singleModule text) (segments settings singleModule text) := by
  cases hb : isAllBlank text with
  | true =>
    rw [segments_of_blank hb, segments_of_blank hb, segmentEvents, if_pos hb]
    exact .inl ⟨List.forall_mem_nil _, rfl⟩
  | false =>
    -- Both policies cut the same tokens.
    have hdialect : settings.refusing.dialect singleModule = settings.dialect singleModule := rfl
    rw [segments_of_nonblank hb, segments_of_nonblank hb, hdialect]
    cases htokens : tokenize (settings.dialect singleModule) text with
    | error e =>
      rw [segmentEvents_of_fault hb htokens]
      exact .inl ⟨isQuiet_tokensCut _, rfl⟩
    | ok tokens =>
      have hgroup : Reveals settings (overrides settings.repeatedKeys none tokens)
          (groupTokens .reject none none tokens)
          (groupTokens settings.repeatedKeys none none tokens) := by
        rw [Reveals, isQuiet_overrides_iff]
        by_cases h : overrides settings.repeatedKeys none tokens = []
        · exact .inl ⟨h, groupTokens_reject_of_overrides_eq_nil h⟩
        · exact .inr ⟨h, groupTokens_reject_of_overrides_ne_nil h⟩
      refine (hgroup.bind _).congr ?_
      rw [segmentEvents_of_tokenize hb htokens, isQuiet_append]
      exact and_iff_right (isQuiet_tokensCut _)

/-- Under a proper name, reading a pipeline logs what reading its segments does. -/
theorem isQuiet_parseEvents_iff {group text : Text} (hb : isAllBlank group = false) :
    IsQuiet (parseEvents settings group text) ↔ IsQuiet (segmentEvents settings false text) := by
  rw [parseEvents, if_neg (Bool.eq_false_iff.mp hb), isQuiet_append]
  refine and_iff_left ?_
  cases parse settings group text with
  | error e => exact List.forall_mem_nil _
  | ok requests => exact List.forall_mem_singleton.mpr rfl

/-- Reading a pipeline reveals its events. -/
theorem reveals_parse (settings : ParserSettings) (group text : Text) :
    Reveals settings (parseEvents settings group text) (parse settings.refusing group text)
      (parse settings group text) := by
  cases hb : isAllBlank group with
  | true =>
    rw [parse_of_blank hb, parse_of_blank hb, parseEvents, if_pos hb]
    exact .inl ⟨List.forall_mem_nil _, rfl⟩
  | false =>
    rw [parse_of_named hb, parse_of_named hb]
    exact ((reveals_segments settings false text).map _).congr (isQuiet_parseEvents_iff hb)

/-- Reading a single module reveals its events. -/
theorem reveals_parameters (settings : ParserSettings) (text : Text) :
    Reveals settings (parametersEvents settings text) (parameters settings.refusing text)
      (parameters settings text) :=
  (reveals_segments settings true text).bind _

end Readers

end DataPipeline.Definition

namespace DataPipeline.CommandLine

open Definition

/-- Nothing stands in the log exactly if no event is logged. -/
theorem Logger.text_eq_nil_iff {logger : Logger} {events : List Event} :
    logger.text events = [] ↔ ∀ e ∈ events, logger.logs e = false := by
  rw [Logger.text, List.flatMap_eq_nil_iff]
  constructor
  · intro h e he
    obtain ⟨n, hn⟩ := List.mem_iff_getElem?.mp he
    have hline := h (e, n) (List.mk_mem_zipIdx_iff_getElem?.mpr hn)
    rw [←Bool.not_eq_true]
    intro hlogs
    simp [hlogs] at hline
  · rintro h ⟨e, n⟩ hmem
    have hlogs := h e (List.fst_mem_of_mem_zipIdx hmem)
    simp [hlogs]

/-- If nothing else is asked for, a command logs nothing exactly if it would end in
the same way with repeated keys refused. -/
theorem log_eq_nil_iff {logger : Logger} (hlogs : ∀ e, logger.logs e = e.level.isLogged)
    (command : Command) (settings : Settings) :
    command.log logger (.ok settings) = [] ↔
      command.output settings.parser.refusing = command.output settings.parser := by
  have hquiet : command.log logger (.ok settings) = [] ↔
      IsQuiet (command.events settings.parser) := by
    rw [Command.log, Logger.text_eq_nil_iff, IsQuiet]
    simp only [hlogs]
  rw [hquiet]
  cases command with
  | parse group definition json =>
    refine ((reveals_parse settings.parser group definition).bind _).isQuiet_iff ?_
    intro hpolicy e he
    rcases Except.bind_eq_error_iff.mp he with hparse | ⟨requests, -, hprint⟩
    · exact parse_error_kind hpolicy hparse
    · cases hprint
  | params text =>
    refine ((reveals_parameters settings.parser text).bind _).isQuiet_iff ?_
    intro hpolicy e he
    rcases Except.bind_eq_error_iff.mp he with hread | ⟨options, -, hprint⟩
    · exact parameters_error_kind hpolicy hread
    · cases hprint

end DataPipeline.CommandLine
