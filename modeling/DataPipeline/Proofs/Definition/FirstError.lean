import DataPipeline.Proofs.Definition.SharedState

/-!
# Which error is reported

The lexer runs over the whole definition before its tokens are grouped. Among
the tokens of a definition the earliest one that breaks a rule of grouping is
reported, but any fault of the lexer is reported instead, also when it stands
behind such a token.
-/

namespace DataPipeline.Definition

open Text

/-- A token breaks a rule of grouping behind other tokens: a separator without a
module in its segment, or, if keys must differ, an option whose key is there
already. -/
def Violates (policy : RepeatPolicy) (before : List Token) (token : Token) : Prop :=
  (token.kind = .pipe ∧ ∀ name, .name name ∉ openKinds before) ∨
    (policy = .reject ∧ ∃ key value earlier,
      token.kind = .option key value ∧ .option key earlier ∈ openKinds before)

section Rules

variable {d : Dialect} {policy : RepeatPolicy} {text : Text} {before after : List Token}
  {token : Token} {s s' : LexerState} {g g' : GroupingState} {e : ParseError}

/-- The grouping loop passes no token that breaks a rule. -/
theorem Agree.not_violates (h : Agree before s g) (hg : g.step policy token = .ok g') :
    ¬Violates policy before token := by
  rintro (⟨hk, hnone⟩ | ⟨rfl, key, value, earlier, hk, hkey⟩)
  · rcases GroupingState.step_inversion hg with ⟨_, hk', -⟩ | ⟨_, _, _, hk', -⟩ |
      ⟨segment, -, hopen, -⟩
    · rw [hk] at hk'
      cases hk'
    · rw [hk] at hk'
      cases hk'
    · obtain ⟨name, hname⟩ := (h.opened segment hopen).1
      exact hnone name hname
  · rcases GroupingState.step_inversion hg with ⟨_, hk', -⟩ |
      ⟨key', value', segment, hk', hopen, hfresh, -⟩ | ⟨_, hk', -⟩
    · rw [hk] at hk'
      cases hk'
    · rw [hk] at hk'
      cases hk'
      exact hfresh ⟨rfl, ((h.opened segment hopen).2 key).mpr ⟨earlier, hkey⟩⟩
    · rw [hk] at hk'
      cases hk'

/-- A token of the lexer that the loop does not pass breaks a rule. -/
theorem Agree.violates (h : Agree before s g) (hs : s.next d = .ok (some (token, s')))
    (he : g.step policy token = .error e) : Violates policy before token := by
  obtain ⟨-, ⟨-, hnone, key, value, hk⟩ | ⟨-, hnone, hk⟩ |
    ⟨key, value, segment, -, hk, hopen, hpolicy, hkey⟩⟩ := GroupingState.step_error he
  · have hdue := h.due.mpr hnone
    rw [(LexerState.next_kind hs).2 key value hk] at hdue
    cases hdue
  · refine .inl ⟨hk, fun name => ?_⟩
    rw [(h.closed hnone).1]
    exact List.not_mem_nil
  · obtain ⟨earlier, hearlier⟩ := ((h.opened segment hopen).2 key).mp hkey
    exact .inr ⟨hpolicy, key, value, earlier, hk, hearlier⟩

/-- No token that the loop has passed breaks a rule. -/
theorem not_violates_of_passes (hs : (LexerState.start text).Reads d before s)
    (hg : GroupingState.initial.Passes policy (before ++ token :: after) g) :
    ¬Violates policy before token := by
  obtain ⟨g', hbefore, hrest⟩ := GroupingState.passes_append.mp hg
  have hsplit : g'.Passes policy ([token] ++ after) g := hrest
  obtain ⟨g'', htoken, -⟩ := GroupingState.passes_append.mp hsplit
  exact (agree_of_reads hs hbefore).not_violates (GroupingState.passes_singleton.mp htoken)

end Rules

/-- In a list of increasing places, what has a lower place stands before. -/
theorem exists_between_of_offset_lt {before after before' after' : List Token}
    {token token' : Token}
    (hsorted : (before' ++ token' :: after').Pairwise fun a b => a.offset < b.offset)
    (h : before ++ token :: after = before' ++ token' :: after')
    (hlt : token.offset < token'.offset) : ∃ between, before' = before ++ token :: between := by
  rcases List.append_eq_append_iff.mp h with ⟨between, rfl, hrest⟩ | ⟨between, rfl, hrest⟩
  · rcases List.cons_eq_append_iff.mp hrest with ⟨-, heq⟩ | ⟨later, rfl, -⟩
    · obtain ⟨rfl, -⟩ := List.cons.inj heq
      exact absurd hlt (Nat.lt_irrefl _)
    · exact ⟨later, rfl⟩
  · -- Otherwise the second token would stand at or before the first one.
    rcases List.cons_eq_append_iff.mp hrest with ⟨-, heq⟩ | ⟨later, rfl, rfl⟩
    · obtain ⟨rfl, -⟩ := List.cons.inj heq
      exact absurd hlt (Nat.lt_irrefl _)
    · have hrest := (List.pairwise_append.mp hsorted).2.1
      have hbefore := (List.pairwise_cons.mp hrest).1 token (by simp)
      exact absurd hlt (Nat.lt_asymm hbefore)

/-- No fault of grouping is one of the lexer. -/
theorem Cause.isLexical_eq_false {cause : Cause} (h : cause.isGrouping = true) :
    cause.isLexical = false := by
  cases cause <;> simp_all [isGrouping, isLexical]

section Reports

variable {d : Dialect} {policy : RepeatPolicy} {settings : ParserSettings} {group text : Text}
  {tokens before : List Token} {token : Token} {s : LexerState} {e : ParseError}

/-- All tokens that the lexer recognises before a fault stand before it. -/
theorem offset_lt_of_fault (h : tokenize d text = .error e)
    (hs : (LexerState.start text).Reads d before s) :
    ∀ token ∈ before, token.offset < e.offset := by
  have hrest : s.tokens d = .error e := Except.map_eq_error_iff.mp (hs.tokens_eq.symm.trans h)
  obtain ⟨-, -, front, back, -, hplace⟩ := tokensFrom_error hrest
  intro token hm
  have hlt := hs.offset_lt token hm
  omega

/-- Grouping reports the first token that breaks a rule, or a last separator. -/
theorem violates_of_groupTokens (ht : tokenize d text = .ok tokens)
    (h : groupTokens policy none none tokens = .error e) :
    ∃ before token after, tokens = before ++ token :: after ∧
      (e.fragment = token.text ∧ e.offset = token.offset) ∧
      (Violates policy before token ∨ (token.kind = .pipe ∧ after = [])) ∧
      ∃ g, GroupingState.initial.Passes policy before g := by
  rcases GroupingState.groupTokens_error_cases h with
    ⟨before, token, after, g, rfl, hpasses, hstep⟩ | ⟨g, hpasses, hfinish⟩
  · obtain ⟨s, hreads, htokens⟩ := LexerState.exists_reads (s := .start text) ht
    obtain ⟨s', hnext, -⟩ := LexerState.exists_next htokens
    have hviolates := (agree_of_reads hreads hpasses).violates hnext hstep
    exact ⟨before, token, after, rfl, (GroupingState.step_error hstep).1, .inl hviolates, g,
      hpasses⟩
  · obtain ⟨hnone, pipe, hpipe, rfl⟩ := GroupingState.finish_error hfinish
    have hall : tokenize d text = .ok (tokens ++ []) := by rw [List.append_nil, ht]
    obtain ⟨s, hreads, -⟩ := LexerState.exists_reads (s := .start text) hall
    have hagree := agree_of_reads hreads hpasses
    have hlast : tokens.getLast? = some pipe := by rw [←(hagree.closed hnone).2, hpipe]
    obtain ⟨before, rfl⟩ := List.getLast?_eq_some_iff.mp hlast
    obtain ⟨g', hbefore, -⟩ := GroupingState.passes_append.mp hpasses
    have hdue := (nameDue_iff hreads).mp (hagree.due.mpr hnone) pipe hlast
    exact ⟨before, pipe, [], rfl, ⟨rfl, rfl⟩, .inr ⟨hdue, rfl⟩, g', hbefore⟩

/-- Before the token that grouping reports no token breaks a rule. -/
theorem not_violates_before (ht : tokenize d text = .ok tokens)
    (h : groupTokens policy none none tokens = .error e)
    (hs : (LexerState.start text).Reads d (before ++ [token]) s) (hlt : token.offset < e.offset) :
    ¬Violates policy before token := by
  obtain ⟨before', token', after', rfl, ⟨-, hplace⟩, -, g, hpasses⟩ :=
    violates_of_groupTokens ht h
  -- What the lexer has read by then is the front of all its tokens.
  obtain ⟨after, -, heq⟩ := Except.map_eq_ok_iff.mp (hs.tokens_eq.symm.trans ht)
  rw [List.append_assoc, List.singleton_append] at heq
  have hall : tokenize d text = .ok ((before' ++ token' :: after') ++ []) := by
    rw [List.append_nil, ht]
  obtain ⟨_, hsorted, -⟩ := LexerState.exists_reads (s := .start text) hall
  obtain ⟨between, rfl⟩ :=
    exists_between_of_offset_lt hsorted.pairwise_offset heq (hplace ▸ hlt)
  rw [List.append_assoc] at ht
  obtain ⟨_, hreads, -⟩ := LexerState.exists_reads (s := .start text) ht
  exact not_violates_of_passes hreads hpasses

end Reports

/-- What a definition under a proper name that is not blank is refused for. It
is the fault at which the lexer stops, behind all tokens that the lexer
recognises, or else it is a token that breaks a rule of grouping or a last
separator, and then no token at a lower place breaks one. -/
theorem reported_error (settings : ParserSettings) {group text : Text} {e : ParseError}
    (hgroup : isAllBlank group = false) (htext : isAllBlank text = false)
    (h : parse settings group text = .error e) :
    (e.cause.isLexical = true ∧ tokenize (settings.dialect false) text = .error e ∧
      ∀ before s, (LexerState.start text).Reads (settings.dialect false) before s →
        ∀ token ∈ before, token.offset < e.offset) ∨
    (e.cause.isLexical = false ∧
      (∃ before token after,
        tokenize (settings.dialect false) text = .ok (before ++ token :: after) ∧
        (e.fragment = token.text ∧ e.offset = token.offset) ∧
        (Violates settings.repeatedKeys before token ∨ (token.kind = .pipe ∧ after = []))) ∧
      ∀ before token s,
        (LexerState.start text).Reads (settings.dialect false) (before ++ [token]) s →
        token.offset < e.offset → ¬Violates settings.repeatedKeys before token) := by
  rcases parse_eq_error_iff.mp h with ⟨hblank, -⟩ | ⟨-, hs⟩
  · rw [hgroup] at hblank
    cases hblank
  · rw [segments_of_nonblank htext] at hs
    rcases Except.bind_eq_error_iff.mp hs with ht | ⟨tokens, ht, hs⟩
    · exact .inl ⟨(tokensFrom_error ht).1, ht, fun before s hreads => offset_lt_of_fault ht hreads⟩
    · have hne : tokens ≠ [] := by
        rintro rfl
        rw [isAllBlank_of_tokenize ht] at htext
        cases htext
      rcases Except.bind_eq_error_iff.mp hs with hg | ⟨found, hg, hs⟩
      · obtain ⟨before, token, after, rfl, hplace, hviolates, -⟩ := violates_of_groupTokens ht hg
        exact .inr ⟨Cause.isLexical_eq_false (isGrouping_of_groupTokens ht hg),
          ⟨before, token, after, ht, hplace, hviolates⟩,
          fun before token s hreads hlt => not_violates_before ht hg hreads hlt⟩
      · rw [if_neg (groupTokens_ne_nil (.inr (.inr hne)) hg)] at hs
        cases hs

theorem reported_error_sample :
    isAllBlank ['s'] = false ∧ isAllBlank "a | | b |".toList = false ∧
      parse {} ['s'] "a | | b |".toList = .error ⟨.noModuleBefore, ['|'], 4⟩ ∧
      ∀ before token s, (LexerState.start "a | | b |".toList).Reads {} (before ++ [token]) s →
        token.offset < 4 → ¬Violates .reject before token := by
  have hgroup : isAllBlank ['s'] = false := by decide
  have htext : isAllBlank "a | | b |".toList = false := by decide
  have hparse : parse {} ['s'] "a | | b |".toList = .error ⟨.noModuleBefore, ['|'], 4⟩ := by cbv
  rcases reported_error {} hgroup htext hparse with ⟨hno, -⟩ | ⟨-, -, hearliest⟩
  · cases hno
  · exact ⟨hgroup, htext, hparse, hearliest⟩

/-- A separator without a module before it goes unreported when a word behind it
is neither an option nor a separator. -/
theorem earlier_violation_unreported :
    ¬∀ (settings : ParserSettings) (group text : Text) (e : ParseError),
      isAllBlank group = false → isAllBlank text = false →
      parse settings group text = .error e →
      ∀ before token s,
        (LexerState.start text).Reads (settings.dialect false) (before ++ [token]) s →
        token.offset < e.offset → ¬Violates settings.repeatedKeys before token := by
  intro hall
  have hparse : parse {} ['s'] "| a b".toList = .error ⟨.strayWord, ['b'], 4⟩ := by cbv
  have hnext : (LexerState.start "| a b".toList).next {} =
      .ok (some (⟨.pipe, ['|'], 0⟩, ⟨true, 1, " a b".toList⟩)) := by cbv
  have hviolates : Violates .reject [] ⟨.pipe, ['|'], 0⟩ :=
    .inl ⟨rfl, fun _ => List.not_mem_nil⟩
  exact hall {} ['s'] "| a b".toList _ (by decide) (by decide) hparse [] _ _ (.token .here hnext)
    (by decide) hviolates

end DataPipeline.Definition
