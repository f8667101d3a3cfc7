import DataPipeline.Proofs.Definition.LoopState
import DataPipeline.Proofs.Definition.SingleModule
import DataPipeline.Proofs.Text.Trim
import Mathlib.Data.List.DropRight

/-!
# Two loops in one state

The lexer and the grouping loop both keep track of the segment at hand: the
lexer by whether a module name is due, the loop by the segment that is open.
Before every token of a text both say the same, so the loop never meets an
option without its module, and a text with a character that shows never comes
without a module.
-/

namespace DataPipeline.Definition

open Text

/-- What the tokens behind the last separator say. -/
def openKinds (before : List Token) : List TokenKind :=
  (before.map Token.kind).rtakeWhile fun kind => kind ≠ .pipe

section Open

variable {before : List Token} {token : Token}

theorem openKinds_pipe (h : token.kind = .pipe) : openKinds (before ++ [token]) = [] := by
  rw [openKinds, List.map_append, List.map_singleton, List.rtakeWhile_concat_neg]
  simp [h]

theorem openKinds_concat (h : token.kind ≠ .pipe) :
    openKinds (before ++ [token]) = openKinds before ++ [token.kind] := by
  rw [openKinds, List.map_append, List.map_singleton, List.rtakeWhile_concat_pos]
  · rfl
  · simpa using h

end Open

/-- Lexer and grouping loop agree behind some tokens of a text. -/
structure Agree (before : List Token) (s : LexerState) (g : GroupingState) : Prop where
  /-- A module name is due exactly when no segment is open. -/
  due : s.nameDue = true ↔ g.current = none
  /-- When no segment is open, nothing stands behind the last separator. -/
  closed : g.current = none → openKinds before = [] ∧ g.lastPipe = before.getLast?
  /-- An open segment has its name and its keys from the tokens behind the last
  separator. -/
  opened : ∀ segment, g.current = some segment →
    (∃ name, .name name ∈ openKinds before) ∧
      ∀ key, segment.options.contains key = true ↔ ∃ value, .option key value ∈ openKinds before

section Agreement

variable {d : Dialect} {policy : RepeatPolicy} {text : Text} {before : List Token} {token : Token}
  {s s' : LexerState} {g g' : GroupingState}

theorem agree_start (t : Text) : Agree [] (.start t) .initial where
  due := ⟨fun _ => rfl, fun _ => rfl⟩
  closed _ := ⟨rfl, rfl⟩
  opened _ h := by cases h

/-- A token that both pass keeps them in agreement. -/
theorem Agree.advance (h : Agree before s g) (hs : s.next d = .ok (some (token, s')))
    (hg : g.step policy token = .ok g') : Agree (before ++ [token]) s' g' := by
  obtain ⟨-, -, -, hdue, -⟩ := LexerState.next_inversion hs
  rcases GroupingState.step_inversion hg with ⟨name, hk, rfl⟩ |
    ⟨key, value, segment, hk, hopen, -, rfl⟩ | ⟨segment, hk, -, rfl⟩
  · -- The lexer reads a name only where one is due, hence right behind a separator.
    have hnone := (h.closed (h.due.mp ((LexerState.next_kind hs).1 name hk))).1
    have hkinds : openKinds (before ++ [token]) = [.name name] := by
      rw [openKinds_concat (by rw [hk]; exact TokenKind.noConfusion), hnone, hk]
      rfl
    refine ⟨by simp [hdue, hk], fun hno => absurd hno (Option.some_ne_none _), ?_⟩
    intro segment hsegment
    cases hsegment
    rw [hkinds]
    exact ⟨⟨name, List.mem_singleton_self _⟩, by simp [OptionMap.contains, OptionMap.empty]⟩
  · obtain ⟨⟨name, hname⟩, hkeys⟩ := h.opened segment hopen
    have hkinds : openKinds (before ++ [token]) = openKinds before ++ [.option key value] := by
      rw [openKinds_concat (by rw [hk]; exact TokenKind.noConfusion), hk]
    refine ⟨by simp [hdue, hk], fun hno => absurd hno (Option.some_ne_none _), ?_⟩
    intro segment' hsegment
    cases hsegment
    rw [hkinds]
    refine ⟨⟨name, List.mem_append_left _ hname⟩, fun key' => ?_⟩
    simp only [OptionMap.contains_insert, Bool.or_eq_true, decide_eq_true_eq, hkeys,
      List.mem_append, List.mem_singleton, TokenKind.option.injEq, exists_or]
    constructor
    · rintro (rfl | hkey)
      · exact .inr ⟨value, rfl, rfl⟩
      · exact .inl hkey
    · rintro (hkey | ⟨-, hkey, -⟩)
      · exact .inr hkey
      · exact .inl hkey
  · refine ⟨by simp [hdue, hk], fun _ => ⟨openKinds_pipe hk, ?_⟩,
      fun _ hno => absurd hno.symm (Option.some_ne_none _)⟩
    rw [List.getLast?_concat]

/-- Wherever both have passed the same tokens of a text, they agree. -/
theorem agree_of_reads (hs : (LexerState.start text).Reads d before s)
    (hg : GroupingState.initial.Passes policy before g) : Agree before s g := by
  induction hs generalizing g with
  | here =>
    cases hg
    exact agree_start text
  | token earlier last ih =>
    obtain ⟨g', hearlier, hlast⟩ := GroupingState.passes_append.mp hg
    exact (ih hearlier).advance last (GroupingState.passes_singleton.mp hlast)

end Agreement

/-- What may stand behind what the token before it says, or first. -/
def MayFollow (last : Option TokenKind) : TokenKind → Prop
  | .name _ => last = none ∨ last = some .pipe
  | .option _ _ => (∃ name, last = some (.name name)) ∨ ∃ key value, last = some (.option key value)
  | .pipe => True

section Order

variable {d : Dialect} {text : Text} {before : List Token} {token : Token} {s s' : LexerState}

/-- A module name is due at the front and right behind a separator. -/
theorem nameDue_iff (h : (LexerState.start text).Reads d before s) :
    s.nameDue = true ↔ ∀ token, before.getLast? = some token → token.kind = .pipe := by
  cases h with
  | here => simp [LexerState.start]
  | token earlier last =>
    obtain ⟨-, -, -, hdue, -⟩ := LexerState.next_inversion last
    simp [hdue]

/-- Each token may follow the one before it. -/
theorem mayFollow_of_next (h : (LexerState.start text).Reads d before s)
    (hs : s.next d = .ok (some (token, s'))) :
    MayFollow (before.getLast?.map Token.kind) token.kind := by
  obtain ⟨hname, hoption⟩ := LexerState.next_kind hs
  have hdue := nameDue_iff h
  cases hk : token.kind with
  | pipe => exact trivial
  | name name =>
    have hpipe := hdue.mp (hname name hk)
    cases hlast : before.getLast? with
    | none => exact .inl rfl
    | some last => exact .inr (congrArg some (hpipe last hlast))
  | option key value =>
    rw [hoption key value hk] at hdue
    cases hlast : before.getLast? with
    | none => simp [hlast] at hdue
    | some last =>
      cases hl : last.kind with
      | name name => exact .inl ⟨name, congrArg some hl⟩
      | option key' value' => exact .inr ⟨key', value', congrArg some hl⟩
      | pipe => simp [hlast, hl] at hdue

end Order

/-- What grouping can find wrong with the tokens of a text. -/
def Cause.isGrouping : Cause → Bool
  | .noModuleBefore | .noModuleAfter | .repeatedKey _ _ => true
  | _ => false

section Errors

variable {d : Dialect} {policy : RepeatPolicy} {settings : ParserSettings} {singleModule : Bool}
  {group text : Text} {tokens : List Token} {e : ParseError}

/-- Grouping the tokens of a text meets no option without its module. -/
theorem isGrouping_of_groupTokens (ht : tokenize d text = .ok tokens)
    (h : groupTokens policy none none tokens = .error e) : e.cause.isGrouping = true := by
  rcases GroupingState.groupTokens_error_cases h with
    ⟨before, token, after, g, rfl, hpasses, hstep⟩ | ⟨g, -, hfinish⟩
  · obtain ⟨s, hreads, htokens⟩ := LexerState.exists_reads (s := .start text) ht
    obtain ⟨s', hnext, -⟩ := LexerState.exists_next htokens
    obtain ⟨-, ⟨-, hnone, key, value, hk⟩ | ⟨hcause, -⟩ | ⟨key, value, segment, hcause, -⟩⟩ :=
      GroupingState.step_error hstep
    · have hdue := (agree_of_reads hreads hpasses).due.mpr hnone
      rw [(LexerState.next_kind hnext).2 key value hk] at hdue
      cases hdue
    · rw [hcause]
      rfl
    · rw [hcause]
      rfl
  · obtain ⟨-, pipe, -, rfl⟩ := GroupingState.finish_error hfinish
    rfl

/-- Only texts of ASCII blanks have no token. -/
theorem isAllBlank_of_tokenize (h : tokenize d text = .ok []) : isAllBlank text = true := by
  cases lexes_of_tokensFrom h with
  | done blank => exact List.all_eq_true.mpr fun c hc => isBlank_of_isAsciiBlank (blank c hc)

/-- A text is refused as blank, or for a fault of the lexer or of grouping. -/
theorem segments_error_cause (h : segments settings singleModule text = .error e) :
    (isAllBlank text = true ∧ e.cause = .blankText) ∨
      (isAllBlank text = false ∧ (e.cause.isLexical = true ∨ e.cause.isGrouping = true)) := by
  cases hb : isAllBlank text with
  | true =>
    rw [segments_of_blank hb] at h
    cases h
    exact .inl ⟨rfl, rfl⟩
  | false =>
    refine .inr ⟨rfl, ?_⟩
    rw [segments_of_nonblank hb] at h
    rcases Except.bind_eq_error_iff.mp h with ht | ⟨tokens, ht, h⟩
    · exact .inl (tokensFrom_error ht).1
    · rcases Except.bind_eq_error_iff.mp h with hg | ⟨found, hg, h⟩
      · exact .inr (isGrouping_of_groupTokens ht hg)
      · have htokens : tokens ≠ [] := by
          rintro rfl
          rw [isAllBlank_of_tokenize ht] at hb
          cases hb
        rw [if_neg (groupTokens_ne_nil (.inr (.inr htokens)) hg)] at h
        cases h

/-- A fault of the lexer or of grouping does not make a definition empty. -/
theorem Cause.kind_ne_emptyDefinition {cause : Cause}
    (h : cause.isLexical = true ∨ cause.isGrouping = true) : cause.kind ≠ .emptyDefinition := by
  intro hk
  cases cause <;> rcases h with h | h <;> cases h <;> cases hk

/-- Three causes are never met in reading segments. -/
theorem segments_error_reachable (h : segments settings singleModule text = .error e) :
    e.cause ≠ .strayOption ∧ e.cause ≠ .noModules ∧ e.cause ≠ .notOneModule := by
  rcases segments_error_cause h with ⟨-, hcause⟩ | ⟨-, hcause | hcause⟩
  · rw [hcause]
    exact ⟨Cause.noConfusion, Cause.noConfusion, Cause.noConfusion⟩
  all_goals
    refine ⟨?_, ?_, ?_⟩ <;> intro hno <;> rw [hno] at hcause <;> cases hcause

/-- Reading segments reports an empty definition exactly of a blank text. -/
theorem segments_emptyDefinition_iff (settings : ParserSettings) (singleModule : Bool)
    (text : Text) :
    (∃ e, segments settings singleModule text = .error e ∧ e.kind = .emptyDefinition) ↔
      isAllBlank text = true := by
  constructor
  · rintro ⟨e, he, hkind⟩
    rcases segments_error_cause he with ⟨hb, -⟩ | ⟨-, hcause⟩
    · exact hb
    · exact absurd hkind (Cause.kind_ne_emptyDefinition hcause)
  · intro hb
    exact ⟨_, segments_of_blank hb, rfl⟩

end Errors

/-- The lexer and the grouping loop are in one state. Behind every beginning of
the tokens of a text the lexer stands somewhere, the next token may follow the
last one, and wherever the loop has passed these tokens, it has no open segment
exactly when the lexer expects a module name. So grouping meets no option
without its module, no definition is left without modules, and the text of a
single module has one. A definition is reported as empty exactly when its name
or its text is blank, and a single module exactly when its text is. -/
theorem lexer_and_grouping_agree (d : Dialect) (policy : RepeatPolicy) (settings : ParserSettings)
    (group text : Text) :
    (∀ before after, tokenize d text = .ok (before ++ after) →
      ∃ s, (LexerState.start text).Reads d before s ∧ s.tokens d = .ok after ∧
        (∀ g, GroupingState.initial.Passes policy before g →
          (g.current = none ↔ s.nameDue = true)) ∧
        ∀ token, after.head? = some token →
          MayFollow (before.getLast?.map Token.kind) token.kind) ∧
    (∀ tokens, groupTokens policy none none tokens =
      tokens.foldlM (GroupingState.step policy) .initial >>= GroupingState.finish) ∧
    (∀ tokens e, tokenize d text = .ok tokens → groupTokens policy none none tokens = .error e →
      e.cause ≠ .strayOption) ∧
    (∀ e, parse settings group text = .error e → e.cause ≠ .strayOption ∧ e.cause ≠ .noModules) ∧
    (∀ e, parameters settings text = .error e →
      e.cause ≠ .strayOption ∧ e.cause ≠ .noModules ∧ e.cause ≠ .notOneModule) ∧
    ((∃ e, parse settings group text = .error e ∧ e.kind = .emptyDefinition) ↔
      trim group = [] ∨ trim text = []) ∧
    ((∃ e, parameters settings text = .error e ∧ e.kind = .emptyDefinition) ↔ trim text = []) := by
  refine ⟨fun before after ht => ?_, fun tokens => ?_, fun tokens e ht he => ?_, fun e he => ?_,
    fun e he => ?_, ?_, ?_⟩
  · obtain ⟨s, hreads, htokens⟩ := LexerState.exists_reads (s := .start text) ht
    refine ⟨s, hreads, htokens, fun g hg => (agree_of_reads hreads hg).due.symm, ?_⟩
    intro token hhead
    obtain ⟨later, rfl⟩ := List.head?_eq_some_iff.mp hhead
    obtain ⟨s', hnext, -⟩ := LexerState.exists_next htokens
    exact mayFollow_of_next hreads hnext
  · exact GroupingState.groupTokens_eq_foldlM policy tokens
  · have hcause := isGrouping_of_groupTokens ht he
    intro hno
    rw [hno] at hcause
    cases hcause
  · rcases parse_eq_error_iff.mp he with ⟨-, rfl⟩ | ⟨-, hs⟩
    · exact ⟨Cause.noConfusion, Cause.noConfusion⟩
    · exact ⟨(segments_error_reachable hs).1, (segments_error_reachable hs).2.1⟩
  · exact segments_error_reachable (segments_of_parameters_error he)
  · rw [trim_eq_nil_iff, trim_eq_nil_iff]
    cases hgroup : isAllBlank group with
    | true => exact iff_of_true ⟨_, parse_of_blank hgroup, rfl⟩ (.inl rfl)
    | false =>
      rw [←segments_emptyDefinition_iff settings false]
      simp [parse_eq_error_iff, hgroup]
  · rw [trim_eq_nil_iff, ←segments_emptyDefinition_iff settings true]
    refine exists_congr fun e => and_congr_left fun _ => ?_
    refine ⟨segments_of_parameters_error, fun he => ?_⟩
    rw [parameters_eq, he]

theorem lexer_and_grouping_agree_sample :
    let name : Token := ⟨.name ['m'], ['m'], 0⟩
    let option : Token := ⟨.option ['k'] ['1'], ['-', '-', 'k', '=', '1'], 2⟩
    let pipe : Token := ⟨.pipe, ['|'], 8⟩
    let loop : GroupingState := ⟨[], some ⟨['m'], .empty⟩, none⟩
    tokenize {} "m --k=1 |".toList = .ok ([name] ++ [option, pipe]) ∧
      GroupingState.initial.Passes .reject [name] loop ∧
      (∃ s, (LexerState.start "m --k=1 |".toList).Reads {} [name] s ∧
        s.tokens {} = .ok [option, pipe] ∧ (loop.current = none ↔ s.nameDue = true) ∧
        MayFollow (some name.kind) option.kind) ∧
      (groupTokens .reject none none [name, option, pipe] = .error ⟨.noModuleAfter, ['|'], 8⟩ ∧
        Cause.noModuleAfter ≠ .strayOption) ∧
      (parse {} ['s'] "m --k=1 |".toList = .error ⟨.noModuleAfter, ['|'], 8⟩ ∧
        Cause.noModuleAfter ≠ .noModules) ∧
      (parameters {} "m n".toList = .error ⟨.strayWord, ['n'], 2⟩ ∧
        Cause.strayWord ≠ .notOneModule) ∧
      (∃ e, parse {} ['s'] ['\u00a0'] = .error e ∧ e.kind = .emptyDefinition) ∧
      ∃ e, parameters {} ['\x0b'] = .error e ∧ e.kind = .emptyDefinition := by
  intro name option pipe loop
  have hpipe : tokensFrom {} false 7 " |".toList = .ok [pipe] := by cbv
  have hstands : Stands {} false ⟨option.kind, option.text⟩ " |".toList :=
    @Stands.option _ ['k'] ['1'] " |".toList (by decide) (by decide) (by decide) (by decide)
  have hoption : tokensFrom {} false 2 "--k=1 |".toList = .ok [option, pipe] := by
    refine (tokensFrom_stands hstands).trans ?_
    change (tokensFrom {} false 7 " |".toList).map _ = _
    rw [hpipe]
    rfl
  have htokens : tokenize {} "m --k=1 |".toList = .ok ([name] ++ [option, pipe]) := by
    refine (@tokensFrom_stands {} true 0 ⟨.name ['m'], ['m']⟩ " --k=1 |".toList
      (.name (by decide) (by decide))).trans ?_
    change (tokensFrom {} false 1 (' ' :: "--k=1 |".toList)).map _ = _
    rw [tokensFrom_blank (by decide), hoption]
    rfl
  have hpasses : GroupingState.initial.Passes .reject [name] loop := rfl
  have hgroup : groupTokens .reject none none [name, option, pipe] =
      .error ⟨.noModuleAfter, ['|'], 8⟩ := rfl
  have hparse : parse {} ['s'] "m --k=1 |".toList = .error ⟨.noModuleAfter, ['|'], 8⟩ := by
    refine parse_eq_error_iff.mpr (.inr ⟨by decide, ?_⟩)
    rw [segments_of_nonblank (by decide)]
    exact Except.bind_eq_error_iff.mpr
      (.inr ⟨_, htokens, Except.bind_eq_error_iff.mpr (.inl hgroup)⟩)
  have hparameters : parameters {} "m n".toList = .error ⟨.strayWord, ['n'], 2⟩ := by cbv
  obtain ⟨hstates, -, hstray, hnamed, -⟩ :=
    lexer_and_grouping_agree {} .reject {} ['s'] "m --k=1 |".toList
  obtain ⟨s, hreads, hrest, hagree, hfollows⟩ := hstates [name] [option, pipe] htokens
  have hspace := lexer_and_grouping_agree {} .reject {} ['s'] ['\u00a0']
  have htab := lexer_and_grouping_agree {} .reject {} ['s'] ['\x0b']
  have hsingle := lexer_and_grouping_agree {} .reject {} ['s'] "m n".toList
  exact ⟨htokens, hpasses, ⟨s, hreads, hrest, hagree loop hpasses, hfollows option rfl⟩,
    ⟨hgroup, hstray _ _ htokens hgroup⟩, ⟨hparse, (hnamed _ hparse).2⟩,
    ⟨hparameters, (hsingle.2.2.2.2.1 _ hparameters).2.2⟩,
    hspace.2.2.2.2.2.1.mpr (.inr (by decide)), htab.2.2.2.2.2.2.mpr (by decide)⟩

end DataPipeline.Definition
