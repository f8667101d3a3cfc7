import DataPipeline.Proofs.Definition.Grouping
import DataPipeline.Proofs.Definition.TokenRun
import Mathlib.Data.List.Induction

/-!
# States of the lexer and of the grouping loop

Both loops as machines that pass one token at a time. The lexer remembers
whether a module name is due and which text is left; the grouping loop
remembers the segments that are closed, the one that is open and the last
separator. Run to their ends the machines give the tokens of a text and the
segments of a list of tokens.
-/

namespace DataPipeline.Definition

open Text

/-- Where the lexer stands between two tokens. -/
structure LexerState where
  /-- Whether a module name is due. -/
  nameDue : Bool
  /-- Number of characters passed. -/
  offset : Nat
  /-- The text that is left. -/
  rest : Text
  deriving DecidableEq, Repr

namespace LexerState

/-- The lexer in front of a text. -/
def start (t : Text) : LexerState := ⟨true, 0, t⟩

/-- The next token with the state behind it. There is none when only blanks
are left. -/
def next (d : Dialect) (s : LexerState) : Except ParseError (Option (Token × LexerState)) :=
  let place := s.offset + (s.rest.takeWhile isAsciiBlank).length
  match s.rest.dropWhile isAsciiBlank with
  | [] => .ok none
  | c :: rest =>
    match lexToken d s.nameDue (c :: rest) with
    | .error fault => .error ⟨fault.cause, fault.fragment, place⟩
    | .ok l =>
      .ok (some (⟨l.kind, l.text, place⟩,
        ⟨l.kind = .pipe, place + l.text.length, (c :: rest).drop l.text.length⟩))

/-- All tokens from a state on. -/
def tokens (d : Dialect) (s : LexerState) : Except ParseError (List Token) :=
  tokensFrom d s.nameDue s.offset s.rest

/-- The lexer reads some tokens on its way from one state to another. -/
inductive Reads (d : Dialect) (s : LexerState) : List Token → LexerState → Prop
  /-- Nothing is read yet. -/
  | here : Reads d s [] s
  /-- One token more is read. -/
  | token {before : List Token} {s' s'' : LexerState} {token : Token}
      (earlier : Reads d s before s') (last : s'.next d = .ok (some (token, s''))) :
      Reads d s (before ++ [token]) s''

section Steps

variable {d : Dialect} {s s' : LexerState} {token : Token} {e : ParseError}

/-- The tokens from a state on are the next one and those behind it. -/
theorem tokens_eq (d : Dialect) (s : LexerState) :
    s.tokens d =
      match s.next d with
      | .error e => .error e
      | .ok none => .ok []
      | .ok (some (token, s')) => (s'.tokens d).map (token :: ·) := by
  rw [tokens, tokensFrom_eq, next]
  cases s.rest.dropWhile isAsciiBlank with
  | nil => rfl
  | cons c rest =>
    dsimp only
    cases lexToken d s.nameDue (c :: rest) <;> rfl

theorem tokens_of_next (h : s.next d = .ok (some (token, s'))) :
    s.tokens d = (s'.tokens d).map (token :: ·) := by
  rw [tokens_eq, h]

/-- What a step of the lexer does: blanks are passed, and a token stands by the
rules before the text that is left. -/
theorem next_inversion (h : s.next d = .ok (some (token, s'))) :
    ∃ l : Lexeme, Stands d s.nameDue l s'.rest ∧
      token = ⟨l.kind, l.text, s.offset + (s.rest.takeWhile isAsciiBlank).length⟩ ∧
      s'.nameDue = decide (token.kind = .pipe) ∧ s'.offset = token.offset + token.text.length := by
  rw [next] at h
  cases ht : s.rest.dropWhile isAsciiBlank with
  | nil => rw [ht] at h; cases h
  | cons c rest =>
    rw [ht] at h
    dsimp only at h
    cases hl : lexToken d s.nameDue (c :: rest) with
    | error fault => rw [hl] at h; cases h
    | ok l =>
      rw [hl] at h
      cases h
      obtain ⟨later, htext, hstands⟩ := stands_of_lexToken hl
      refine ⟨l, ?_, rfl, rfl, rfl⟩
      rw [htext, List.drop_left]
      exact hstands

/-- A module name is read exactly where one is due, and an option only where
none is. -/
theorem next_kind (h : s.next d = .ok (some (token, s'))) :
    (∀ name, token.kind = .name name → s.nameDue = true) ∧
      ∀ key value, token.kind = .option key value → s.nameDue = false := by
  obtain ⟨l, hstands, rfl, -, -⟩ := next_inversion h
  generalize s.nameDue = due at hstands
  cases hstands with
  | pipe => exact ⟨fun _ hk => TokenKind.noConfusion hk, fun _ _ hk => TokenKind.noConfusion hk⟩
  | name => exact ⟨fun _ _ => rfl, fun _ _ hk => TokenKind.noConfusion hk⟩
  | option => exact ⟨fun _ hk => TokenKind.noConfusion hk, fun _ _ _ => rfl⟩

/-- A token stands at or behind the place of the lexer, and moves it on. -/
theorem next_offset (h : s.next d = .ok (some (token, s'))) :
    s.offset ≤ token.offset ∧ token.offset < s'.offset := by
  obtain ⟨l, hstands, rfl, -, hoffset⟩ := next_inversion h
  obtain ⟨c, u, htext, -⟩ := hstands.exists_cons
  rw [hoffset]
  simp only [htext, List.length_cons]
  omega

end Steps

section Runs

variable {d : Dialect} {s s' : LexerState} {before after : List Token}

/-- What is left to read behind a part of a run is what the run reads behind
that part. -/
theorem Reads.tokens_eq (h : s.Reads d before s') :
    s.tokens d = (s'.tokens d).map (before ++ ·) := by
  induction h with
  | here => cases s.tokens d <;> rfl
  | @token before s' s'' token earlier last ih =>
    rw [ih, tokens_of_next last]
    cases s''.tokens d with
    | error e => rfl
    | ok later => simp [Except.map]

/-- The first of the tokens from a state on is the next one. -/
theorem exists_next {token : Token} (h : s.tokens d = .ok (token :: after)) :
    ∃ s', s.next d = .ok (some (token, s')) ∧ s'.tokens d = .ok after := by
  rw [tokens_eq] at h
  split at h
  · cases h
  · cases h
  · next token' s' hnext =>
    obtain ⟨later, hlater, heq⟩ := Except.map_eq_ok_iff.mp h
    obtain ⟨rfl, rfl⟩ := List.cons.inj heq
    exact ⟨s', hnext, hlater⟩

/-- Every beginning of the tokens of a text is read by a part of the run. -/
theorem exists_reads (h : s.tokens d = .ok (before ++ after)) :
    ∃ s', s.Reads d before s' ∧ s'.tokens d = .ok after := by
  induction before using List.reverseRecOn generalizing after with
  | nil => exact ⟨s, .here, h⟩
  | append_singleton before token ih =>
    rw [List.append_assoc] at h
    obtain ⟨s', hreads, htokens⟩ := ih h
    obtain ⟨s'', hnext, hlater⟩ := exists_next htokens
    exact ⟨s'', .token hreads hnext, hlater⟩

/-- The lexer has passed all that it has read. -/
theorem Reads.offset_lt (h : s.Reads d before s') : ∀ token ∈ before, token.offset < s'.offset := by
  induction h with
  | here => exact List.forall_mem_nil _
  | @token before s' s'' token earlier last ih =>
    obtain ⟨hplace, hmove⟩ := next_offset last
    intro other hm
    rcases List.mem_append.mp hm with hm | hm
    · have hlt := ih other hm
      omega
    · rwa [List.mem_singleton.mp hm]

/-- Tokens are read in the order of their places. -/
theorem Reads.pairwise_offset (h : s.Reads d before s') :
    before.Pairwise fun a b => a.offset < b.offset := by
  induction h with
  | here => exact List.Pairwise.nil
  | @token before s' s'' token earlier last ih =>
    refine List.pairwise_append.mpr ⟨ih, List.pairwise_singleton _ _, fun a ha b hb => ?_⟩
    rw [List.mem_singleton.mp hb]
    exact Nat.lt_of_lt_of_le (earlier.offset_lt a ha) (next_offset last).1

end Runs

end LexerState

/-- What the grouping loop holds between two tokens. -/
structure GroupingState where
  /-- The segments that are complete. -/
  closed : List Segment
  /-- The segment that further options go to. -/
  current : Option Segment
  /-- The last separator. -/
  lastPipe : Option Token
  deriving DecidableEq

namespace GroupingState

/-- The loop before the first token. -/
def initial : GroupingState := ⟨[], none, none⟩

/-- The loop behind one token more. -/
def step (policy : RepeatPolicy) (g : GroupingState) (token : Token) :
    Except ParseError GroupingState :=
  match token.kind, g.current with
  | .name name, _ => .ok { g with current := some ⟨name, .empty⟩ }
  | .option _ _, none => .error ⟨.strayOption, token.text, token.offset⟩
  | .option key value, some segment =>
    (segment.addOption policy key value token).map fun segment => { g with current := some segment }
  | .pipe, none => .error ⟨.noModuleBefore, token.text, token.offset⟩
  | .pipe, some segment => .ok ⟨g.closed ++ [segment], none, some token⟩

/-- The segments when there is no further token. -/
def finish (g : GroupingState) : Except ParseError (List Segment) :=
  match g.current, g.lastPipe with
  | some segment, _ => .ok (g.closed ++ [segment])
  | none, some pipe => .error ⟨.noModuleAfter, pipe.text, pipe.offset⟩
  | none, none => .ok g.closed

/-- The loop passes some tokens on its way from one state to another. -/
def Passes (policy : RepeatPolicy) (g : GroupingState) (tokens : List Token)
    (g' : GroupingState) : Prop :=
  tokens.foldlM (step policy) g = .ok g'

section Steps

variable {policy : RepeatPolicy} {g g' : GroupingState} {segment : Segment} {token : Token}
  {e : ParseError}

/-- An option joins the open segment, unless keys must differ and this one is
there already. -/
theorem step_option {key value : Text} (hk : token.kind = .option key value)
    (hg : g.current = some segment) :
    g.step policy token =
      if policy = .reject ∧ segment.options.contains key = true then
        .error ⟨.repeatedKey key segment.name, token.text, token.offset⟩
      else
        .ok { g with
          current := some { segment with options := segment.options.insert key value } } := by
  simp only [step, hk, hg, Segment.addOption, Bool.and_eq_true, decide_eq_true_eq,
    and_comm (b := policy = .reject)]
  split <;> rfl

/-- What a step of the loop does. -/
theorem step_inversion (h : g.step policy token = .ok g') :
    (∃ name, token.kind = .name name ∧ g' = { g with current := some ⟨name, .empty⟩ }) ∨
      (∃ key value segment, token.kind = .option key value ∧ g.current = some segment ∧
        ¬(policy = .reject ∧ segment.options.contains key = true) ∧
        g' = { g with
          current := some { segment with options := segment.options.insert key value } }) ∨
      ∃ segment, token.kind = .pipe ∧ g.current = some segment ∧
        g' = ⟨g.closed ++ [segment], none, some token⟩ := by
  cases hk : token.kind with
  | name name =>
    simp only [step, hk] at h
    cases h
    exact .inl ⟨name, rfl, rfl⟩
  | option key value =>
    cases hg : g.current with
    | none => simp only [step, hk, hg] at h; cases h
    | some segment =>
      rw [step_option hk hg] at h
      split at h
      · cases h
      · next hr =>
        cases h
        exact .inr (.inl ⟨key, value, segment, rfl, rfl, hr, rfl⟩)
  | pipe =>
    cases hg : g.current with
    | none => simp only [step, hk, hg] at h; cases h
    | some segment =>
      simp only [step, hk, hg] at h
      cases h
      exact .inr (.inr ⟨segment, rfl, rfl, rfl⟩)

/-- Why a step of the loop fails. The error shows the token. -/
theorem step_error (h : g.step policy token = .error e) :
    (e.fragment = token.text ∧ e.offset = token.offset) ∧
      ((e.cause = .strayOption ∧ g.current = none ∧ ∃ key value, token.kind = .option key value) ∨
        (e.cause = .noModuleBefore ∧ g.current = none ∧ token.kind = .pipe) ∨
        ∃ key value segment, e.cause = .repeatedKey key segment.name ∧
          token.kind = .option key value ∧ g.current = some segment ∧ policy = .reject ∧
          segment.options.contains key = true) := by
  cases hk : token.kind with
  | name name => simp only [step, hk] at h; cases h
  | option key value =>
    cases hg : g.current with
    | none =>
      simp only [step, hk, hg] at h
      cases h
      exact ⟨⟨rfl, rfl⟩, .inl ⟨rfl, rfl, key, value, rfl⟩⟩
    | some segment =>
      rw [step_option hk hg] at h
      split at h
      · next hr =>
        cases h
        exact ⟨⟨rfl, rfl⟩, .inr (.inr ⟨key, value, segment, rfl, rfl, rfl, hr.1, hr.2⟩)⟩
      · cases h
  | pipe =>
    cases hg : g.current with
    | none =>
      simp only [step, hk, hg] at h
      cases h
      exact ⟨⟨rfl, rfl⟩, .inr (.inl ⟨rfl, rfl, rfl⟩)⟩
    | some segment => simp only [step, hk, hg] at h; cases h

/-- Without an open segment the loop ends well only if it passed no separator. -/
theorem finish_error (h : g.finish = .error e) :
    g.current = none ∧ ∃ pipe, g.lastPipe = some pipe ∧
      e = ⟨.noModuleAfter, pipe.text, pipe.offset⟩ := by
  obtain ⟨closed, current, lastPipe⟩ := g
  cases current with
  | some segment => cases h
  | none =>
    cases lastPipe with
    | none => cases h
    | some pipe =>
      cases h
      exact ⟨rfl, pipe, rfl, rfl⟩

/-- Grouping the tokens behind a state runs the loop to its end. -/
theorem groupTokens_eq (policy : RepeatPolicy) (g : GroupingState) (tokens : List Token) :
    (groupTokens policy g.current g.lastPipe tokens).map (g.closed ++ ·) =
      tokens.foldlM (step policy) g >>= finish := by
  induction tokens generalizing g with
  | nil =>
    obtain ⟨closed, current, lastPipe⟩ := g
    cases current with
    | some segment => cases lastPipe <;> rfl
    | none =>
      cases lastPipe with
      | some pipe => rfl
      | none => simp [groupTokens, finish, Except.map, bind, Except.bind, pure, Except.pure]
  | cons token tokens ih =>
    obtain ⟨closed, current, lastPipe⟩ := g
    obtain ⟨kind, text, offset⟩ := token
    rw [List.foldlM_cons]
    cases kind with
    | name name =>
      rw [groupTokens_name]
      exact ih ⟨closed, some ⟨name, .empty⟩, lastPipe⟩
    | option key value =>
      cases current with
      | none =>
        rw [groupTokens_stray]
        rfl
      | some segment =>
        by_cases hr : policy = .reject ∧ segment.options.contains key = true
        · rw [groupTokens_repeated hr, step_option rfl rfl, if_pos hr]
          rfl
        · rw [groupTokens_option hr, step_option rfl rfl, if_neg hr]
          exact ih ⟨closed, some { segment with options := segment.options.insert key value },
            lastPipe⟩
    | pipe =>
      cases current with
      | none =>
        rw [groupTokens_pipe_first]
        rfl
      | some segment =>
        rw [groupTokens_pipe]
        have hnext := ih ⟨closed ++ [segment], none, some ⟨.pipe, text, offset⟩⟩
        refine Eq.trans ?_ hnext
        cases groupTokens policy none (some ⟨.pipe, text, offset⟩) tokens with
        | error e => rfl
        | ok later => simp [Except.map]

/-- Grouping a list of tokens runs the loop over it to its end. -/
theorem groupTokens_eq_foldlM (policy : RepeatPolicy) (tokens : List Token) :
    groupTokens policy none none tokens = tokens.foldlM (step policy) initial >>= finish := by
  refine Eq.trans ?_ (groupTokens_eq policy initial tokens)
  change _ = (groupTokens policy none none tokens).map _
  cases groupTokens policy none none tokens <;> rfl

end Steps

section Runs

variable {policy : RepeatPolicy} {g g' g'' : GroupingState} {before after tokens : List Token}
  {token : Token} {e : ParseError}

theorem passes_append :
    g.Passes policy (before ++ after) g'' ↔
      ∃ g', g.Passes policy before g' ∧ g'.Passes policy after g'' := by
  rw [Passes, List.foldlM_append, Except.bind_eq_ok_iff]
  rfl

theorem passes_singleton : g.Passes policy [token] g' ↔ g.step policy token = .ok g' := by
  rw [Passes, List.foldlM_cons, Except.bind_eq_ok_iff]
  simp [pure, Except.pure]

/-- Grouping fails at the first token that the loop does not pass, or at the end
of the tokens. -/
theorem groupTokens_error_cases (h : groupTokens policy none none tokens = .error e) :
    (∃ before token after g, tokens = before ++ token :: after ∧
        initial.Passes policy before g ∧ g.step policy token = .error e) ∨
      ∃ g, initial.Passes policy tokens g ∧ g.finish = .error e := by
  rw [groupTokens_eq_foldlM] at h
  rcases Except.bind_eq_error_iff.mp h with hfold | ⟨g, hpasses, hfinish⟩
  · exact .inl (Except.foldlM_eq_error hfold)
  · exact .inr ⟨g, hpasses, hfinish⟩

end Runs

end GroupingState

end DataPipeline.Definition
