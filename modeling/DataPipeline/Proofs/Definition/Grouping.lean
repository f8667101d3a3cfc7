import DataPipeline.Definition.Segment
import DataPipeline.Proofs.Except

/-!
# Grouping of tokens

Whether grouping succeeds, and with which segments, depends only on what the
tokens say. This is put as a relation between the open segment, what the
tokens say and the segments. An error of grouping always shows one of the
tokens.
-/

namespace DataPipeline.Definition

section Equations

variable {policy : RepeatPolicy} {current : Option Segment} {lastPipe : Option Token}
  {segment : Segment} {name key value text : Text} {offset : Nat} {tokens : List Token}

/-- A name opens a segment, also where one is open. -/
theorem groupTokens_name :
    groupTokens policy current lastPipe (⟨.name name, text, offset⟩ :: tokens) =
      groupTokens policy (some ⟨name, .empty⟩) lastPipe tokens := by
  rw [groupTokens.eq_def]
  cases current <;> cases lastPipe <;> rfl

/-- An option without a segment is an error. -/
theorem groupTokens_stray :
    groupTokens policy none lastPipe (⟨.option key value, text, offset⟩ :: tokens) =
      .error ⟨.strayOption, text, offset⟩ := by
  rw [groupTokens.eq_def]
  cases lastPipe <;> rfl

/-- A repeated key is an error where keys must differ. -/
theorem groupTokens_repeated (h : policy = .reject ∧ segment.options.contains key = true) :
    groupTokens policy (some segment) lastPipe (⟨.option key value, text, offset⟩ :: tokens) =
      .error ⟨.repeatedKey key segment.name, text, offset⟩ := by
  rw [groupTokens.eq_def]
  simp only [Segment.addOption, h.1, h.2, decide_true, Bool.and_self, if_true]
  rfl

/-- An option that is let through joins the open segment. -/
theorem groupTokens_option (h : ¬(policy = .reject ∧ segment.options.contains key = true)) :
    groupTokens policy (some segment) lastPipe (⟨.option key value, text, offset⟩ :: tokens) =
      groupTokens policy (some { segment with options := segment.options.insert key value })
        lastPipe tokens := by
  have hno : ¬(segment.options.contains key && decide (policy = .reject)) = true := by
    rw [Bool.and_eq_true, decide_eq_true_eq]
    exact fun hk => h hk.symm
  rw [groupTokens.eq_def]
  simp only [Segment.addOption, if_neg hno]
  rfl

/-- A separator without a segment before it is an error. -/
theorem groupTokens_pipe_first :
    groupTokens policy none lastPipe (⟨.pipe, text, offset⟩ :: tokens) =
      .error ⟨.noModuleBefore, text, offset⟩ := by
  rw [groupTokens.eq_def]
  cases lastPipe <;> rfl

/-- A separator closes the open segment. -/
theorem groupTokens_pipe :
    groupTokens policy (some segment) lastPipe (⟨.pipe, text, offset⟩ :: tokens) =
      (groupTokens policy none (some ⟨.pipe, text, offset⟩) tokens).map (segment :: ·) := by
  rw [groupTokens.eq_def]
  rfl

end Equations

/-- What the tokens behind a segment make of it: the segments of a successful
grouping, at least one of them. -/
inductive Groups (policy : RepeatPolicy) :
    (current : Option Segment) → List TokenKind → List Segment → Prop
  /-- The end closes the open segment. -/
  | last {segment : Segment} : Groups policy (some segment) [] [segment]
  /-- A name opens a segment. -/
  | name {current : Option Segment} {name : Text} {kinds : List TokenKind}
      {segments : List Segment} (next : Groups policy (some ⟨name, .empty⟩) kinds segments) :
      Groups policy current (.name name :: kinds) segments
  /-- An option joins the open segment, with a new key if keys must differ. -/
  | option {segment : Segment} {key value : Text} {kinds : List TokenKind}
      {segments : List Segment}
      (fresh : policy = .reject → segment.options.contains key = false)
      (next : Groups policy (some { segment with options := segment.options.insert key value })
        kinds segments) :
      Groups policy (some segment) (.option key value :: kinds) segments
  /-- A separator closes the open segment. -/
  | pipe {segment : Segment} {kinds : List TokenKind} {segments : List Segment}
      (next : Groups policy none kinds segments) :
      Groups policy (some segment) (.pipe :: kinds) (segment :: segments)

section Groups

variable {policy : RepeatPolicy} {current : Option Segment} {lastPipe : Option Token}
  {tokens : List Token} {segments : List Segment}

/-- A grouping gives at least one segment. -/
theorem Groups.ne_nil {kinds : List TokenKind} (h : Groups policy current kinds segments) :
    segments ≠ [] := by
  induction h with
  | last => exact List.cons_ne_nil _ _
  | name _ ih => exact ih
  | option _ _ ih => exact ih
  | pipe _ _ => exact List.cons_ne_nil _ _

/-- Induction along a grouping: what holds of each end and each error, and is
passed on from behind a token, holds of every grouping. -/
theorem grouping_induction (policy : RepeatPolicy)
    {P : Option Segment → Option Token → List Token → Prop}
    (close : ∀ segment lastPipe, P (some segment) lastPipe [])
    (dangling : ∀ pipe, P none (some pipe) [])
    (empty : P none none [])
    (name : ∀ current lastPipe name text offset tokens, P (some ⟨name, .empty⟩) lastPipe tokens →
      P current lastPipe (⟨.name name, text, offset⟩ :: tokens))
    (stray : ∀ lastPipe key value text offset tokens,
      P none lastPipe (⟨.option key value, text, offset⟩ :: tokens))
    (repeated : ∀ segment lastPipe key value text offset tokens,
      policy = .reject ∧ segment.options.contains key = true →
      P (some segment) lastPipe (⟨.option key value, text, offset⟩ :: tokens))
    (option : ∀ segment lastPipe key value text offset tokens,
      ¬(policy = .reject ∧ segment.options.contains key = true) →
      P (some { segment with options := segment.options.insert key value }) lastPipe tokens →
      P (some segment) lastPipe (⟨.option key value, text, offset⟩ :: tokens))
    (first : ∀ lastPipe text offset tokens, P none lastPipe (⟨.pipe, text, offset⟩ :: tokens))
    (pipe : ∀ segment lastPipe text offset tokens, P none (some ⟨.pipe, text, offset⟩) tokens →
      P (some segment) lastPipe (⟨.pipe, text, offset⟩ :: tokens))
    (current : Option Segment) (lastPipe : Option Token) (tokens : List Token) :
    P current lastPipe tokens := by
  induction tokens generalizing current lastPipe with
  | nil =>
    cases current with
    | some segment => exact close segment lastPipe
    | none =>
      cases lastPipe with
      | some pipe => exact dangling pipe
      | none => exact empty
  | cons token tokens ih =>
    rcases token with ⟨kind, text, offset⟩
    cases kind with
    | name n => exact name current lastPipe n text offset tokens (ih _ _)
    | option key value =>
      cases current with
      | none => exact stray lastPipe key value text offset tokens
      | some segment =>
        by_cases hr : policy = .reject ∧ segment.options.contains key = true
        · exact repeated segment lastPipe key value text offset tokens hr
        · exact option segment lastPipe key value text offset tokens hr (ih _ _)
    | pipe =>
      cases current with
      | none => exact first lastPipe text offset tokens
      | some segment => exact pipe segment lastPipe text offset tokens (ih _ _)

/-- Behind a separator there is a segment, or grouping fails. -/
theorem groupTokens_ne_nil {segments : List Segment}
    (hopen : current ≠ none ∨ lastPipe ≠ none ∨ tokens ≠ [])
    (h : groupTokens policy current lastPipe tokens = .ok segments) : segments ≠ [] := by
  induction current, lastPipe, tokens using grouping_induction policy
    generalizing segments with
  | close segment lastPipe => rw [groupTokens] at h; cases h; exact List.cons_ne_nil _ _
  | dangling pipe => rw [groupTokens] at h; cases h
  | empty => simp at hopen
  | name current lastPipe name text offset tokens ih =>
    rw [groupTokens_name] at h
    exact ih (.inl (Option.some_ne_none _)) h
  | stray => rw [groupTokens_stray] at h; cases h
  | repeated segment lastPipe key value text offset tokens hr =>
    rw [groupTokens_repeated hr] at h
    cases h
  | option segment lastPipe key value text offset tokens hr ih =>
    rw [groupTokens_option hr] at h
    exact ih (.inl (Option.some_ne_none _)) h
  | first => rw [groupTokens_pipe_first] at h; cases h
  | pipe segment lastPipe text offset tokens ih =>
    rw [groupTokens_pipe] at h
    obtain ⟨later, -, rfl⟩ := Except.map_eq_ok_iff.mp h
    exact List.cons_ne_nil _ _

/-- A successful grouping with a segment follows the relation. -/
theorem groups_of_groupTokens {segments : List Segment}
    (h : groupTokens policy current lastPipe tokens = .ok segments) (hne : segments ≠ []) :
    Groups policy current (tokens.map Token.kind) segments := by
  induction current, lastPipe, tokens using grouping_induction policy
    generalizing segments with
  | close segment lastPipe => rw [groupTokens] at h; cases h; exact .last
  | dangling pipe => rw [groupTokens] at h; cases h
  | empty => rw [groupTokens] at h; cases h; exact absurd rfl hne
  | name current lastPipe name text offset tokens ih =>
    rw [groupTokens_name] at h
    exact .name (ih h hne)
  | stray => rw [groupTokens_stray] at h; cases h
  | repeated segment lastPipe key value text offset tokens hr =>
    rw [groupTokens_repeated hr] at h
    cases h
  | option segment lastPipe key value text offset tokens hr ih =>
    rw [groupTokens_option hr] at h
    exact .option (fun hp => Bool.eq_false_iff.mpr fun hk => hr ⟨hp, hk⟩) (ih h hne)
  | first => rw [groupTokens_pipe_first] at h; cases h
  | pipe segment lastPipe text offset tokens ih =>
    rw [groupTokens_pipe] at h
    obtain ⟨later, hrun, rfl⟩ := Except.map_eq_ok_iff.mp h
    exact .pipe (ih hrun (groupTokens_ne_nil (.inr (.inl (Option.some_ne_none _))) hrun))

/-- What the relation gives is the outcome of the grouping. -/
theorem groupTokens_of_groups {kinds : List TokenKind} {segments : List Segment}
    (h : Groups policy current kinds segments) (hk : tokens.map Token.kind = kinds) :
    groupTokens policy current lastPipe tokens = .ok segments := by
  induction h generalizing tokens lastPipe with
  | last =>
    rw [List.map_eq_nil_iff.mp hk, groupTokens]
  | name next ih =>
    obtain ⟨⟨kind, text, offset⟩, later, rfl, rfl, hl⟩ := List.map_eq_cons_iff.mp hk
    rw [groupTokens_name, ih hl]
  | option fresh next ih =>
    obtain ⟨⟨kind, text, offset⟩, later, rfl, rfl, hl⟩ := List.map_eq_cons_iff.mp hk
    rw [groupTokens_option fun hr => Bool.false_ne_true ((fresh hr.1).symm.trans hr.2), ih hl]
  | pipe next ih =>
    obtain ⟨⟨kind, text, offset⟩, later, rfl, rfl, hl⟩ := List.map_eq_cons_iff.mp hk
    rw [groupTokens_pipe, ih hl]
    rfl

/-- Grouping gives a segment and more exactly when the relation does. -/
theorem groupTokens_eq_ok_iff {segments : List Segment} :
    groupTokens policy current lastPipe tokens = .ok segments ∧ segments ≠ [] ↔
      Groups policy current (tokens.map Token.kind) segments :=
  ⟨fun h => groups_of_groupTokens h.1 h.2, fun h => ⟨groupTokens_of_groups h rfl, h.ne_nil⟩⟩

/-- An error of grouping shows a token, at its place, and is none of the name
of the pipeline. -/
theorem groupTokens_error {e : ParseError}
    (h : groupTokens policy current lastPipe tokens = .error e) :
    ∃ token ∈ lastPipe.toList ++ tokens,
      e.fragment = token.text ∧ e.offset = token.offset ∧ e.cause ≠ .blankName := by
  induction current, lastPipe, tokens using grouping_induction policy with
  | close => rw [groupTokens] at h; cases h
  | dangling pipe =>
    rw [groupTokens] at h
    cases h
    exact ⟨pipe, by simp, rfl, rfl, by simp⟩
  | empty => rw [groupTokens] at h; cases h
  | name current lastPipe name text offset tokens ih =>
    rw [groupTokens_name] at h
    obtain ⟨token, hm, he⟩ := ih h
    refine ⟨token, ?_, he⟩
    rw [List.mem_append] at hm ⊢
    exact hm.imp_right (List.mem_cons_of_mem _)
  | stray lastPipe key value text offset tokens =>
    rw [groupTokens_stray] at h
    cases h
    exact ⟨_, List.mem_append_right _ List.mem_cons_self, rfl, rfl, by simp⟩
  | repeated segment lastPipe key value text offset tokens hr =>
    rw [groupTokens_repeated hr] at h
    cases h
    exact ⟨_, List.mem_append_right _ List.mem_cons_self, rfl, rfl, by simp⟩
  | option segment lastPipe key value text offset tokens hr ih =>
    rw [groupTokens_option hr] at h
    obtain ⟨token, hm, he⟩ := ih h
    refine ⟨token, ?_, he⟩
    rw [List.mem_append] at hm ⊢
    exact hm.imp_right (List.mem_cons_of_mem _)
  | first lastPipe text offset tokens =>
    rw [groupTokens_pipe_first] at h
    cases h
    exact ⟨_, List.mem_append_right _ List.mem_cons_self, rfl, rfl, by simp⟩
  | pipe segment lastPipe text offset tokens ih =>
    rw [groupTokens_pipe] at h
    obtain ⟨token, hm, he⟩ := ih (Except.map_eq_error_iff.mp h)
    refine ⟨token, List.mem_append_right _ ?_, he⟩
    simpa using hm

end Groups

section Separator

variable {policy : RepeatPolicy} {current : Option Segment} {before after : List TokenKind}
  {segments : List Segment}

/-- Tokens on both sides of a separator are grouped on their own. -/
theorem groups_append_pipe :
    Groups policy current (before ++ .pipe :: after) segments ↔
      ∃ earlier later, segments = earlier ++ later ∧
        Groups policy current before earlier ∧ Groups policy none after later := by
  constructor
  · intro h
    induction before generalizing current segments with
    | nil =>
      cases h with
      | pipe next => exact ⟨_, _, List.singleton_append.symm, .last, next⟩
    | cons kind before ih =>
      cases h with
      | name next =>
        obtain ⟨earlier, later, rfl, he, hl⟩ := ih next
        exact ⟨earlier, later, rfl, .name he, hl⟩
      | option fresh next =>
        obtain ⟨earlier, later, rfl, he, hl⟩ := ih next
        exact ⟨earlier, later, rfl, .option fresh he, hl⟩
      | pipe next =>
        obtain ⟨earlier, later, rfl, he, hl⟩ := ih next
        exact ⟨_ :: earlier, later, (List.cons_append).symm, .pipe he, hl⟩
  · rintro ⟨earlier, later, rfl, he, hl⟩
    induction he with
    | last => exact .pipe hl
    | name next ih => exact .name ih
    | option fresh next ih => exact .option fresh ih
    | pipe next ih => exact .pipe ih

end Separator

end DataPipeline.Definition
