import DataPipeline.Proofs.Definition.Lexeme
import DataPipeline.Proofs.Except

/-!
# Runs of the lexer

One step of the lexer passes a blank, stops at a fault or takes one token, and
the run is the repetition of such steps. From the steps follows a relation
between texts and their tokens that holds exactly when the run succeeds.
-/

namespace DataPipeline.Definition

open Text

section Steps

variable {d : Dialect} {nameDue : Bool} {offset : Nat} {c : Char} {t : Text}

/-- One step, without the proofs that the recursion carries. -/
theorem tokensFrom_eq (d : Dialect) (nameDue : Bool) (offset : Nat) (t : Text) :
    tokensFrom d nameDue offset t =
      match t.dropWhile isAsciiBlank with
      | [] => .ok []
      | c :: rest =>
        match lexToken d nameDue (c :: rest) with
        | .error fault =>
          .error ⟨fault.cause, fault.fragment, offset + (t.takeWhile isAsciiBlank).length⟩
        | .ok l =>
          (tokensFrom d (l.kind = .pipe)
            (offset + (t.takeWhile isAsciiBlank).length + l.text.length)
            ((c :: rest).drop l.text.length)).map fun tokens =>
              ⟨l.kind, l.text, offset + (t.takeWhile isAsciiBlank).length⟩ :: tokens := by
  rw [tokensFrom]
  split
  · next h => rw [h]
  · next c rest h =>
    rw [h]
    dsimp only
    split
    · next hl => rw [hl]
    · next hl => rw [hl]; rfl

/-- At the end of the text there are no more tokens. -/
theorem tokensFrom_nil : tokensFrom d nameDue offset [] = .ok [] := by
  rw [tokensFrom_eq]
  rfl

/-- A blank is passed and counted. -/
theorem tokensFrom_blank (hc : isAsciiBlank c = true) :
    tokensFrom d nameDue offset (c :: t) = tokensFrom d nameDue (offset + 1) t := by
  have hlen : offset + (1 + (t.takeWhile isAsciiBlank).length) =
      offset + 1 + (t.takeWhile isAsciiBlank).length := by omega
  rw [tokensFrom_eq, tokensFrom_eq d nameDue (offset + 1), List.dropWhile_cons_of_pos hc,
    List.takeWhile_cons_of_pos hc, List.length_cons, Nat.add_comm _ 1, hlen]

/-- A run of blanks is passed and counted. -/
theorem tokensFrom_blanks {gap : Text} (h : ∀ c ∈ gap, isAsciiBlank c = true) :
    tokensFrom d nameDue offset (gap ++ t) = tokensFrom d nameDue (offset + gap.length) t := by
  induction gap generalizing offset with
  | nil => rfl
  | cons b gap ih =>
    rw [List.cons_append, tokensFrom_blank (h b List.mem_cons_self),
      ih fun c hc => h c (List.mem_cons_of_mem _ hc), List.length_cons]
    congr 1
    omega

/-- A fault ends the run at its place. -/
theorem tokensFrom_fault {f : Fault} (hc : isAsciiBlank c = false)
    (h : lexToken d nameDue (c :: t) = .error f) :
    tokensFrom d nameDue offset (c :: t) = .error ⟨f.cause, f.fragment, offset⟩ := by
  have hb : ¬isAsciiBlank c = true := by rw [hc]; exact Bool.false_ne_true
  rw [tokensFrom_eq, List.dropWhile_cons_of_neg hb, List.takeWhile_cons_of_neg hb]
  dsimp only
  rw [h]
  rfl

/-- A token is taken with its place, and the run goes on behind it. -/
theorem tokensFrom_token {l : Lexeme} {rest : Text} (hc : isAsciiBlank c = false)
    (ht : c :: t = l.text ++ rest) (h : lexToken d nameDue (c :: t) = .ok l) :
    tokensFrom d nameDue offset (c :: t) =
      (tokensFrom d (l.kind = .pipe) (offset + l.text.length) rest).map
        fun tokens => ⟨l.kind, l.text, offset⟩ :: tokens := by
  have hb : ¬isAsciiBlank c = true := by rw [hc]; exact Bool.false_ne_true
  have hdrop : (c :: t).drop l.text.length = rest := by rw [ht, List.drop_left]
  rw [tokensFrom_eq, List.dropWhile_cons_of_neg hb, List.takeWhile_cons_of_neg hb]
  dsimp only
  rw [h]
  dsimp only
  rw [hdrop]
  rfl

end Steps

/-- Induction along a run: what holds of the end, and is passed on from behind
a blank, a fault or a token, holds of every text. -/
theorem run_induction {d : Dialect} {P : Bool → Nat → Text → Prop}
    (done : ∀ nameDue offset, P nameDue offset [])
    (blank : ∀ nameDue offset c t, isAsciiBlank c = true →
      P nameDue (offset + 1) t → P nameDue offset (c :: t))
    (fault : ∀ nameDue offset c t f, isAsciiBlank c = false →
      lexToken d nameDue (c :: t) = .error f → P nameDue offset (c :: t))
    (token : ∀ nameDue offset c t l rest, isAsciiBlank c = false →
      lexToken d nameDue (c :: t) = .ok l → c :: t = l.text ++ rest → Stands d nameDue l rest →
      P (l.kind = .pipe) (offset + l.text.length) rest → P nameDue offset (c :: t))
    (nameDue : Bool) (offset : Nat) (t : Text) : P nameDue offset t := by
  induction hn : t.length using Nat.strong_induction_on generalizing nameDue offset t with
  | _ n ih =>
    cases t with
    | nil => exact done nameDue offset
    | cons c t =>
      cases hc : isAsciiBlank c with
      | true =>
        exact blank nameDue offset c t hc
          (ih t.length (by rw [←hn, List.length_cons]; omega) _ _ t rfl)
      | false =>
        cases hl : lexToken d nameDue (c :: t) with
        | error f => exact fault nameDue offset c t f hc hl
        | ok l =>
          obtain ⟨rest, ht, hstands⟩ := stands_of_lexToken hl
          have hpos := List.length_pos_iff.mpr (lexToken_text_ne_nil hl)
          have hlen := congrArg List.length ht
          rw [List.length_append] at hlen
          exact token nameDue offset c t l rest hc hl ht hstands
            (ih rest.length (by omega) _ _ rest rfl)

/-- The fault that ends a run shows at least one character, at its place. -/
theorem tokensFrom_error {d : Dialect} {nameDue : Bool} {offset : Nat} {t : Text} {e : ParseError}
    (h : tokensFrom d nameDue offset t = .error e) :
    e.cause.isLexical = true ∧ e.fragment ≠ [] ∧
      ∃ before after, t = before ++ e.fragment ++ after ∧ offset + before.length = e.offset := by
  induction nameDue, offset, t using run_induction (d := d) with
  | done => rw [tokensFrom_nil] at h; cases h
  | blank nameDue offset c t hc ih =>
    rw [tokensFrom_blank hc] at h
    obtain ⟨hcause, hne, before, after, ht, hlen⟩ := ih h
    refine ⟨hcause, hne, c :: before, after, by rw [ht]; rfl, ?_⟩
    rw [List.length_cons]
    omega
  | fault nameDue offset c t f hc hf =>
    rw [tokensFrom_fault hc hf] at h
    cases h
    obtain ⟨hcause, hne, after, hafter⟩ := lexToken_fault hc hf
    exact ⟨hcause, hne, [], after, hafter.symm, rfl⟩
  | token nameDue offset c t l rest hc hl ht hstands ih =>
    rw [tokensFrom_token hc ht hl] at h
    obtain ⟨hcause, hne, before, after, hrest, hlen⟩ := ih (Except.map_eq_error_iff.mp h)
    refine ⟨hcause, hne, l.text ++ before, after, ?_, ?_⟩
    · rw [ht, hrest]
      simp only [List.append_assoc]
    · rw [List.length_append]
      omega

/-- The tokens that a text holds from a place on: runs of blanks with tokens
between them, each token standing by the rules before the rest of the text. -/
inductive Lexes (d : Dialect) : (nameDue : Bool) → (offset : Nat) → Text → List Token → Prop
  /-- Blanks may stand at the end. -/
  | done {nameDue : Bool} {offset : Nat} {gap : Text}
      (blank : ∀ c ∈ gap, isAsciiBlank c = true) : Lexes d nameDue offset gap []
  /-- A token stands behind blanks, and tells what is due behind it. -/
  | token {nameDue : Bool} {offset : Nat} {gap rest : Text} {l : Lexeme} {tokens : List Token}
      (blank : ∀ c ∈ gap, isAsciiBlank c = true) (stands : Stands d nameDue l rest)
      (next : Lexes d (l.kind = .pipe) (offset + gap.length + l.text.length) rest tokens) :
      Lexes d nameDue offset (gap ++ (l.text ++ rest))
        (⟨l.kind, l.text, offset + gap.length⟩ :: tokens)

section Lexes

variable {d : Dialect} {nameDue : Bool} {offset : Nat} {t : Text} {tokens : List Token}

/-- No identifier begins with a blank. -/
theorem isBlank_of_isIdentStart {c : Char} (h : isIdentStart c = true) : isBlank c = false := by
  rw [isIdentStart, Bool.or_eq_true, decide_eq_true_eq] at h
  rcases h with h | rfl
  · have hletter := isAlpha_iff.mp h
    simp only [isBlank, Bool.or_eq_false_iff, Bool.and_eq_false_iff, decide_eq_false_iff_not]
    omega
  · decide

/-- What is no blank at all is none between tokens. -/
theorem isAsciiBlank_eq_false {c : Char} (h : isBlank c = false) : isAsciiBlank c = false := by
  cases hc : isAsciiBlank c with
  | false => rfl
  | true => rw [isBlank_of_isAsciiBlank hc] at h; cases h

/-- A token begins with a character that shows. -/
theorem Stands.exists_cons {l : Lexeme} {rest : Text} (h : Stands d nameDue l rest) :
    ∃ c u, l.text = c :: u ∧ isBlank c = false := by
  cases h with
  | pipe => exact ⟨'|', [], rfl, by decide⟩
  | @name name _ ident ends =>
    cases name with
    | nil => exact ident.elim
    | cons c u => exact ⟨c, u, rfl, isBlank_of_isIdentStart (isIdent_cons.mp ident).1⟩
  | option => exact ⟨'-', _, rfl, by decide⟩

/-- What a rule gives is taken with its place. -/
theorem tokensFrom_stands {l : Lexeme} {rest : Text} (h : Stands d nameDue l rest) :
    tokensFrom d nameDue offset (l.text ++ rest) =
      (tokensFrom d (l.kind = .pipe) (offset + l.text.length) rest).map
        fun tokens => ⟨l.kind, l.text, offset⟩ :: tokens := by
  obtain ⟨c, u, htext, hc⟩ := h.exists_cons
  have hl := lexToken_of_stands h
  have ht : l.text ++ rest = c :: (u ++ rest) := by rw [htext, List.cons_append]
  rw [ht] at hl ⊢
  exact tokensFrom_token (isAsciiBlank_eq_false hc) ht.symm hl

/-- A blank in front only moves the tokens. -/
theorem Lexes.blank_cons {c : Char} (hc : isAsciiBlank c = true)
    (h : Lexes d nameDue (offset + 1) t tokens) : Lexes d nameDue offset (c :: t) tokens := by
  have hgap : ∀ {gap : Text}, (∀ b ∈ gap, isAsciiBlank b = true) →
      ∀ b ∈ c :: gap, isAsciiBlank b = true := by
    intro gap hg b hb
    rcases List.mem_cons.mp hb with rfl | hb
    · exact hc
    · exact hg b hb
  cases h with
  | done blank => exact .done (hgap blank)
  | @token _ _ gap rest l tokens blank stands next =>
    have hlen : offset + 1 + gap.length = offset + (c :: gap).length := by
      rw [List.length_cons]
      omega
    rw [hlen] at next ⊢
    exact .token (hgap blank) stands next

/-- A run that succeeds follows the relation. -/
theorem lexes_of_tokensFrom (h : tokensFrom d nameDue offset t = .ok tokens) :
    Lexes d nameDue offset t tokens := by
  have hnone : ∀ b ∈ ([] : Text), isAsciiBlank b = true := List.forall_mem_nil _
  induction nameDue, offset, t using run_induction (d := d) generalizing tokens with
  | done nameDue offset =>
    rw [tokensFrom_nil] at h
    cases h
    exact .done hnone
  | blank nameDue offset c t hc ih =>
    rw [tokensFrom_blank hc] at h
    exact (ih h).blank_cons hc
  | fault nameDue offset c t f hc hf =>
    rw [tokensFrom_fault hc hf] at h
    cases h
  | token nameDue offset c t l rest hc hl ht hstands ih =>
    rw [tokensFrom_token hc ht hl] at h
    obtain ⟨later, hrun, rfl⟩ := Except.map_eq_ok_iff.mp h
    rw [ht]
    exact .token hnone hstands (ih hrun)

/-- What the relation gives is the outcome of the run. -/
theorem tokensFrom_of_lexes (h : Lexes d nameDue offset t tokens) :
    tokensFrom d nameDue offset t = .ok tokens := by
  induction h with
  | @done nameDue offset gap blank =>
    rw [←List.append_nil gap, tokensFrom_blanks blank, tokensFrom_nil]
  | token blank stands next ih =>
    rw [tokensFrom_blanks blank, tokensFrom_stands stands, ih]
    rfl

/-- The lexer succeeds exactly on the texts that hold tokens by the rules, and
then with these tokens. -/
theorem tokensFrom_eq_ok_iff :
    tokensFrom d nameDue offset t = .ok tokens ↔ Lexes d nameDue offset t tokens :=
  ⟨lexes_of_tokensFrom, tokensFrom_of_lexes⟩

/-- Blanks in front of a text only move its tokens. -/
theorem Lexes.blanks {gap : Text} (hg : ∀ c ∈ gap, isAsciiBlank c = true)
    (h : Lexes d nameDue (offset + gap.length) t tokens) :
    Lexes d nameDue offset (gap ++ t) tokens := by
  rw [←tokensFrom_eq_ok_iff] at h ⊢
  rw [tokensFrom_blanks hg, h]

end Lexes

/-- What the tokens of a text say, wherever the text stands. -/
def Says (d : Dialect) (nameDue : Bool) (t : Text) (kinds : List TokenKind) : Prop :=
  ∀ offset, ∃ tokens, Lexes d nameDue offset t tokens ∧ tokens.map Token.kind = kinds

section Says

variable {d : Dialect} {nameDue : Bool} {t : Text} {kinds : List TokenKind}

/-- Blanks say nothing. -/
theorem says_blanks {gap : Text} (hg : ∀ c ∈ gap, isAsciiBlank c = true) :
    Says d nameDue gap [] :=
  fun _ => ⟨[], .done hg, rfl⟩

/-- Blanks in front of a text say nothing more. -/
theorem Says.blanks {gap : Text} (hg : ∀ c ∈ gap, isAsciiBlank c = true)
    (h : Says d nameDue t kinds) : Says d nameDue (gap ++ t) kinds := by
  intro offset
  obtain ⟨tokens, hl, hk⟩ := h (offset + gap.length)
  exact ⟨tokens, hl.blanks hg, hk⟩

/-- A token says what it is, and then the rest goes on. -/
theorem Says.token {l : Lexeme} {rest : Text} (hs : Stands d nameDue l rest)
    (h : Says d (l.kind = .pipe) rest kinds) :
    Says d nameDue (l.text ++ rest) (l.kind :: kinds) := by
  intro offset
  obtain ⟨tokens, hl, hk⟩ := h (offset + l.text.length)
  have hnone : ∀ b ∈ ([] : Text), isAsciiBlank b = true := List.forall_mem_nil _
  exact ⟨_, .token hnone hs hl, by rw [List.map_cons, hk]⟩

/-- What tokens say does not depend on their place. -/
theorem says_of_lexes {offset : Nat} {tokens : List Token} (h : Lexes d nameDue offset t tokens) :
    Says d nameDue t (tokens.map Token.kind) := by
  induction h with
  | done blank => exact says_blanks blank
  | token blank stands next ih => exact (ih.token stands).blanks blank

end Says

end DataPipeline.Definition
