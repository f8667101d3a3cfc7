import DataPipeline.Proofs.Definition.ByteLexerCursor
import DataPipeline.Proofs.Definition.TokenRun

/-!
# Runs of the lexer over bytes

Between two characters every step of the lexer over bytes agrees with the step
over characters, so the whole run gives the same tokens or the same fault, and
it never breaks.
-/

namespace DataPipeline.Definition.ByteLexer

open Text

/-- What the lexer over bytes gives, once the lexer over characters has read
or refused the front of the rest. -/
def placed (before : Text) : Except Fault Lexeme → Except Halt (Token × Cursor)
  | .error f => .error (.fault ⟨f.cause, f.fragment, before.length⟩)
  | .ok l => .ok (⟨l.kind, l.text, before.length⟩, .after (before ++ l.text))

/-- A step that finds its slice goes on with it. -/
theorem orBroken_bind {α β : Type} (a : α) (f : α → Except Halt β) :
    (orBroken (some a) >>= f) = f a := rfl

/-- A step that succeeds goes on with its result. -/
theorem ok_bind {α β : Type} (a : α) (f : α → Except Halt β) : (Except.ok a >>= f) = f a := rfl

section Reading

variable {src before t : Text}

/-- A fault in a word shows the word, wherever in it the cursor is. -/
theorem wordFault_after {α : Type} {passed later : Text} {cause : Cause} (h : src = before ++ t)
    (hp : t = passed ++ later) :
    (faultAt src (.after (before ++ passed)) cause (byteSize before)
      (wordEnd (utf8 src) (byteSize before)) : Except Halt α) =
        .error (.fault ⟨cause, word t, before.length⟩) := by
  have hend : wordEnd (utf8 src) (byteSize before) = byteSize (before ++ word t) := by
    rw [h, wordEnd_append]
  obtain ⟨rest, hrest⟩ := word_prefix t
  have hword : src = before ++ word t ++ rest := by rw [h, List.append_assoc, hrest]
  have hpassed : src = before ++ passed ++ later := by rw [h, hp, List.append_assoc]
  rw [hend, faultAt_after hword hpassed]

/-- A fault of a word shows the word that stands there. -/
theorem wordFault_here {α : Type} {cause : Cause} (h : src = before ++ t) :
    (faultAt src (.after before) cause (byteSize before)
      (wordEnd (utf8 src) (byteSize before)) : Except Halt α) =
        .error (.fault ⟨cause, word t, before.length⟩) := by
  rw [←wordFault_after h (List.nil_append t).symm, List.append_nil]

/-- The byte behind a name tells whether the name may end. -/
theorem endsName_after :
    (utf8 (before ++ t))[byteSize before]?.all (onByte fun c => c = '|' || isAsciiBlank c) =
      endsName t := by
  have hread := reads_onByte (isAscii_or (isAscii_char (a := '|') (by decide)) isAscii_isAsciiBlank)
  rw [←List.head?_drop, drop_utf8]
  cases t with
  | nil => rfl
  | cons c u =>
    obtain ⟨b, bytes, henc⟩ := List.exists_cons_of_ne_nil (utf8EncodeChar_ne_nil c)
    rw [utf8_cons, henc, List.cons_append, List.head?_cons, Option.all_some,
      hread c b (henc ▸ List.mem_cons_self)]
    rfl

/-- The bytes of a name are read as its characters are. -/
theorem readName_after (h : src = before ++ t) :
    readName src (.after before) = placed before (lexName t) := by
  have hstart : byteIs (utf8 src) (onByte isIdentStart) (Cursor.after before).index =
      t.head?.any isIdentStart := by
    rw [h]
    exact byteIs_append (reads_onByte isAscii_isIdentStart)
  rw [readName, hstart, Cursor.after_index]
  cases t with
  | nil =>
    rw [List.head?_nil, Option.any_none, if_neg Bool.false_ne_true, wordFault_here h]
    rfl
  | cons c u =>
    rw [lexName, List.head?_cons, Option.any_some]
    cases hc : isIdentStart c with
    | false =>
      rw [if_neg Bool.false_ne_true, if_neg Bool.false_ne_true, wordFault_here h]
      rfl
    | true =>
      rw [if_pos rfl, if_pos rfl]
      cases hcut : cutName? (c :: u) with
      | none =>
        obtain ⟨name, after, hname, hpass⟩ := @passName_after_none before _ hcut
        rw [←h] at hpass
        rw [hpass]
        dsimp only
        rw [wordFault_after h hname]
        rfl
      | some cut =>
        obtain ⟨name, after⟩ := cut
        have hpass := @passName_after before _ _ _ hcut
        have hname := (cutName?_eq_some hcut).1
        have hsrc : src = before ++ name ++ after := by rw [h, hname, List.append_assoc]
        have hends := @endsName_after (before ++ name) after
        rw [←h] at hpass
        rw [←hsrc] at hends
        rw [hpass]
        dsimp only
        rw [Cursor.after_index, hends]
        cases he : endsName after with
        | false =>
          rw [if_neg Bool.false_ne_true, if_neg Bool.false_ne_true, wordFault_after h hname]
          rfl
        | true =>
          have hcut : textBetween? src (byteSize before) (byteSize (before ++ name)) =
              some name := by
            rw [hsrc, textBetween?_append]
          rw [if_pos rfl, if_pos rfl, hcut, orBroken_bind, tokenAt_after hsrc]
          rfl

/-- From the `=` of an option on, the value decides. -/
theorem readValue_after {d : Dialect} {key value : Text}
    (h : src = before ++ ('-' :: '-' :: key) ++ '=' :: value) :
    readValue d src (byteSize before) key (.after (before ++ '-' :: '-' :: key)) =
      placed before (if trimEnd (rawValue value) = [] ∧ d.allowEmptyValues = false then
          .error ⟨.noValue key, optionText key (rawValue value)⟩
        else .ok ⟨.option key (trimEnd (rawValue value)), optionText key (rawValue value)⟩) := by
  have hstart : advance (utf8 src) (.after (before ++ '-' :: '-' :: key)) =
      .after (before ++ ('-' :: '-' :: key) ++ ['=']) := by
    rw [h]
    exact advance_after (by decide)
  have hfront : before ++ ('-' :: '-' :: key) ++ ['='] ++ rawValue value =
      before ++ optionText key (rawValue value) := by
    simp only [optionText, List.append_assoc, List.cons_append, List.nil_append]
  have hstop : valueEnd (utf8 src) (byteSize (before ++ ('-' :: '-' :: key) ++ ['='])) =
      byteSize (before ++ ('-' :: '-' :: key) ++ ['='] ++ rawValue value) := by
    rw [h, List.append_cons, valueEnd_append]
  obtain ⟨rest, hvalue, -⟩ := exists_append_rawValue value
  have hraw : src = before ++ ('-' :: '-' :: key) ++ ['='] ++ rawValue value ++ rest := by
    rw [List.append_assoc _ (rawValue value), ←hvalue, h, List.append_cons]
  have htext : src = before ++ optionText key (rawValue value) ++ rest := by rw [←hfront, ←hraw]
  have hcut : textBetween? src (byteSize (before ++ ('-' :: '-' :: key) ++ ['=']))
      (byteSize (before ++ ('-' :: '-' :: key) ++ ['='] ++ rawValue value)) =
        some (rawValue value) := by
    rw [hraw, textBetween?_append]
  rw [readValue, hstart, Cursor.after_index, hstop, seek_after hraw, ok_bind, Cursor.after_index,
    hcut, orBroken_bind, hfront, faultAt_after htext htext, tokenAt_after htext]
  by_cases hempty : trimEnd (rawValue value) = [] ∧ d.allowEmptyValues = false
  · rw [if_pos hempty, hempty.2, decide_eq_true hempty.1]
    rfl
  · have htest : ¬(decide (trimEnd (rawValue value) = []) && !d.allowEmptyValues) = true := by
      rw [Bool.and_eq_true, decide_eq_true_eq, Bool.not_eq_true']
      exact hempty
    rw [if_neg hempty, if_neg htest]
    rfl

/-- The key of an option is passed. -/
theorem keyEnd_after :
    (if byteIs (utf8 (before ++ t)) (onByte isIdentStart) (byteSize before) then
      advanceWhile (utf8 (before ++ t)) (onByte isIdentChar) (.after before)
    else .after before) = .after (before ++ leadingIdent t) := by
  rw [byteIs_append (reads_onByte isAscii_isIdentStart), advanceWhile_after isAscii_isIdentChar]
  cases t with
  | nil => rw [leadingIdent, List.append_nil]; rfl
  | cons c u =>
    rw [leadingIdent, List.head?_cons, Option.any_some]
    split
    · rfl
    · rw [List.append_nil]

/-- The bytes of an option are read as its characters are. -/
theorem readOption_after {d : Dialect} (h : src = before ++ t) (ht : startsOption t = true) :
    readOption d src (.after before) = placed before (lexOption d t) := by
  obtain ⟨u, rfl⟩ := startsOption_iff.mp ht
  have hsrc : src = before ++ ['-', '-'] ++ u := by rw [h, List.append_assoc]; rfl
  have hsize : byteSize before + 2 = byteSize (before ++ ['-', '-']) := by
    rw [byteSize_append]
    rfl
  have hkey := leadingIdent_append_drop u
  have hpart : src = before ++ ['-', '-'] ++ leadingIdent u ++ u.drop (leadingIdent u).length := by
    rw [List.append_assoc _ (leadingIdent u), hkey, hsrc]
  have hend := @keyEnd_after (before ++ ['-', '-']) u
  have hcut : textBetween? src (byteSize (before ++ ['-', '-']))
      (byteSize (before ++ ['-', '-'] ++ leadingIdent u)) = some (leadingIdent u) := by
    rw [hpart, textBetween?_append]
  have hequals := @byteIs_char (before ++ ['-', '-'] ++ leadingIdent u)
    (u.drop (leadingIdent u).length) '=' (by decide)
  rw [←hsrc] at hend
  rw [←hpart] at hequals
  have hpassed : '-' :: '-' :: u =
      ('-' :: '-' :: leadingIdent u) ++ u.drop (leadingIdent u).length := by
    rw [List.cons_append, List.cons_append, hkey]
  have hjoin : before ++ ['-', '-'] ++ leadingIdent u = before ++ '-' :: '-' :: leadingIdent u := by
    rw [List.append_assoc]
    rfl
  have hsame : byteSize (before ++ ['-', '-']) = byteSize (before ++ ['-', '-'] ++ leadingIdent u) ↔
      leadingIdent u = [] := by
    rw [byteSize_append (before ++ ['-', '-']), ←byteSize_eq_zero]
    omega
  rw [readOption, Cursor.after_index, hsize, seek_after hsrc, ok_bind, Cursor.after_index, hend]
  dsimp only
  rw [Cursor.after_index, hcut, orBroken_bind, hequals, hjoin, wordFault_after h hpassed,
    wordFault_after h hpassed]
  rw [hjoin] at hsame
  by_cases hnone : leadingIdent u = []
  · rw [if_pos (hsame.mpr hnone), lexOption_no_key hnone]
    rfl
  · rw [if_neg fun heq => hnone (hsame.mp heq)]
    by_cases he : (u.drop (leadingIdent u).length).head? = some '='
    · obtain ⟨value, hvalue⟩ := List.head?_eq_some_iff.mp he
      have hv : src = before ++ ('-' :: '-' :: leadingIdent u) ++ '=' :: value := by
        rw [←hjoin, ←hvalue, ←hpart]
      rw [if_pos (decide_eq_true he), readValue_after hv, lexOption_equals hnone hvalue]
    · rw [if_neg fun htrue => he (of_decide_eq_true htrue), lexOption_no_equals hnone he]
      rfl

end Reading

section Steps

variable {d : Dialect} {nameDue : Bool} {src before t : Text} {c : Char}

/-- At the end of the bytes there is no token. -/
theorem nextToken_end : nextToken d before nameDue (.after before) = .ok none := by
  have hskip := @advanceWhile_after before [] isAsciiBlank isAscii_isAsciiBlank
  rw [List.takeWhile_nil, List.append_nil] at hskip
  have hend : ¬(Cursor.after before).index < (utf8 before).length := by
    rw [length_utf8]
    exact Nat.lt_irrefl _
  rw [nextToken, hskip]
  exact if_neg hend

/-- A blank at the cursor is skipped. -/
theorem nextToken_blank (h : src = before ++ c :: t) (hc : isAsciiBlank c = true) :
    nextToken d src nameDue (.after before) = nextToken d src nameDue (.after (before ++ [c])) := by
  have hb : byteIs (utf8 src) (onByte isAsciiBlank) (Cursor.after before).index = true := by
    rw [h, Cursor.after_index, byteIs_append (reads_onByte isAscii_isAsciiBlank)]
    exact hc
  have hstep : advance (utf8 src) (.after before) = .after (before ++ [c]) := by
    rw [h, advance_after (isAscii_isAsciiBlank c hc)]
  rw [nextToken, advanceWhile, if_pos hb, hstep]
  rfl

/-- At any other character the next token is the one over characters. -/
theorem nextToken_after (h : src = before ++ c :: t) (hc : isAsciiBlank c = false) :
    nextToken d src nameDue (.after before) =
      (placed before (lexToken d nameDue (c :: t))).map
        fun (token, q) => some (token, q, decide (token.kind = .pipe)) := by
  have hskip : advanceWhile (utf8 src) (onByte isAsciiBlank) (.after before) = .after before := by
    rw [h, advanceWhile_after isAscii_isAsciiBlank,
      List.takeWhile_cons_of_neg (by rw [hc]; exact Bool.false_ne_true), List.append_nil]
  have hlt : byteSize before < (utf8 src).length := by
    rw [h]
    exact lt_length_utf8
  have hpipe : byteIs (utf8 src) (onByte fun c => c = '|') (byteSize before) =
      decide ((c :: t).head? = some '|') := by
    rw [h, byteIs_char (by decide)]
  have hmark : markAt (utf8 src) (byteSize before) = startsOption (c :: t) := by
    rw [h, markAt_append]
  rw [nextToken, hskip]
  dsimp only
  rw [Cursor.after_index, if_pos hlt, hpipe, hmark, lexToken]
  by_cases hp : (c :: t).head? = some '|'
  · obtain rfl : c = '|' := Option.some.inj hp
    have hpart : src = before ++ ['|'] ++ t := by rw [h, List.append_cons]
    have hstep : advance (utf8 src) (.after before) = .after (before ++ ['|']) := by
      rw [h, advance_after (by decide)]
    have hsize : byteSize before + 1 = byteSize (before ++ ['|']) :=
      (byteSize_concat (by decide)).symm
    rw [if_pos hp, if_pos (decide_eq_true hp), hsize, faultAt_here hpart, hstep,
      tokenAt_after hpart]
    cases d.singleModule with
    | true => rfl
    | false => rfl
  · rw [if_neg hp, if_neg fun htrue => hp (of_decide_eq_true htrue)]
    cases ho : startsOption (c :: t) with
    | true =>
      cases nameDue with
      | true => exact wordFault_here h
      | false =>
        change (readOption d src (.after before) >>=
          fun (token, q) => .ok (some (token, q, false))) =
          (placed before (lexOption d (c :: t))).map _
        rw [readOption_after h ho]
        cases hl : lexOption d (c :: t) with
        | error f => rfl
        | ok l =>
          obtain ⟨key, raw, rest, rfl, -⟩ := lexOption_inversion ho hl
          rfl
    | false =>
      cases nameDue with
      | true =>
        change (readName src (.after before) >>= fun (token, q) => .ok (some (token, q, false))) =
          (placed before (lexName (c :: t))).map _
        rw [readName_after h]
        cases hl : lexName (c :: t) with
        | error f => rfl
        | ok l =>
          obtain ⟨name, rest, rfl, -⟩ := lexName_inversion hl
          rfl
      | false => exact wordFault_here h

end Steps

section Runs

variable {d : Dialect} {nameDue : Bool} {src : Text} {p q : Cursor}

/-- A run depends on its place only through the next token. -/
theorem Runs.of_nextToken_eq {outcome : Except Halt (List Token)}
    (h : nextToken d src nameDue p = nextToken d src nameDue q)
    (hq : Runs d src nameDue q outcome) :
    Runs d src nameDue p outcome := by
  cases hq with
  | done next => exact .done (h.trans next)
  | halt next => exact .halt (h.trans next)
  | token next later => exact .token (h.trans next) later

/-- A run has one end. -/
theorem Runs.eq {first second : Except Halt (List Token)} (h : Runs d src nameDue p first)
    (h' : Runs d src nameDue p second) : first = second := by
  induction h generalizing second with
  | done next =>
    cases h' with
    | done => rfl
    | halt next' => rw [next] at next'; cases next'
    | token next' => rw [next] at next'; cases next'
  | halt next =>
    cases h' with
    | done next' => rw [next] at next'; cases next'
    | halt next' => rw [next] at next'; cases next'; rfl
    | token next' => rw [next] at next'; cases next'
  | token next later ih =>
    cases h' with
    | done next' => rw [next] at next'; cases next'
    | halt next' => rw [next] at next'; cases next'
    | token next' later' =>
      rw [next] at next'
      cases next'
      rw [ih later']

/-- From a cursor between two characters, the run over bytes ends as the run
over characters does. -/
theorem runs_after {before t : Text} (h : src = before ++ t) :
    Runs d src nameDue (.after before)
      ((tokensFrom d nameDue before.length t).mapError .fault) := by
  -- The induction follows the run over characters, which knows the offset only
  -- as a number, so the length of `before` is named first.
  obtain ⟨offset, hoffset⟩ : ∃ offset, offset = before.length := ⟨_, rfl⟩
  rw [←hoffset]
  induction nameDue, offset, t using run_induction (d := d) generalizing before with
  | done nameDue offset =>
    rw [List.append_nil] at h
    rw [tokensFrom_nil, h]
    exact .done nextToken_end
  | blank nameDue offset c t hc ih =>
    have hlen : offset + 1 = (before ++ [c]).length := by
      rw [List.length_append, List.length_singleton, hoffset]
    rw [tokensFrom_blank hc]
    exact (ih (by rw [h, List.append_cons]) hlen).of_nextToken_eq (nextToken_blank h hc)
  | fault nameDue offset c t f hc hf =>
    have hnext := @nextToken_after d nameDue _ _ _ _ h hc
    rw [hf] at hnext
    rw [tokensFrom_fault hc hf, hoffset]
    exact .halt hnext
  | token nameDue offset c t l rest hc hl ht hstands ih =>
    have hnext := @nextToken_after d nameDue _ _ _ _ h hc
    rw [hl] at hnext
    have hlen : offset + l.text.length = (before ++ l.text).length := by
      rw [List.length_append, hoffset]
    have hrun := Runs.token hnext (ih (by rw [h, ht, List.append_assoc]) hlen)
    rw [tokensFrom_token hc ht hl]
    cases hlater : tokensFrom d (l.kind = .pipe) (offset + l.text.length) rest with
    | error e => rw [hlater] at hrun; exact hrun
    | ok tokens => rw [hlater, ←hoffset] at hrun; exact hrun

/-- Over the bytes of any text the lexer ends with the tokens of the text or
with its first fault, and with nothing else. So none of its slices falls
inside a character, and no count goes wrong. -/
theorem runs_iff {t : Text} {outcome : Except Halt (List Token)} :
    Runs d t true ⟨0, 0⟩ outcome ↔ outcome = (tokenize d t).mapError .fault := by
  have hrun : Runs d t true ⟨0, 0⟩ ((tokenize d t).mapError .fault) := @runs_after d true t [] t rfl
  constructor
  · intro h
    exact h.eq hrun
  · rintro rfl
    exact hrun

end Runs

end DataPipeline.Definition.ByteLexer
