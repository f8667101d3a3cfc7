import DataPipeline.Proofs.Definition.ByteLexerScan

/-!
# The cursor of the lexer over bytes

The cursor of the lexer over bytes always stands between two characters and
counts the characters before it. From such a place every move leads to another
one, every slice is a part of the text, and counting back from the cursor
gives the characters before that part.
-/

namespace DataPipeline.Definition.ByteLexer

open Text

/-- The cursor behind a part of the text. -/
def Cursor.after (before : Text) : Cursor := ⟨byteSize before, before.length⟩

/-- A cursor behind a text stands behind its bytes. -/
theorem Cursor.after_index (before : Text) : (Cursor.after before).index = byteSize before := rfl

section Moves

variable {before rest : Text} {p : Char → Bool}

/-- Advancing over an ASCII character moves the cursor by one byte. -/
theorem advance_after {c : Char} (hc : c.toNat < 128) :
    advance (utf8 (before ++ c :: rest)) (.after before) = .after (before ++ [c]) := by
  have hbyte : (utf8 (before ++ c :: rest))[byteSize before]? = some (UInt8.ofNat c.toNat) := by
    rw [←List.head?_drop, drop_utf8, utf8_cons, utf8EncodeChar_ascii hc]
    rfl
  have hone : countChars [UInt8.ofNat c.toNat] = 1 := by
    rw [←utf8EncodeChar_ascii hc]
    exact countChars_utf8EncodeChar c
  rw [advance, Cursor.after, hbyte]
  dsimp only
  rw [hone, Cursor.after, byteSize_concat hc, List.length_append, List.length_singleton]

/-- Passing ASCII characters leads behind them. -/
theorem advanceWhile_after (h : IsAscii p) :
    advanceWhile (utf8 (before ++ rest)) (onByte p) (.after before) =
      .after (before ++ rest.takeWhile p) := by
  have hread := reads_onByte h
  induction rest generalizing before with
  | nil =>
    rw [advanceWhile, Cursor.after, byteIs_append hread, List.takeWhile_nil, List.append_nil]
    rfl
  | cons c t ih =>
    rw [advanceWhile, Cursor.after, byteIs_append hread, List.head?_cons, Option.any_some]
    cases hc : p c with
    | false =>
      rw [List.takeWhile_cons_of_neg (by rw [hc]; exact Bool.false_ne_true), List.append_nil]
      rfl
    | true =>
      have hstep : advance (utf8 (before ++ c :: t)) (.after before) = _ := advance_after (h c hc)
      have hrest := @ih (before ++ [c])
      rw [←List.append_cons, ←List.append_cons] at hrest
      rw [Cursor.after] at hstep
      rw [if_pos rfl, hstep, hrest, List.takeWhile_cons_of_pos hc]

/-- A name ends with the bytes. -/
theorem passName_nil : passName (utf8 (before ++ [])) (.after before) = .ok (.after before) := by
  have hend : ¬byteSize before < (utf8 (before ++ [])).length := by
    rw [List.append_nil, length_utf8]
    exact Nat.lt_irrefl _
  rw [passName, if_neg (by exact hend)]

/-- One step through a module name. -/
theorem passName_cons {c : Char} :
    passName (utf8 (before ++ c :: rest)) (.after before) =
      if startsOptionHead (c :: rest) then .error (.after before)
      else if isIdentChar c then passName (utf8 (before ++ c :: rest)) (.after (before ++ [c]))
      else .ok (.after before) := by
  have hlt : (Cursor.after before).index < (utf8 (before ++ c :: rest)).length := lt_length_utf8
  have hahead : optionAhead (utf8 (before ++ c :: rest)) (Cursor.after before).index =
      startsOptionHead (c :: rest) := optionAhead_append
  have hident : byteIs (utf8 (before ++ c :: rest)) (onByte isIdentChar)
      (Cursor.after before).index = isIdentChar c :=
    byteIs_append (reads_onByte isAscii_isIdentChar)
  rw [passName, if_pos hlt, hahead, hident]
  cases hc : isIdentChar c with
  | false => rfl
  | true => rw [advance_after (isAscii_isIdentChar c hc)]

/-- Without an option head in the name, its characters are passed. -/
theorem passName_after {name after : Text} (h : cutName? rest = some (name, after)) :
    passName (utf8 (before ++ rest)) (.after before) = .ok (.after (before ++ name)) := by
  induction rest generalizing before name with
  | nil =>
    cases h
    rw [passName_nil, List.append_nil]
  | cons c t ih =>
    rw [cutName?] at h
    rw [passName_cons]
    split at h
    · cases h
    · next ho =>
      rw [if_neg ho]
      split at h
      · next hc =>
        obtain ⟨⟨tail, _⟩, hcut, heq⟩ := Option.map_eq_some_iff.mp h
        cases heq
        have hrest := @ih (before ++ [c]) _ hcut
        rw [←List.append_cons, ←List.append_cons] at hrest
        rw [if_pos hc, hrest]
      · next hc =>
        cases h
        rw [if_neg hc, List.append_nil]

/-- At an option head inside the name the passing stops. -/
theorem passName_after_none (h : cutName? rest = none) :
    ∃ name after, rest = name ++ after ∧
      passName (utf8 (before ++ rest)) (.after before) = .error (.after (before ++ name)) := by
  induction rest generalizing before with
  | nil => cases h
  | cons c t ih =>
    rw [cutName?] at h
    rw [passName_cons]
    split at h
    · next ho => exact ⟨[], c :: t, rfl, by rw [if_pos ho, List.append_nil]⟩
    · next ho =>
      rw [if_neg ho]
      split at h
      · next hc =>
        obtain ⟨name, after, rfl, hrest⟩ := @ih (before ++ [c]) (Option.map_eq_none_iff.mp h)
        refine ⟨c :: name, after, rfl, ?_⟩
        rw [←List.append_cons, ←List.append_cons] at hrest
        rw [if_pos hc, hrest]
      · cases h

end Moves

section Cuts

variable {src before part rest : Text}

/-- A part of a text lies within its bytes. -/
theorem byteSize_le (h : src = before ++ part ++ rest) :
    byteSize before ≤ byteSize (before ++ part) ∧ byteSize (before ++ part) ≤ byteSize src := by
  rw [h, byteSize_append (before ++ part), byteSize_append before]
  omega

/-- A cursor can be moved behind a part that follows it. -/
theorem seek_after (h : src = before ++ part ++ rest) :
    seek (utf8 src) (.after before) (byteSize (before ++ part)) =
      .ok (.after (before ++ part)) := by
  have hmin : min (byteSize (before ++ part)) (utf8 src).length = byteSize (before ++ part) := by
    rw [length_utf8]
    exact Nat.min_eq_left (byteSize_le h).2
  rw [seek, hmin, h, Cursor.after, bytesBetween?_append]
  change Except.ok (Cursor.mk _ (before.length + countChars (utf8 part))) = _
  rw [countChars_utf8, Cursor.after, List.length_append]

/-- Counting back over a part of the text gives the characters before it. -/
theorem charOffset_after (h : src = before ++ part ++ rest) :
    charOffset (utf8 src) (.after (before ++ part)) (byteSize before) = .ok before.length := by
  rw [charOffset, Cursor.after, if_pos (byteSize_le h).1, h, bytesBetween?_append]
  change (if countChars (utf8 part) ≤ (before ++ part).length then
    Except.ok ((before ++ part).length - countChars (utf8 part)) else _) = _
  rw [countChars_utf8, List.length_append, if_pos (Nat.le_add_left _ _), Nat.add_sub_cancel]

/-- The search for the end of a fragment stops at once, since faults end
between two characters. -/
theorem boundaryFrom_after (h : src = before ++ rest) :
    boundaryFrom src (byteSize before) = byteSize before := by
  have hsplit : splitAtByte? (byteSize before) src = some (before, rest) :=
    splitAtByte?_eq_some_iff.mpr ⟨h, rfl⟩
  have hcount : byteSize src + 1 - byteSize before = byteSize rest + 1 := by
    rw [h, byteSize_append]
    omega
  rw [boundaryFrom, hcount, List.range'_succ, List.find?_cons_of_pos (by rw [hsplit]; rfl)]
  rfl

/-- A fault shows the part of the text that it is about, and its place. -/
theorem faultAt_after {α : Type} {passed later : Text} {cause : Cause}
    (h : src = before ++ part ++ rest) (hp : src = before ++ passed ++ later) :
    (faultAt src (.after (before ++ passed)) cause (byteSize before) (byteSize (before ++ part)) :
      Except Halt α) = .error (.fault ⟨cause, part, before.length⟩) := by
  have hstop : min (max (byteSize (before ++ part)) (byteSize before)) (byteSize src) =
      byteSize (before ++ part) := by
    rw [Nat.max_eq_left (byteSize_le h).1, Nat.min_eq_left (byteSize_le h).2]
  have hcut : textBetween? src (byteSize before) (byteSize (before ++ part)) = some part := by
    rw [h, textBetween?_append]
  rw [faultAt, hstop, boundaryFrom_after h, hcut, charOffset_after hp]
  rfl

/-- A fault shows the part of the text between its two places. -/
theorem faultAt_here {α : Type} {cause : Cause} (h : src = before ++ part ++ rest) :
    (faultAt src (.after before) cause (byteSize before) (byteSize (before ++ part)) :
      Except Halt α) = .error (.fault ⟨cause, part, before.length⟩) := by
  have hnone : src = before ++ [] ++ (part ++ rest) := by
    rw [List.append_nil, h, List.append_assoc]
  rw [←faultAt_after h hnone, List.append_nil]

/-- The token of a part of the text has its characters and its place. -/
theorem tokenAt_after {kind : TokenKind} (h : src = before ++ part ++ rest) :
    tokenAt src (.after (before ++ part)) kind (byteSize before) =
      .ok ⟨kind, part, before.length⟩ := by
  have hcut : textBetween? src (byteSize before) (byteSize (before ++ part)) = some part := by
    rw [h, textBetween?_append]
  rw [tokenAt, Cursor.after_index, hcut, charOffset_after h]
  rfl

end Cuts

end DataPipeline.Definition.ByteLexer
