import DataPipeline.Proofs.Definition.ByteLexer
import DataPipeline.Proofs.Definition.RawValue
import DataPipeline.Proofs.Text.Trim

/-!
# Scans of the lexer over bytes

At a place between two characters every scan over bytes gives the place where
the scan over characters stops, and every slice and count that the lexer takes
from there exists.
-/

namespace DataPipeline.Definition.ByteLexer

open Text

/-- A test for one ASCII character holds of ASCII characters only. -/
theorem isAscii_char {a : Char} (h : a.toNat < 128) : IsAscii fun c => c = a := by
  intro c hc
  rw [of_decide_eq_true hc]
  exact h

/-- Either of two tests for ASCII characters is such a test. -/
theorem isAscii_or {p r : Char → Bool} (hp : IsAscii p) (hr : IsAscii r) :
    IsAscii fun c => p c || r c := by
  intro c hc
  rcases Bool.or_eq_true_iff.mp hc with hc | hc
  · exact hp c hc
  · exact hr c hc

/-- Letters are ASCII characters. -/
theorem isAscii_isAlpha : IsAscii Char.isAlpha := by
  intro c hc
  have hletter := isAlpha_iff.mp hc
  omega

/-- Digits are ASCII characters. -/
theorem isAscii_isDigit : IsAscii Char.isDigit := by
  intro c hc
  have hdigit : 48 ≤ c.toNat ∧ c.toNat ≤ 57 := Char.isDigit_iff_toNat.mp hc
  omega

/-- Identifiers begin with ASCII characters. -/
theorem isAscii_isIdentStart : IsAscii isIdentStart :=
  isAscii_or isAscii_isAlpha (isAscii_char (by decide))

/-- Identifiers consist of ASCII characters. -/
theorem isAscii_isIdentChar : IsAscii isIdentChar :=
  isAscii_or (isAscii_or (isAscii_or isAscii_isAlpha isAscii_isDigit) (isAscii_char (by decide)))
    (isAscii_char (by decide))

/-- The blanks between tokens are ASCII characters. -/
theorem isAscii_isAsciiBlank : IsAscii isAsciiBlank :=
  isAscii_or (isAscii_or (isAscii_or (isAscii_or (isAscii_char (by decide))
    (isAscii_char (by decide))) (isAscii_char (by decide))) (isAscii_char (by decide)))
    (isAscii_char (by decide))

section Scans

variable {before rest : Text} {q : UInt8 → Bool} {p : Char → Bool}

/-- Behind the bytes of a text stand the bytes of what follows it. -/
theorem drop_utf8 (before rest : Text) :
    (utf8 (before ++ rest)).drop (byteSize before) = utf8 rest := by
  rw [utf8_append, ←length_utf8, List.drop_left]

/-- The byte behind a part of the text answers for the next character. -/
theorem byteIs_append (h : Reads q p) :
    byteIs (utf8 (before ++ rest)) q (byteSize before) = rest.head?.any p := by
  rw [byteIs, ←head?_utf8 h, ←drop_utf8 before rest, List.head?_drop]

/-- Passing bytes moves on by the number of bytes that are passed. -/
theorem passWhile_eq (bytes : List UInt8) (q : UInt8 → Bool) (i : Nat) :
    passWhile bytes q i = i + ((bytes.drop i).takeWhile q).length := by
  fun_induction passWhile bytes q i with
  | case1 i h ih =>
    have hi := lt_of_byteIs h
    rw [byteIs, List.getElem?_eq_getElem hi, Option.any_some] at h
    rw [ih, List.drop_eq_getElem_cons hi, List.takeWhile_cons_of_pos h, List.length_cons]
    omega
  | case2 i h =>
    by_cases hi : i < bytes.length
    · rw [byteIs, List.getElem?_eq_getElem hi, Option.any_some] at h
      rw [List.drop_eq_getElem_cons hi, List.takeWhile_cons_of_neg h]
      rfl
    · rw [List.drop_eq_nil_of_le (Nat.le_of_not_lt hi)]
      rfl

/-- A scan over bytes ends where the scan over characters does. -/
theorem passWhile_append (h : Reads q p) :
    passWhile (utf8 (before ++ rest)) q (byteSize before) =
      byteSize (before ++ rest.takeWhile p) := by
  rw [passWhile_eq, drop_utf8, takeWhile_utf8 h, length_utf8, byteSize_append]

/-- The end of a word in the bytes is the end of the word in the text. -/
theorem wordEnd_append :
    wordEnd (utf8 (before ++ rest)) (byteSize before) = byteSize (before ++ word rest) :=
  passWhile_append (reads_onByte (isAscii_or isAscii_isAsciiBlank (isAscii_char (by decide)))).not

/-- One more ASCII character is one more byte. -/
theorem byteSize_concat {c : Char} (hc : c.toNat < 128) :
    byteSize (before ++ [c]) = byteSize before + 1 := by
  rw [byteSize_append, ←length_utf8 [c], utf8_singleton, utf8EncodeChar_ascii hc]
  rfl

/-- A byte is that of an ASCII character exactly if that character stands there. -/
theorem byteIs_char {a : Char} (ha : a.toNat < 128) :
    byteIs (utf8 (before ++ rest)) (onByte fun c => c = a) (byteSize before) =
      decide (rest.head? = some a) := by
  rw [byteIs_append (reads_onByte (isAscii_char ha))]
  cases rest with
  | nil => rfl
  | cons c t =>
    rw [List.head?_cons, Option.any_some]
    exact decide_eq_decide.mpr Option.some_inj.symm

/-- The mark of an option is seen in the bytes where it stands in the text. -/
theorem markAt_append :
    markAt (utf8 (before ++ rest)) (byteSize before) = startsOption rest := by
  rw [markAt, byteIs_char (by decide)]
  cases rest with
  | nil => rfl
  | cons c t =>
    rw [startsOption_cons, List.head?_cons]
    by_cases hc : c = '-'
    · subst hc
      rw [List.append_cons, ←byteSize_concat (c := '-') (by decide), byteIs_char (by decide)]
      rfl
    · rw [decide_eq_false hc, decide_eq_false fun h => hc (Option.some.inj h), Bool.false_and,
        Bool.false_and]

/-- The head of an option is seen in the bytes where it stands in the text. -/
theorem optionAhead_append :
    optionAhead (utf8 (before ++ rest)) (byteSize before) = startsOptionHead rest := by
  rw [optionAhead, markAt_append]
  cases ho : startsOption rest with
  | false => rw [startsOptionHead_eq_false ho, Bool.false_and, Bool.false_and]
  | true =>
    obtain ⟨t, rfl⟩ := startsOption_iff.mp ho
    have hsize : byteSize before + 2 = byteSize (before ++ ['-', '-']) := by
      rw [byteSize_append]
      rfl
    have hsrc : before ++ '-' :: '-' :: t = before ++ ['-', '-'] ++ t := by
      rw [List.append_assoc]
      rfl
    rw [startsOptionHead_mark, hsize, hsrc, byteIs_append (reads_onByte isAscii_isIdentStart),
      Bool.true_and]
    cases t with
    | nil => rfl
    | cons c u =>
      cases hc : isIdentStart c with
      | false => simp [leadingIdent, hc]
      | true =>
        have hlead : leadingIdent (c :: u) = (c :: u).takeWhile isIdentChar := by
          rw [leadingIdent, if_pos hc]
        have hne : (c :: u).takeWhile isIdentChar ≠ [] := by
          rw [List.takeWhile_cons_of_pos (isIdentChar_of_isIdentStart hc)]
          exact List.cons_ne_nil _ _
        have hsplit : before ++ ['-', '-'] ++ (c :: u) =
            before ++ ['-', '-'] ++ (c :: u).takeWhile isIdentChar ++
              (c :: u).dropWhile isIdentChar := by
          rw [List.append_assoc _ (List.takeWhile _ _), List.takeWhile_append_dropWhile]
        rw [passWhile_append (reads_onByte isAscii_isIdentChar), hsplit, byteIs_char (by decide),
          hlead, drop_length_takeWhile, decide_eq_true hne, List.head?_cons, Option.any_some, hc]

/-- Only the empty text has no bytes. -/
theorem byteSize_eq_zero {t : Text} : byteSize t = 0 ↔ t = [] := by
  cases t with
  | nil => exact ⟨fun _ => rfl, fun _ => rfl⟩
  | cons c t =>
    have hpos := c.utf8Size_pos
    rw [byteSize_cons]
    exact ⟨fun h => by omega, fun h => by cases h⟩

/-- The three tests at the end of a run of blanks are the test for the end of
a value. -/
theorem endsValue_append (before rest : Text) :
    (decide (byteSize before = (utf8 (before ++ rest)).length) ||
      byteIs (utf8 (before ++ rest)) (onByte fun c => c = '|') (byteSize before) ||
        markAt (utf8 (before ++ rest)) (byteSize before)) = endsValue rest := by
  have hend : byteSize before = (utf8 (before ++ rest)).length ↔ rest = [] := by
    rw [length_utf8, byteSize_append, ←byteSize_eq_zero]
    omega
  rw [byteIs_char (by decide), markAt_append, endsValue, decide_eq_decide.mpr hend]

/-- A value goes on over bytes that are no blanks. -/
theorem valueEnd_block {block : List UInt8} (a b : List UInt8)
    (h : ∀ x ∈ block, onByte isAsciiBlank x = false) :
    valueEnd (a ++ block ++ b) a.length = valueEnd (a ++ block ++ b) (a ++ block).length := by
  induction block generalizing a with
  | nil => rw [List.append_nil]
  | cons x block ih =>
    have hi : a.length < (a ++ x :: block ++ b).length := by
      simp only [List.length_append, List.length_cons]
      omega
    have hx : byteIs (a ++ x :: block ++ b) (onByte isAsciiBlank) a.length = false := by
      rw [byteIs, List.append_assoc, List.getElem?_append_right (Nat.le_refl _), Nat.sub_self]
      exact h x List.mem_cons_self
    have hstep := ih (a ++ [x]) fun y hy => h y (List.mem_cons_of_mem _ hy)
    rw [←List.append_cons, List.length_append, List.length_singleton] at hstep
    rw [valueEnd, if_pos hi, hx, if_neg Bool.false_ne_true, hstep]

/-- Before a character the bytes have not ended. -/
theorem lt_length_utf8 {c : Char} {t : Text} :
    byteSize before < (utf8 (before ++ c :: t)).length := by
  have hpos := c.utf8Size_pos
  rw [length_utf8, byteSize_append, byteSize_cons]
  omega

/-- At a run of blanks, what follows the run decides whether the value ends. -/
theorem valueEnd_blanks {c : Char} {t : Text} (hc : isAsciiBlank c = true) :
    valueEnd (utf8 (before ++ c :: t)) (byteSize before) =
      if endsValue ((c :: t).dropWhile isAsciiBlank) then byteSize before
      else valueEnd (utf8 (before ++ c :: t))
        (byteSize (before ++ (c :: t).takeWhile isAsciiBlank)) := by
  have hread := reads_onByte isAscii_isAsciiBlank
  have hb : byteIs (utf8 (before ++ c :: t)) (onByte isAsciiBlank) (byteSize before) = true := by
    rw [byteIs_append hread]
    exact hc
  have hsplit : before ++ c :: t =
      before ++ (c :: t).takeWhile isAsciiBlank ++ (c :: t).dropWhile isAsciiBlank := by
    rw [List.append_assoc, List.takeWhile_append_dropWhile]
  have hends := endsValue_append (before ++ (c :: t).takeWhile isAsciiBlank)
    ((c :: t).dropWhile isAsciiBlank)
  rw [←hsplit] at hends
  rw [valueEnd, if_pos lt_length_utf8, if_pos hb, passWhile_append hread]
  dsimp only
  rw [hends]

/-- The value over bytes is the value over characters. -/
theorem valueEnd_append :
    valueEnd (utf8 (before ++ rest)) (byteSize before) = byteSize (before ++ rawValue rest) := by
  fun_induction rawValue rest generalizing before with
  | case1 =>
    rw [List.append_nil, valueEnd, length_utf8, if_neg (Nat.lt_irrefl _)]
  | case2 c t hc hends =>
    rw [valueEnd_blanks hc, if_pos hends, List.append_nil]
  | case3 c t hc hends ih =>
    have hstep := @ih (before ++ (c :: t).takeWhile isAsciiBlank)
    rw [List.append_assoc before, List.takeWhile_append_dropWhile,
      List.append_assoc before] at hstep
    rw [valueEnd_blanks hc, if_neg hends, hstep]
  | case4 c t hc ih =>
    -- The loop over bytes passes the bytes of the character one by one.
    have hnone : ∀ x ∈ String.utf8EncodeChar c, onByte isAsciiBlank x = false := fun x hx =>
      (reads_onByte isAscii_isAsciiBlank c x hx).trans (Bool.eq_false_iff.mpr hc)
    have hblock := valueEnd_block (utf8 before) (utf8 t) hnone
    have hstep := @ih (before ++ [c])
    rw [←List.append_cons, ←List.append_cons] at hstep
    rw [←utf8_singleton, ←utf8_append, ←utf8_append, ←List.append_cons, length_utf8,
      length_utf8] at hblock
    rw [hblock, hstep]

end Scans

end DataPipeline.Definition.ByteLexer
