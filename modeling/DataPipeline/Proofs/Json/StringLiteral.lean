import DataPipeline.Json.Printer
import DataPipeline.Proofs.Json.Grammar

/-!
# Strings of JSON texts

The reader cuts off a string literal as a whole and takes its body apart as the
grammar says. Every character of a text has one written form within a literal, and
this form spells the character. So a string literal is read back as the text that
it was written for, whatever the text holds.
-/

namespace DataPipeline.Json

section Reading

/-- A character with a short escape is spelled by it. -/
theorem cutBody?_short {mark c : Char} (hc : shortEscape? mark = some c) (rest : Text) :
    cutBody? ('\\' :: mark :: rest) =
      (cutBody? rest).map fun (body, after) => (.char c :: body, after) := by
  have hm : mark ≠ 'u' := by
    rintro rfl
    cases hc
  rw [cutBody?, hc]
  · cases cutBody? rest <;> rfl
  · intro a b c d after hno
    exact absurd hno hm

/-- A character that needs no escape spells itself. -/
theorem cutBody?_plain {c : Char} (hquote : c ≠ '"') (hslash : c ≠ '\\')
    (hcontrol : ¬c.toNat < 0x20) (rest : Text) :
    cutBody? (c :: rest) = (cutBody? rest).map fun (body, after) => (.char c :: body, after) := by
  rw [cutBody?]
  · simp [hcontrol, hslash]
  all_goals simp_all

/-- The body of a literal is read as what it spells, up to the closing quote. -/
theorem cutBody?_of_spells {t : Text} {body : List Spelled} (h : SpellsBody t body) (rest : Text) :
    cutBody? (t ++ '"' :: rest) = some (body, rest) := by
  induction h with
  | nil => rfl
  | plain quote slash control _ ih =>
    rw [List.cons_append, cutBody?_plain quote slash control, ih]
    rfl
  | short named _ ih =>
    rw [List.cons_append, List.cons_append, cutBody?_short named, ih]
    rfl
  | code first second third fourth _ ih =>
    simp only [List.cons_append]
    rw [cutBody?, first, second, third, fourth, ih]
    rfl

theorem cutString?_of_spells {t : Text} {body : List Spelled} (h : SpellsBody t body)
    (rest : Text) : cutString? (t ++ '"' :: rest) = some (bodyText? body, rest) := by
  rw [cutString?, cutBody?_of_spells h]
  rfl

end Reading

section Writing

/-- A control character is written with two hexadecimal digits. -/
theorem hexValue?_hexDigit {n : Nat} (h : n < 32) :
    hexValue? (hexDigit (n / 16)) = some (n / 16) ∧
      hexValue? (hexDigit (n % 16)) = some (n % 16) := by
  have hall : ∀ n < 32, hexValue? (hexDigit (n / 16)) = some (n / 16) ∧
      hexValue? (hexDigit (n % 16)) = some (n % 16) := by decide
  exact hall n h

/-- A code below the surrogates spells its character. -/
theorem bodyText?_code {n : Nat} (h : n < 0xD800) (body : List Spelled) :
    bodyText? (.code n :: body) = (bodyText? body).map (Char.ofNat n :: ·) := by
  have hhigh : ¬(0xD800 ≤ n ∧ n < 0xDC00) := by omega
  have hlow : ¬(0xDC00 ≤ n ∧ n < 0xE000) := by omega
  have hnone : ¬(0xD800 ≤ n ∧ n < 0xE000) := by omega
  rcases body with - | ⟨c | low, body⟩
  · simp only [bodyText?, if_neg hnone]
  · simp only [bodyText?, if_neg hnone]
  · rw [bodyText?, if_neg hhigh, if_neg hlow]

/-- The written form of a character spells it, whatever follows. -/
theorem exists_spelled (c : Char) :
    ∃ s, (∀ {t body}, SpellsBody t body → SpellsBody (escapeChar c ++ t) (s :: body)) ∧
      ∀ body, bodyText? (s :: body) = (bodyText? body).map (c :: ·) := by
  have hchar : ∀ body, bodyText? (.char c :: body) = (bodyText? body).map (c :: ·) := fun _ => rfl
  rw [escapeChar]
  -- Seven characters have a short escape.
  iterate 7
    split
    · next h => exact ⟨.char c, .short (by rw [h]; rfl), hchar⟩
  split
  · next h =>
    obtain ⟨hhigh, hlow⟩ := hexValue?_hexDigit h
    have hzero : hexValue? '0' = some 0 := rfl
    refine ⟨_, .code hzero hzero hhigh hlow, fun body => ?_⟩
    have hsum : (0 * 16 + 0) * 256 + (c.toNat / 16 * 16 + c.toNat % 16) = c.toNat := by omega
    rw [hsum, bodyText?_code (by omega), Char.ofNat_toNat]
  · next hquote hslash _ _ _ _ _ hcontrol =>
    exact ⟨.char c, .plain hquote hslash hcontrol, hchar⟩

/-- The body of a literal that is written for a text spells the text. -/
theorem exists_spellsBody (t : Text) :
    ∃ body, SpellsBody (t.flatMap escapeChar) body ∧ bodyText? body = some t := by
  induction t with
  | nil => exact ⟨[], .nil, rfl⟩
  | cons c t ih =>
    obtain ⟨body, hspells, htext⟩ := ih
    obtain ⟨s, hspelled, hmeans⟩ := exists_spelled c
    refine ⟨s :: body, ?_, ?_⟩
    · rw [List.flatMap_cons]
      exact hspelled hspells
    · rw [hmeans, htext]
      rfl

end Writing

end DataPipeline.Json
