import DataPipeline.DatePattern.Reading
import DataPipeline.Proofs.Except
import DataPipeline.Proofs.Numeric.IntegerText

/-!
# Numbers in a date

A number item takes blanks, a sign if its field may have one, and then as many
digits as it may and as there are. A sign lifts the limit on the digits. What
is taken is fixed by the text, and the item fails exactly if the number does
not fit 64 bits or if there is none.
-/

namespace DataPipeline.DatePattern

open Numeric Text

/-- Digits in front of the rest of a text, as many as the limit and the text
allow. -/
structure IsRun (limit : Option Nat) (digits rest : Text) : Prop where
  /-- There is a digit. -/
  ne_nil : digits ≠ []
  /-- All of them are digits. -/
  isDigit : ∀ c ∈ digits, c.isDigit = true
  /-- The limit is kept. -/
  length_le : ∀ n ∈ limit, digits.length ≤ n
  /-- Either the limit is reached or no digit follows. -/
  stops : limit = some digits.length ∨ ∀ c ∈ rest.head?, c.isDigit = false

/-- A number in front of the rest of a text, by its field: digits, or a sign
with any number of digits. -/
inductive IsNumeral (field : NumberField) (rest : Text) : Text → Int → Prop
  | plain {digits : Text} (run : IsRun (numberWidth field) digits rest) :
      IsNumeral field rest digits (ofDigits 10 digits)
  | plus {digits : Text} (signed : mayHaveSign field = true) (run : IsRun none digits rest) :
      IsNumeral field rest ('+' :: digits) (ofDigits 10 digits)
  | minus {digits : Text} (signed : mayHaveSign field = true) (run : IsRun none digits rest) :
      IsNumeral field rest ('-' :: digits) (-ofDigits 10 digits)

/-- The digits in front of a text, up to a limit. -/
def frontDigits (limit : Option Nat) (t : Text) : Text :=
  (match limit with | some n => t.take n | none => t).takeWhile Char.isDigit

section Runs

variable {limit : Option Nat} {digits rest t : Text}

theorem IsRun.frontDigits_eq (h : IsRun limit digits rest) :
    frontDigits limit (digits ++ rest) = digits := by
  rcases h.stops with rfl | hrest
  · rw [frontDigits, List.take_left, List.takeWhile_eq_self_iff.mpr h.isDigit]
  · cases limit with
    | none => exact (cut_digits h.isDigit hrest).1
    | some n =>
      rw [frontDigits, List.take_append, List.take_of_length_le (h.length_le n rfl)]
      refine (cut_digits h.isDigit fun c hc => hrest c ?_).1
      rw [List.head?_take] at hc
      split at hc
      · cases hc
      · exact hc

/-- A run does not begin with any other character than a digit. -/
theorem IsRun.append_ne {c : Char} {u : Text} (h : IsRun limit digits rest)
    (hc : c.isDigit = false) : digits ++ rest ≠ c :: u := by
  obtain ⟨d, after, rfl⟩ := List.exists_cons_of_ne_nil h.ne_nil
  intro heq
  exact ne_of_isDigit (h.isDigit d List.mem_cons_self) hc (List.cons.inj heq).1

/-- The digits that are taken and what follows them are fixed by the text. -/
theorem IsRun.unique {digits' rest' : Text} (h : IsRun limit digits rest)
    (h' : IsRun limit digits' rest') (heq : digits ++ rest = digits' ++ rest') :
    digits = digits' ∧ rest = rest' := by
  have hdigits : digits = digits' := by
    rw [←h.frontDigits_eq, heq, h'.frontDigits_eq]
  subst hdigits
  exact ⟨rfl, List.append_cancel_left heq⟩

/-- The digits in front of a text are those in front of a part of it, behind
which either the text ends or the limit is reached. -/
theorem exists_front (limit : Option Nat) (t : Text) :
    ∃ front behind, t = front ++ behind ∧ frontDigits limit t = front.takeWhile Char.isDigit ∧
      (∀ n ∈ limit, front.length ≤ n) ∧ (behind = [] ∨ limit = some front.length) := by
  cases limit with
  | none => exact ⟨t, [], (List.append_nil t).symm, rfl, nofun, .inl rfl⟩
  | some n =>
    refine ⟨t.take n, t.drop n, (List.take_append_drop n t).symm, rfl, ?_, ?_⟩
    · intro m hm
      cases hm
      exact List.length_take_le n t
    · rcases Nat.le_total t.length n with hle | hle
      · exact .inl (List.drop_eq_nil_of_le hle)
      · exact .inr (congrArg some (List.length_take_of_le hle).symm)

/-- The digits in front of a text, if there are any, are as many as allowed. -/
theorem exists_isRun (h : frontDigits limit t ≠ []) :
    ∃ rest, t = frontDigits limit t ++ rest ∧ IsRun limit (frontDigits limit t) rest := by
  obtain ⟨front, behind, rfl, hfront, hlength, hbehind⟩ := exists_front limit t
  have hcut : front.takeWhile Char.isDigit ++ front.dropWhile Char.isDigit = front :=
    List.takeWhile_append_dropWhile
  rw [hfront] at h ⊢
  refine ⟨front.dropWhile Char.isDigit ++ behind, ?_, h, fun c hc => List.mem_takeWhile_imp hc,
    fun n hn => (List.takeWhile_prefix _).length_le.trans (hlength n hn), ?_⟩
  · rw [←List.append_assoc, hcut]
  · cases hdrop : front.dropWhile Char.isDigit with
    | cons d after =>
      refine .inr fun c hc => ?_
      cases hc
      have hnot := List.head?_dropWhile_not Char.isDigit front
      rw [hdrop] at hnot
      simpa using hnot
    | nil =>
      rw [hdrop, List.append_nil] at hcut
      rw [hcut]
      rcases hbehind with rfl | hlimit
      · exact .inr nofun
      · exact .inl hlimit

/-- A number is taken exactly if it is a run of digits that fits 64 bits. -/
theorem takeNumber_eq_ok_iff {n : Nat} :
    takeNumber limit t = .ok (n, rest) ↔
      ∃ digits, IsRun limit digits rest ∧ t = digits ++ rest ∧ n = ofDigits 10 digits ∧
        fitsSigned 64 n = true := by
  have htake : takeNumber limit t =
      if t = [] then .error .tooShort
      else if frontDigits limit t = [] then .error .invalid
      else if !fitsSigned 64 (ofDigits 10 (frontDigits limit t)) then .error .outOfRange
      else .ok (ofDigits 10 (frontDigits limit t), t.drop (frontDigits limit t).length) := rfl
  rw [htake]
  constructor
  · intro h
    split_ifs at h with hnil hnone hfits
    obtain ⟨rest', ht, hrun⟩ := exists_isRun hnone
    generalize frontDigits limit t = digits at h hfits ht hrun
    subst ht
    rw [List.drop_left] at h
    cases h
    exact ⟨digits, hrun, rfl, rfl, by simpa using hfits⟩
  · rintro ⟨digits, hrun, rfl, rfl, hfits⟩
    rw [hrun.frontDigits_eq, if_neg (by simp [hrun.ne_nil]), if_neg hrun.ne_nil,
      if_neg (by simp [hfits]), List.drop_left]

/-- A number with a sign given to it is taken exactly as the number is. -/
theorem takeNumber_bind_eq_ok_iff (value : Nat → Int) {n : Int} :
    (takeNumber limit t >>= fun found => pure (value found.1, found.2)) =
        (.ok (n, rest) : Except DateError (Int × Text)) ↔
      ∃ digits, IsRun limit digits rest ∧ t = digits ++ rest ∧ n = value (ofDigits 10 digits) ∧
        fitsSigned 64 (ofDigits 10 digits) = true := by
  rw [Except.bind_eq_ok_iff]
  constructor
  · rintro ⟨⟨m, rest'⟩, htake, hresult⟩
    cases hresult
    obtain ⟨digits, hrun, ht, rfl, hfits⟩ := takeNumber_eq_ok_iff.mp htake
    exact ⟨digits, hrun, ht, rfl, hfits⟩
  · rintro ⟨digits, hrun, ht, rfl, hfits⟩
    exact ⟨_, takeNumber_eq_ok_iff.mpr ⟨digits, hrun, ht, rfl, hfits⟩, rfl⟩

end Runs

section Numerals

variable {field : NumberField} {numeral rest t : Text} {n : Int}

/-- A numeral begins with a digit or a sign. -/
theorem IsNumeral.exists_head (h : IsNumeral field rest numeral n) :
    ∃ c u, numeral = c :: u ∧ (c.isDigit = true ∨ c = '+' ∨ c = '-') := by
  cases h with
  | plain run =>
    obtain ⟨c, u, rfl⟩ := List.exists_cons_of_ne_nil run.ne_nil
    exact ⟨c, u, rfl, .inl (run.isDigit c List.mem_cons_self)⟩
  | plus => exact ⟨'+', _, rfl, .inr (.inl rfl)⟩
  | minus => exact ⟨'-', _, rfl, .inr (.inr rfl)⟩

/-- Blanks in front of a numeral are no part of it. -/
theorem IsNumeral.trimStart_eq {blanks : Text} (h : IsNumeral field rest numeral n)
    (hblanks : isAllBlank blanks = true) :
    trimStart (blanks ++ numeral ++ rest) = numeral ++ rest := by
  obtain ⟨c, u, rfl, hc⟩ := h.exists_head
  have hblank : isBlank c = false := by
    rcases hc with hc | rfl | rfl
    · exact isBlank_of_isDigit hc
    · rfl
    · rfl
  rw [List.append_assoc, trimStart_blanks_append hblanks, List.cons_append, trimStart,
    List.dropWhile_cons_of_neg (by simp [hblank])]

/-- What is taken of a number item is fixed by the text. -/
theorem IsNumeral.unique {numeral' rest' : Text} {n' : Int} (h : IsNumeral field rest numeral n)
    (h' : IsNumeral field rest' numeral' n') (heq : numeral ++ rest = numeral' ++ rest') :
    n = n' ∧ rest = rest' := by
  cases h with
  | plain run =>
    cases h' with
    | plain run' =>
      obtain ⟨hdigits, hrest⟩ := run.unique run' heq
      exact ⟨by rw [hdigits], hrest⟩
    | plus => exact absurd heq (run.append_ne rfl)
    | minus => exact absurd heq (run.append_ne rfl)
  | plus _ run =>
    cases h' with
    | plain run' => exact absurd heq.symm (run'.append_ne rfl)
    | plus _ run' =>
      obtain ⟨hdigits, hrest⟩ := run.unique run' (List.cons.inj heq).2
      exact ⟨by rw [hdigits], hrest⟩
    | minus => exact absurd (List.cons.inj heq).1 (by decide)
  | minus _ run =>
    cases h' with
    | plain run' => exact absurd heq.symm (run'.append_ne rfl)
    | plus => exact absurd (List.cons.inj heq).1 (by decide)
    | minus _ run' =>
      obtain ⟨hdigits, hrest⟩ := run.unique run' (List.cons.inj heq).2
      exact ⟨by rw [hdigits], hrest⟩

/-- A number item takes exactly the numerals behind blanks that fit 64 bits. -/
theorem takeNumberItem_eq_ok_iff :
    takeNumberItem field t = .ok (n, rest) ↔
      ∃ blanks numeral, isAllBlank blanks = true ∧ t = blanks ++ numeral ++ rest ∧
        IsNumeral field rest numeral n ∧ fitsSigned 64 n.natAbs = true := by
  constructor
  · intro h
    have ht : t.takeWhile isBlank ++ trimStart t = t := List.takeWhile_append_dropWhile
    suffices hnumeral : ∃ numeral, trimStart t = numeral ++ rest ∧
        IsNumeral field rest numeral n ∧ fitsSigned 64 n.natAbs = true by
      obtain ⟨numeral, hcut, hrest⟩ := hnumeral
      refine ⟨t.takeWhile isBlank, numeral, List.all_takeWhile, ?_, hrest⟩
      rw [List.append_assoc, ←hcut, ht]
    rw [takeNumberItem] at h
    split at h
    case h_1 hsigned hcut =>
      obtain ⟨digits, hrun, rfl, rfl, hfits⟩ := (takeNumber_bind_eq_ok_iff fun m => -(m : Int)).mp h
      exact ⟨'-' :: digits, hcut, .minus hsigned hrun,
        by simpa only [Int.natAbs_neg, Int.natAbs_natCast] using hfits⟩
    case h_2 hsigned hcut =>
      obtain ⟨digits, hrun, rfl, rfl, hfits⟩ := (takeNumber_bind_eq_ok_iff Nat.cast).mp h
      exact ⟨'+' :: digits, hcut, .plus hsigned hrun, hfits⟩
    case h_3 =>
      obtain ⟨digits, hrun, hcut, rfl, hfits⟩ := (takeNumber_bind_eq_ok_iff Nat.cast).mp h
      exact ⟨digits, hcut, .plain hrun, hfits⟩
  · rintro ⟨blanks, numeral, hblanks, rfl, hnumeral, hfits⟩
    rw [takeNumberItem, hnumeral.trimStart_eq hblanks]
    cases hnumeral with
    | plain run =>
      split
      case h_1 hcut => exact absurd hcut (run.append_ne rfl)
      case h_2 hcut => exact absurd hcut (run.append_ne rfl)
      case h_3 => exact (takeNumber_bind_eq_ok_iff Nat.cast).mpr ⟨_, run, rfl, rfl, hfits⟩
    | plus signed run =>
      rw [signed]
      exact (takeNumber_bind_eq_ok_iff Nat.cast).mpr ⟨_, run, rfl, rfl, hfits⟩
    | minus signed run =>
      rw [signed]
      rw [Int.natAbs_neg] at hfits
      exact (takeNumber_bind_eq_ok_iff fun m => -(m : Int)).mpr ⟨_, run, rfl, rfl, hfits⟩

end Numerals

end DataPipeline.DatePattern
