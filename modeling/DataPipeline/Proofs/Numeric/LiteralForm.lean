import DataPipeline.Numeric.IntegerLiteral
import DataPipeline.Proofs.Numeric.DecimalText
import Mathlib.Data.List.Forall2
import Mathlib.Data.Nat.Digits.Defs
import Mathlib.Tactic.Ring

/-!
# The form of integer literals

An integer literal is a sign or none, a mark of base sixteen or none, and at
least one digit of the base. The reader accepts exactly the texts of this form
and gives the integer that the digits denote by their places. A reader that
counts in words of a fixed width, and gives up where a word overflows, gives up
on exactly those digits whose number does not fit the word.
-/

namespace DataPipeline.Numeric

open Text

/-- A character that is written for a digit of a base, in either case. -/
def IsDigit (base : Nat) (c : Char) (d : Nat) : Prop :=
  d < base ∧ (c = Nat.digitChar d ∨ c = (Nat.digitChar d).toUpper)

/-- The signs, and whether they make a number negative. -/
inductive IsSign : Text → Bool → Prop
  | none : IsSign [] false
  | plus : IsSign ['+'] false
  | minus : IsSign ['-'] true

/-- The marks of a base. Base ten has no mark. -/
inductive IsMark : Text → Nat → Prop
  | none : IsMark [] 10
  | lower : IsMark ['0', 'x'] 16
  | upper : IsMark ['0', 'X'] 16
  | hash : IsMark ['#'] 16

/-- Digits of a base behind its mark that denote a number by their places, the
lowest digit last. -/
inductive SpellsNatural (t : Text) (n : Nat) : Prop
  | intro {mark digits : Text} {base : Nat} {values : List Nat} (isMark : IsMark mark base)
      (digits_ne_nil : digits ≠ []) (areDigits : List.Forall₂ (IsDigit base) digits values)
      (text : t = mark ++ digits) (value : n = Nat.ofDigits base values.reverse)

/-- An integer literal: a sign before an unsigned literal. -/
inductive SpellsInteger (t : Text) (n : Int) : Prop
  | intro {sign unsigned : Text} {negative : Bool} {magnitude : Nat}
      (isSign : IsSign sign negative) (spells : SpellsNatural unsigned magnitude)
      (text : t = sign ++ unsigned) (value : n = if negative then -(magnitude : Int) else magnitude)

section Digits

variable {base : Nat}

theorem IsMark.base_le {mark : Text} (h : IsMark mark base) : base ≤ 16 := by
  cases h <;> decide

theorem IsMark.base_pos {mark : Text} (h : IsMark mark base) : 0 < base := by
  cases h <;> decide

/-- A digit character is the character of its value, in either case. -/
theorem eq_digitChar_of_digitValue_lt {c : Char} (h : digitValue c < 16) :
    c = Nat.digitChar (digitValue c) ∨ c = (Nat.digitChar (digitValue c)).toUpper := by
  have hlow : ∀ d < 10, (Nat.digitChar d).toNat = d + 48 := by decide
  have hletter : ∀ d < 16, 10 ≤ d →
      (Nat.digitChar d).toNat = d + 87 ∧ (Nat.digitChar d).toUpper.toNat = d + 55 := by decide
  rw [digitValue] at h ⊢
  split at h
  · next hdigit =>
    have hbounds := hdigit
    simp only [Char.isDigit, Bool.and_eq_true, decide_eq_true_eq] at hbounds
    have hge : 48 ≤ c.toNat := hbounds.1
    have hle : c.toNat ≤ 57 := hbounds.2
    have hzero : '0'.toNat = 48 := rfl
    left
    rw [←Char.toNat_inj, if_pos hdigit, hlow _ (by omega)]
    omega
  · next hdigit =>
    rw [if_neg hdigit]
    split at h
    · next hlower =>
      have hge : 97 ≤ c.toNat := hlower.1
      have hle : c.toNat ≤ 102 := hlower.2
      have ha : 'a'.toNat = 97 := rfl
      left
      rw [←Char.toNat_inj, if_pos hlower, (hletter _ (by omega) (by omega)).1]
      omega
    · next hlower =>
      rw [if_neg hlower]
      split at h
      · next hupper =>
        have hge : 65 ≤ c.toNat := hupper.1
        have hle : c.toNat ≤ 70 := hupper.2
        have ha : 'A'.toNat = 65 := rfl
        right
        rw [←Char.toNat_inj, if_pos hupper, (hletter _ (by omega) (by omega)).2]
        omega
      · omega

/-- A character is a digit of a base exactly if its value is below the base. -/
theorem isDigit_iff (hbase : base ≤ 16) {c : Char} {d : Nat} :
    IsDigit base c d ↔ d < base ∧ digitValue c = d := by
  have hvalue : ∀ d < 16, digitValue (Nat.digitChar d) = d ∧
      digitValue (Nat.digitChar d).toUpper = d := by decide
  constructor
  · rintro ⟨hlt, rfl | rfl⟩
    · exact ⟨hlt, (hvalue d (by omega)).1⟩
    · exact ⟨hlt, (hvalue d (by omega)).2⟩
  · rintro ⟨hlt, rfl⟩
    exact ⟨hlt, eq_digitChar_of_digitValue_lt (by omega)⟩

/-- The digits of a base are the characters with a value below it. -/
theorem forall₂_isDigit_iff (hbase : base ≤ 16) {digits : Text} {values : List Nat} :
    List.Forall₂ (IsDigit base) digits values ↔
      (∀ c ∈ digits, digitValue c < base) ∧ values = digits.map digitValue := by
  induction digits generalizing values with
  | nil => simp
  | cons c digits ih =>
    rw [List.forall₂_cons_left_iff, List.forall_mem_cons, List.map_cons]
    constructor
    · rintro ⟨d, rest, hd, hrest, rfl⟩
      obtain ⟨hlt, rfl⟩ := (isDigit_iff hbase).mp hd
      obtain ⟨hall, rfl⟩ := ih.mp hrest
      exact ⟨⟨hlt, hall⟩, rfl⟩
    · rintro ⟨⟨hlt, hall⟩, rfl⟩
      exact ⟨_, _, (isDigit_iff hbase).mpr ⟨hlt, rfl⟩, ih.mpr ⟨hall, rfl⟩, rfl⟩

/-- Digits that are read from the highest on count by their places. -/
theorem foldl_digitValue (base : Nat) (digits : Text) (k : Nat) :
    digits.foldl (fun n c => n * base + digitValue c) k =
      k * base ^ digits.length + Nat.ofDigits base (digits.map digitValue).reverse := by
  induction digits generalizing k with
  | nil => simp
  | cons c digits ih =>
    rw [List.foldl_cons, ih, List.map_cons, List.reverse_cons, Nat.ofDigits_append,
      List.length_reverse, List.length_map, Nat.ofDigits_singleton, List.length_cons, pow_succ]
    ring

/-- A text is read as a number exactly if it consists of digits that denote it. -/
theorem natural?_eq_some_iff (hbase : base ≤ 16) {t : Text} {n : Nat} :
    natural? base t = some n ↔
      t ≠ [] ∧ ∃ values, List.Forall₂ (IsDigit base) t values ∧
        n = Nat.ofDigits base values.reverse := by
  have hread : ofDigits base t = Nat.ofDigits base (t.map digitValue).reverse := by
    rw [ofDigits, foldl_digitValue, Nat.zero_mul, Nat.zero_add]
  simp only [natural?, forall₂_isDigit_iff hbase, List.all_eq_true, decide_eq_true_eq]
  split
  · next h =>
    rw [Option.some.injEq, hread]
    constructor
    · rintro rfl
      exact ⟨h.1, _, ⟨h.2, rfl⟩, rfl⟩
    · rintro ⟨-, values, ⟨-, rfl⟩, rfl⟩
      rfl
  · next h =>
    refine iff_of_false (fun hnone => Option.some_ne_none n hnone.symm) ?_
    rintro ⟨hne, values, ⟨hall, -⟩, -⟩
    exact h ⟨hne, hall⟩

end Digits

section Literals

variable {t : Text}

/-- What is left behind the mark of a base, if the text begins with one. -/
theorem exists_isMark (t : Text) :
    ∃ mark, IsMark mark (literalBase t).1 ∧ t = mark ++ (literalBase t).2 := by
  unfold literalBase
  split
  · exact ⟨_, .lower, rfl⟩
  · exact ⟨_, .upper, rfl⟩
  · exact ⟨_, .hash, rfl⟩
  · exact ⟨_, .none, rfl⟩

/-- A mark is cut off before digits. Digits without a mark are never taken for
one, since no letter and no `#` is a decimal digit. -/
theorem literalBase_append {mark digits : Text} {base : Nat} (h : IsMark mark base)
    (hdigits : ∀ c ∈ digits, digitValue c < base) :
    literalBase (mark ++ digits) = (base, digits) := by
  have hsmall : ∀ {c : Char}, c ∈ digits → base = 10 → digitValue c < 10 := fun hc hten =>
    hten ▸ hdigits _ hc
  cases h with
  | none =>
    rw [List.nil_append]
    unfold literalBase
    split
    · exact absurd (hsmall (c := 'x') (by simp) rfl) (by decide)
    · exact absurd (hsmall (c := 'X') (by simp) rfl) (by decide)
    · exact absurd (hsmall (c := '#') (by simp) rfl) (by decide)
    · rfl
  | lower => rfl
  | upper => rfl
  | hash => rfl

/-- A text is read as an unsigned literal exactly if it spells a number. -/
theorem unsignedLiteral?_eq_some_iff {n : Nat} :
    unsignedLiteral? t = some n ↔ SpellsNatural t n := by
  rw [unsignedLiteral?]
  constructor
  · intro h
    obtain ⟨mark, hmark, htext⟩ := exists_isMark t
    obtain ⟨hne, values, hvalues, hn⟩ := (natural?_eq_some_iff hmark.base_le).mp h
    exact .intro hmark hne hvalues htext hn
  · rintro ⟨hmark, hne, hvalues, rfl, rfl⟩
    rw [literalBase_append hmark ((forall₂_isDigit_iff hmark.base_le).mp hvalues).1]
    exact (natural?_eq_some_iff hmark.base_le).mpr ⟨hne, _, hvalues, rfl⟩

/-- An unsigned literal does not begin with a sign. -/
theorem SpellsNatural.head_ne {n : Nat} (h : SpellsNatural t n) :
    ∀ c ∈ t.head?, c ≠ '-' ∧ c ≠ '+' := by
  intro c hhead
  obtain ⟨rest, rfl⟩ := List.head?_eq_some_iff.mp hhead
  obtain ⟨hmark, hne, hvalues, htext, -⟩ := h
  have hdigits := ((forall₂_isDigit_iff hmark.base_le).mp hvalues).1
  cases hmark with
  | none =>
    have hc : digitValue c < 10 := hdigits c (by rw [←htext.trans (List.nil_append _)]; simp)
    constructor <;> rintro rfl <;> exact absurd hc (by decide)
  | lower => cases htext; decide
  | upper => cases htext; decide
  | hash => cases htext; decide

/-- What is left behind a sign, if the text begins with one. -/
theorem exists_isSign (t : Text) :
    ∃ sign, IsSign sign (cutSign t).1 ∧ t = sign ++ (cutSign t).2 := by
  unfold cutSign
  split
  · exact ⟨_, .minus, rfl⟩
  · exact ⟨_, .plus, rfl⟩
  · exact ⟨_, .none, rfl⟩

/-- A sign is cut off before a text that does not begin with one. -/
theorem cutSign_append {sign : Text} {negative : Bool} (h : IsSign sign negative)
    (ht : ∀ c ∈ t.head?, c ≠ '-' ∧ c ≠ '+') : cutSign (sign ++ t) = (negative, t) := by
  cases h with
  | none =>
    rw [List.nil_append]
    unfold cutSign
    split
    · exact absurd rfl (ht '-' rfl).1
    · exact absurd rfl (ht '+' rfl).2
    · rfl
  | plus => rfl
  | minus => rfl

/-- An integer literal is an unsigned literal behind a sign. -/
theorem integerLiteral?_eq (t : Text) :
    integerLiteral? t =
      (unsignedLiteral? (cutSign t).2).map (Decimal.signed (cutSign t).1) := by
  fun_cases cutSign t with
  | case1 rest =>
    rw [integerLiteral?]
    cases unsignedLiteral? rest <;> rfl
  | case2 rest =>
    rw [integerLiteral?]
    cases unsignedLiteral? rest <;> rfl
  | case3 t hminus hplus =>
    rw [integerLiteral?.eq_3 t hminus hplus]
    cases unsignedLiteral? t <;> rfl

/-- A text is read as an integer exactly if it spells the integer. -/
theorem integerLiteral?_eq_some_iff {n : Int} :
    integerLiteral? t = some n ↔ SpellsInteger t n := by
  rw [integerLiteral?_eq, Option.map_eq_some_iff]
  constructor
  · rintro ⟨k, hk, rfl⟩
    obtain ⟨sign, hsign, htext⟩ := exists_isSign t
    exact .intro hsign (unsignedLiteral?_eq_some_iff.mp hk) htext rfl
  · rintro ⟨hsign, hspells, rfl, rfl⟩
    rw [cutSign_append hsign hspells.head_ne]
    exact ⟨_, unsignedLiteral?_eq_some_iff.mpr hspells, rfl⟩

end Literals

section Words

variable {limit base : Nat}

/-- The number of digits, counted in words below a limit; none if a word
overflows on the way. -/
def countDigits? (limit base : Nat) (digits : Text) : Option Nat :=
  digits.foldlM
    (fun n c => if n * base + digitValue c < limit then some (n * base + digitValue c) else none) 0

/-- Counting on from a word overflows exactly if the number that is reached in
the end does, since no step makes a number smaller. -/
theorem foldlM_countDigits (hbase : 0 < base) (digits : Text) {k : Nat} (hk : k < limit) :
    digits.foldlM
        (fun n c =>
          if n * base + digitValue c < limit then some (n * base + digitValue c) else none) k =
      if digits.foldl (fun n c => n * base + digitValue c) k < limit then
        some (digits.foldl (fun n c => n * base + digitValue c) k)
      else none := by
  induction digits generalizing k with
  | nil => exact (if_pos hk).symm
  | cons c digits ih =>
    rw [List.foldlM_cons, List.foldl_cons]
    by_cases hnext : k * base + digitValue c < limit
    · rw [if_pos hnext]
      exact ih hnext
    · have hgrow := foldl_digitValue base digits (k * base + digitValue c)
      have hpow : 0 < base ^ digits.length := Nat.pow_pos hbase
      have hle : k * base + digitValue c ≤ (k * base + digitValue c) * base ^ digits.length :=
        Nat.le_mul_of_pos_right _ hpow
      rw [if_neg hnext, if_neg (by omega)]
      rfl

/-- Counting in words gives the number of the digits if it is below the limit. -/
theorem countDigits?_eq (hbase : 0 < base) (hlimit : 0 < limit) (digits : Text) :
    countDigits? limit base digits =
      if ofDigits base digits < limit then some (ofDigits base digits) else none :=
  foldlM_countDigits hbase digits hlimit

end Words

end DataPipeline.Numeric
