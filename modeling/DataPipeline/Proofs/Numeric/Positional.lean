import DataPipeline.Proofs.Numeric.DecimalValue
import DataPipeline.Proofs.Text.Digits
import Mathlib.Algebra.Order.Field.Power
import Mathlib.Tactic.Positivity
import Mathlib.Tactic.Ring

/-!
# Positional notation

A decimal by its digits and the exponent of the last one denotes a number, also
without the zeros behind its digits. In positional notation its digits stand before
and behind a point, and denote the number together with the number of places.
-/

namespace DataPipeline

namespace Text

section Zeros

/-- Zeros in front of digits do not count. -/
theorem ofDigits_zeros_append (k : Nat) (t : Text) :
    ofDigits 10 (List.replicate k '0' ++ t) = ofDigits 10 t := by
  induction k with
  | zero => rfl
  | succ k ih => exact ih

/-- Every zero behind digits multiplies by ten. -/
theorem ofDigits_append_zeros (t : Text) (k : Nat) :
    ofDigits 10 (t ++ List.replicate k '0') = ofDigits 10 t * 10 ^ k := by
  induction k with
  | zero => simp
  | succ k ih =>
    rw [List.replicate_succ', ←List.append_assoc, ofDigits, List.foldl_append, ←ofDigits, ih,
      Nat.pow_succ, ←Nat.mul_assoc]
    rfl

theorem isDigit_of_mem_zeros {k : Nat} {c : Char} (h : c ∈ List.replicate k '0') :
    c.isDigit = true := by
  rw [List.eq_of_mem_replicate h]
  rfl

end Zeros

end Text

namespace Numeric.Scientific

open Text

/-- The number that digits with an exponent denote. -/
def value (s : Scientific) : ℚ := s.digits * (10 : ℚ) ^ s.exponent

/-- Dropping trailing zeros keeps the number. -/
theorem value_trim (s : Scientific) : s.trim.value = s.value := by
  rw [trim]
  split
  · next hzero => rw [value, value, hzero, Nat.cast_zero, zero_mul, zero_mul]
  · next hne =>
    obtain ⟨m, -, -, hdigits⟩ :=
      Decimal.exists_eq_mul_pow_trailingZeros (Nat.pos_of_ne_zero hne)
    rw [←Decimal.trailingZeros, value, value]
    generalize Decimal.trailingZeros s.digits = zeros at hdigits
    have hpow : 0 < 10 ^ zeros := by positivity
    have hdiv : s.digits / Nat.pow 10 zeros = m := by
      rw [hdigits]
      exact Nat.mul_div_cancel m hpow
    rw [hdiv, zpow_add₀ (by norm_num), zpow_natCast, hdigits]
    push_cast
    ring

section Positional

/-- The digits of a decimal in positional notation before and behind the point: zeros
are appended to an integer, and otherwise as many digits as there are places stand
behind the point. -/
structure IsPositional (s : Scientific) (whole fraction : Text) : Prop where
  /-- There is a point exactly if digits stand behind it. -/
  text : s.positional = whole ++ if fraction = [] then [] else '.' :: fraction
  /-- A digit stands before the point. -/
  whole_ne_nil : whole ≠ []
  /-- There are digits only. -/
  isDigit : ∀ c ∈ whole ++ fraction, c.isDigit = true
  /-- They denote the digits of the decimal with the zeros. -/
  denotes : ofDigits 10 (whole ++ fraction) = s.digits * 10 ^ s.exponent.toNat
  /-- There are as many digits behind the point as places. -/
  length : fraction.length = (-s.exponent).toNat

theorem exists_isPositional (s : Scientific) :
    ∃ whole fraction, s.IsPositional whole fraction := by
  have hdigits : ∀ c ∈ ofNat s.digits, c.isDigit = true := fun _ => isDigit_of_mem_ofNat
  have hlength : 0 < (ofNat s.digits).length := List.length_pos_iff.mpr (ofNat_ne_nil s.digits)
  by_cases hexponent : 0 ≤ s.exponent
  · refine ⟨ofNat s.digits ++ List.replicate s.exponent.toNat '0', [], ?_, ?_, ?_, ?_, ?_⟩
    · rw [positional, if_pos hexponent, if_pos rfl, List.append_nil]
    · simp [ofNat_ne_nil]
    · rw [List.append_nil]
      exact fun c hc => (List.mem_append.mp hc).elim (hdigits c) isDigit_of_mem_zeros
    · rw [List.append_nil, ofDigits_append_zeros, ofDigits_ofNat]
    · rw [List.length_nil]
      omega
  have hzero : s.exponent.toNat = 0 := by omega
  generalize hplaces : (-s.exponent).toNat = places
  have hpos : 0 < places := by omega
  by_cases hinside : places < (ofNat s.digits).length
  · -- A point among the digits.
    have hcut : (ofNat s.digits).length - places ≠ 0 := by omega
    have hpoint : (ofNat s.digits).drop ((ofNat s.digits).length - places) ≠ [] := by
      rw [Ne, List.drop_eq_nil_iff]
      omega
    refine ⟨(ofNat s.digits).take ((ofNat s.digits).length - places),
      (ofNat s.digits).drop ((ofNat s.digits).length - places), ?_, ?_, ?_, ?_, ?_⟩
    · rw [positional, if_neg hexponent]
      simp only [hplaces, if_pos hinside, if_neg hpoint]
    · rw [Ne, List.take_eq_nil_iff, not_or]
      exact ⟨hcut, ofNat_ne_nil _⟩
    · rw [List.take_append_drop]
      exact hdigits
    · rw [List.take_append_drop, ofDigits_ofNat, hzero, Nat.pow_zero, Nat.mul_one]
    · rw [List.length_drop]
      omega
  · -- A point in front of the digits, with zeros behind it.
    have hpoint : List.replicate (places - (ofNat s.digits).length) '0' ++ ofNat s.digits ≠ [] := by
      simp [ofNat_ne_nil]
    refine ⟨['0'], List.replicate (places - (ofNat s.digits).length) '0' ++ ofNat s.digits, ?_,
      List.cons_ne_nil _ _, ?_, ?_, ?_⟩
    · rw [positional, if_neg hexponent]
      simp only [hplaces, if_neg hinside, if_neg hpoint]
      rfl
    · rw [List.forall_mem_append, List.forall_mem_append]
      exact ⟨List.forall_mem_singleton.mpr rfl, fun _ => isDigit_of_mem_zeros, hdigits⟩
    · rw [hzero, Nat.pow_zero, Nat.mul_one]
      exact (ofDigits_zeros_append 1 _).trans
        ((ofDigits_zeros_append _ _).trans (ofDigits_ofNat _))
    · rw [List.length_append, List.length_replicate]
      omega

/-- Digits in positional notation denote the number with their places. -/
theorem IsPositional.value_eq {s : Scientific} {whole fraction : Text}
    (h : s.IsPositional whole fraction) :
    (ofDigits 10 (whole ++ fraction) : ℚ) * 10 ^ (-(fraction.length : Int)) = s.value := by
  rw [h.denotes, h.length, value]
  obtain ⟨k, hk | hk⟩ := s.exponent.eq_nat_or_neg
  · rw [hk, Int.toNat_natCast, Int.toNat_neg_natCast, zpow_natCast]
    simp
  · rw [hk, Int.toNat_neg_natCast, neg_neg, Int.toNat_natCast]
    simp

end Positional

end Numeric.Scientific

end DataPipeline
