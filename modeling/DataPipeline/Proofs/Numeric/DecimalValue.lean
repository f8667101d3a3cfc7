import DataPipeline.Numeric.Decimal
import Mathlib.Algebra.Field.Rat
import Mathlib.Tactic.FieldSimp
import Mathlib.Tactic.NormNum

/-!
# The numbers that decimals denote

A decimal denotes a rational number. Every number that is not zero is denoted
by exactly one decimal whose digits do not end in a zero, and zero by the one
with scale zero, so comparing decimals without their trailing zeros is comparing
numbers. The text that enters a hash depends on the number alone.
-/

namespace DataPipeline.Numeric

open Text

section Digits

theorem ofNat_mul_ten {n : Nat} (h : 0 < n) : ofNat (n * 10) = ofNat n ++ ['0'] := by
  have happend := Nat.toDigits_append_toDigits (b := 10) (d := 0) (by omega) h (by omega)
  rw [Nat.toDigits_zero, Nat.add_zero, Nat.mul_comm] at happend
  exact happend.symm

/-- A power of ten appends its zeros to the digits of a number. -/
theorem ofNat_mul_pow {n : Nat} (h : 0 < n) (k : Nat) :
    ofNat (n * 10 ^ k) = ofNat n ++ List.replicate k '0' := by
  induction k with
  | zero => simp
  | succ k ih =>
    have hpos : 0 < n * 10 ^ k := Nat.mul_pos h (Nat.pow_pos (by omega))
    rw [Nat.pow_succ, ←Nat.mul_assoc, ofNat_mul_ten hpos, ih, List.append_assoc,
      List.replicate_succ']

/-- The last digit of a number is zero only if ten divides it. -/
theorem getLast?_ofNat_ne_zero {n : Nat} (h : ¬10 ∣ n) : (ofNat n).getLast? ≠ some '0' := by
  have hdigit : ∀ d < 10, d ≠ 0 → Nat.digitChar d ≠ '0' := by decide
  have hmod : n % 10 ≠ 0 := fun hzero => h (Nat.dvd_of_mod_eq_zero hzero)
  by_cases hlt : n < 10
  · rw [ofNat, Nat.toDigits_of_lt_base hlt, List.getLast?_singleton, Ne, Option.some.injEq]
    exact hdigit n hlt (by omega)
  · rw [ofNat, Nat.toDigits_of_base_le (by omega) (by omega), List.getLast?_concat, Ne,
      Option.some.injEq]
    exact hdigit (n % 10) (by omega) hmod

theorem ofInt_mul_pow {m : Int} (h : m ≠ 0) (k : Nat) :
    ofInt (m * 10 ^ k) = ofInt m ++ List.replicate k '0' := by
  have habs : (m * 10 ^ k).natAbs = m.natAbs * 10 ^ k := by
    rw [Int.natAbs_mul, Int.natAbs_pow]
    rfl
  have hpow : (0 : Int) < 10 ^ k := by positivity
  have hdigits := ofNat_mul_pow (Int.natAbs_pos.mpr h) k
  rw [ofInt, ofInt, habs, hdigits]
  by_cases hneg : m < 0
  · rw [if_pos hneg, if_pos (Int.mul_neg_of_neg_of_pos hneg hpow), List.cons_append]
  · rw [if_neg hneg, if_neg (by simpa using Int.mul_nonneg (by omega) hpow.le)]

end Digits

namespace Decimal

theorem trailingZeros_mul_pow {n : Nat} (h : 0 < n) (k : Nat) :
    trailingZeros (n * 10 ^ k) = trailingZeros n + k := by
  rw [trailingZeros, ofNat_mul_pow h, List.reverse_append, List.reverse_replicate,
    List.takeWhile_append_of_pos (by simp), List.length_append, List.length_replicate,
    trailingZeros, Nat.add_comm]

theorem trailingZeros_eq_zero {n : Nat} (h : ¬10 ∣ n) : trailingZeros n = 0 := by
  have hlast := getLast?_ofNat_ne_zero h
  rw [←List.head?_reverse] at hlast
  rw [trailingZeros]
  cases hdigits : (ofNat n).reverse with
  | nil => rfl
  | cons c rest =>
    rw [hdigits, List.head?_cons] at hlast
    rw [List.takeWhile_cons_of_neg (by simpa using hlast)]
    rfl

/-- A number is one that ten does not divide, followed by its trailing
zeros. -/
theorem exists_eq_mul_pow_trailingZeros {n : Nat} (h : 0 < n) :
    ∃ m, 0 < m ∧ ¬10 ∣ m ∧ n = m * 10 ^ trailingZeros n := by
  induction n using Nat.strong_induction_on with
  | _ n ih =>
    by_cases hten : 10 ∣ n
    · obtain ⟨q, rfl⟩ := hten
      have hq : 0 < q := by omega
      obtain ⟨m, hm, hnot, heq⟩ := ih q (by omega) hq
      have hzeros : trailingZeros (10 * q) = trailingZeros q + 1 := by
        have hone := trailingZeros_mul_pow hq 1
        rwa [Nat.pow_one, Nat.mul_comm] at hone
      refine ⟨m, hm, hnot, ?_⟩
      rw [hzeros, Nat.pow_succ, ←Nat.mul_assoc, ←heq, Nat.mul_comm]
    · exact ⟨n, h, hten, by rw [trailingZeros_eq_zero hten, Nat.pow_zero, Nat.mul_one]⟩

/-- The number that a decimal denotes. -/
def value (d : Decimal) : ℚ := d.unscaled * (10 : ℚ) ^ (-d.scale)

/-- Without its trailing zeros a decimal other than zero has an integer that ten
does not divide, and a scale that is smaller by the number of these zeros. -/
theorem exists_normalize {d : Decimal} (h : d.unscaled ≠ 0) :
    ∃ m : Int, m ≠ 0 ∧ ¬10 ∣ m ∧ d.unscaled = m * 10 ^ trailingZeros d.unscaled.natAbs ∧
      d.normalize = ⟨m, d.scale - trailingZeros d.unscaled.natAbs⟩ := by
  have hpos : 0 < d.unscaled.natAbs := Int.natAbs_pos.mpr h
  obtain ⟨q, hq, hten, hnat⟩ := exists_eq_mul_pow_trailingZeros hpos
  generalize hk : trailingZeros d.unscaled.natAbs = k at hnat
  have hdvd : ((10 ^ k : Nat) : Int) ∣ d.unscaled :=
    Int.natCast_dvd.mpr ⟨q, by rw [hnat, Nat.mul_comm]⟩
  obtain ⟨m, hm⟩ := hdvd
  have hm0 : m ≠ 0 := by
    rintro rfl
    exact h (by rw [hm, Int.mul_zero])
  have habs : m.natAbs = q := by
    have hpow : 0 < 10 ^ k := Nat.pow_pos (by omega)
    have heq : 10 ^ k * m.natAbs = 10 ^ k * q := by
      rw [Nat.mul_comm _ q, ←hnat, hm, Int.natAbs_mul, Int.natAbs_natCast]
    exact Nat.eq_of_mul_eq_mul_left hpow heq
  have hnot : ¬(10 : Int) ∣ m := by
    intro hdiv
    have hnatdiv := Int.natCast_dvd.mp (show ((10 : Nat) : Int) ∣ m from hdiv)
    rw [habs] at hnatdiv
    exact hten hnatdiv
  have hcast : ((10 ^ k : Nat) : Int) ≠ 0 := by positivity
  refine ⟨m, hm0, hnot, ?_, ?_⟩
  · rw [hm, Int.mul_comm]
    push_cast
    rfl
  · have hdiv : d.unscaled.tdiv ((10 ^ k : Nat) : Int) = m := by
      rw [hm, Int.mul_tdiv_cancel_left m hcast]
    rw [normalize, if_neg h, hk]
    exact congrArg (Decimal.mk · _) hdiv

/-- Dropping trailing zeros keeps the number. -/
theorem value_normalize (d : Decimal) : d.normalize.value = d.value := by
  by_cases h : d.unscaled = 0
  · rw [normalize, if_pos h, value, value, h]
    simp
  · obtain ⟨m, -, -, hunscaled, hnormal⟩ := exists_normalize h
    generalize trailingZeros d.unscaled.natAbs = k at hunscaled hnormal
    have hten : (10 : ℚ) ≠ 0 := by norm_num
    rw [hnormal, value, value, hunscaled, neg_sub, zpow_sub₀ hten, zpow_neg, zpow_natCast]
    push_cast
    field_simp

/-- Two numbers in whose digits no zero can be dropped are written alike. -/
theorem eq_of_value_eq {a b : Decimal} (ha : ¬10 ∣ a.unscaled) (hb : ¬10 ∣ b.unscaled)
    (h : a.value = b.value) : a = b := by
  wlog hle : a.scale ≤ b.scale generalizing a b
  · exact (this hb ha h.symm (by omega)).symm
  obtain ⟨k, hk⟩ := Int.le.dest hle
  have hten : (10 : ℚ) ≠ 0 := by norm_num
  have hrat : (b.unscaled : ℚ) = a.unscaled * 10 ^ k := by
    rw [value, value, zpow_neg, zpow_neg, ←hk, zpow_add₀ hten, zpow_natCast] at h
    field_simp at h
    exact h.symm
  have hint : b.unscaled = a.unscaled * 10 ^ k := by exact_mod_cast hrat
  -- A difference in scale would be a power of ten in the integer of the larger scale.
  have hzero : k = 0 := by
    by_contra hne
    obtain ⟨j, rfl⟩ := Nat.exists_eq_succ_of_ne_zero hne
    exact hb ⟨a.unscaled * 10 ^ j, by rw [hint, pow_succ, ←mul_assoc, mul_comm]⟩
  have hunscaled : b.unscaled = a.unscaled := by rw [hint, hzero, pow_zero, mul_one]
  have hscale : b.scale = a.scale := by omega
  cases a
  cases b
  simp_all

theorem value_eq_zero_iff {d : Decimal} : d.value = 0 ↔ d.unscaled = 0 := by
  have hpow : (10 : ℚ) ^ (-d.scale) ≠ 0 := zpow_ne_zero _ (by norm_num)
  rw [value, mul_eq_zero, or_iff_left hpow, Int.cast_eq_zero]

/-- Decimals compare equal exactly when they denote the same number. -/
theorem same_iff {a b : Decimal} : a.same b = true ↔ a.value = b.value := by
  rw [same, decide_eq_true_iff]
  constructor
  · intro h
    rw [←value_normalize a, h, value_normalize]
  · intro h
    by_cases ha : a.unscaled = 0
    · have hb : b.unscaled = 0 := by rw [←value_eq_zero_iff, ←h, value_eq_zero_iff, ha]
      rw [normalize, normalize, if_pos ha, if_pos hb]
    · have hb : b.unscaled ≠ 0 := by rwa [Ne, ←value_eq_zero_iff, ←h, value_eq_zero_iff]
      obtain ⟨m, -, hm, -, hnormal⟩ := exists_normalize ha
      obtain ⟨n, -, hn, -, hnormal'⟩ := exists_normalize hb
      refine eq_of_value_eq ?_ ?_ ?_
      · rwa [hnormal]
      · rwa [hnormal']
      · rw [value_normalize, value_normalize, h]

/-- The text for a hash has the digits that are left without trailing zeros, and
zeros behind them for a negative scale. -/
theorem hashText_eq (d : Decimal) :
    d.hashText =
      Text.ofInt d.normalize.unscaled ++ List.replicate (-d.normalize.scale).toNat '0' := by
  rw [hashText]
  by_cases h : d.unscaled = 0
  · rw [if_pos h, normalize, if_pos h, h]
    rfl
  · obtain ⟨m, hm, -, hunscaled, hnormal⟩ := exists_normalize h
    rw [if_neg h, hnormal]
    generalize trailingZeros d.unscaled.natAbs = k at hunscaled
    have hdigits : Text.ofInt d.unscaled = Text.ofInt m ++ List.replicate k '0' := by
      rw [hunscaled, ofInt_mul_pow hm]
    rw [hdigits]
    by_cases hscale : 0 ≤ d.scale
    · have hlength : (Text.ofInt m ++ List.replicate k '0').length - min d.scale.toNat k =
          (Text.ofInt m).length + (k - d.scale.toNat) := by
        rw [List.length_append, List.length_replicate]
        omega
      have hzeros : (-(d.scale - k)).toNat = k - d.scale.toNat := by omega
      rw [if_pos hscale, hlength, List.take_length_add_append, List.take_replicate, hzeros]
      congr 2
      omega
    · have hzeros : (-(d.scale - k)).toNat = k + (-d.scale).toNat := by omega
      rw [if_neg hscale, List.append_assoc, List.replicate_append_replicate, hzeros]

/-- Equal decimals enter a hash alike. -/
theorem hashText_congr {a b : Decimal} (h : a.same b = true) : a.hashText = b.hashText := by
  rw [same, decide_eq_true_iff] at h
  rw [hashText_eq, hashText_eq, h]

end Decimal

end DataPipeline.Numeric
