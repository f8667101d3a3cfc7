import DataPipeline.Numeric.Binary
import DataPipeline.Proofs.Numeric.DecimalText
import Mathlib.Data.Rat.Floor
import Mathlib.Tactic.Linarith

/-!
# Whole parts of numbers

The whole part of a rational number is the integer that is left when it is cut
toward zero. A finite binary number denotes a rational by its significand and
its exponent, and a decimal by its digits and its scale; for both the integer
part that is computed with natural numbers is the whole part of what they
denote. A decimal has one within 64 bits exactly if its whole part fits.
-/

namespace DataPipeline.Numeric

/-- The integers of a signed word. -/
def InWord (bits : Nat) (n : Int) : Prop := -2 ^ (bits - 1) ≤ n ∧ n < 2 ^ (bits - 1)

instance (bits : Nat) (n : Int) : Decidable (InWord bits n) :=
  inferInstanceAs (Decidable (_ ∧ _))

/-- An integer fits a signed word exactly if it lies in its range. -/
theorem fitsSigned_iff {bits : Nat} {n : Int} : fitsSigned bits n = true ↔ InWord bits n := by
  have hsize : (wordSize (bits - 1) : Int) = 2 ^ (bits - 1) := Int.natCast_pow 2 (bits - 1)
  rw [fitsSigned, Bool.and_eq_true, decide_eq_true_eq, decide_eq_true_eq, hsize, InWord]

/-- A wider word has all integers of a narrower one. -/
theorem InWord.mono {bits more : Nat} (h : bits ≤ more) {n : Int} (hn : InWord bits n) :
    InWord more n :=
  fitsSigned_iff.mp (fitsSigned_mono h (fitsSigned_iff.mpr hn))

/-- The whole part of a number, cut toward zero. -/
def towardZero (x : ℚ) : Int := if 0 ≤ x then ⌊x⌋ else ⌈x⌉

/-- An integer has no fraction to cut off. -/
theorem towardZero_intCast (n : Int) : towardZero n = n := by
  rw [towardZero]
  split
  · exact Int.floor_intCast n
  · exact Int.ceil_intCast n

/-- Cutting off the fraction does not look at the sign. -/
theorem towardZero_neg (x : ℚ) : towardZero (-x) = -towardZero x := by
  rw [towardZero, towardZero]
  rcases lt_trichotomy x 0 with h | rfl | h
  · rw [if_pos (by linarith), if_neg (by linarith), Int.floor_neg]
  · simp
  · rw [if_neg (by linarith), if_pos h.le, Int.ceil_neg]

/-- The whole part of a quotient of numbers is their division. -/
theorem towardZero_natDiv (m d : Nat) : towardZero (m / d) = (m / d : Nat) := by
  have hnonneg : (0 : ℚ) ≤ m / d := by positivity
  have hfloor := Rat.floor_intCast_div_natCast m d
  rw [Int.cast_natCast] at hfloor
  rw [towardZero, if_pos hnonneg, hfloor, Int.natCast_ediv]

/-- The whole part of a quotient is the quotient of integers toward zero. -/
theorem towardZero_div (n : Int) (d : Nat) : towardZero (n / d) = n.tdiv d := by
  obtain ⟨m, rfl | rfl⟩ := n.eq_nat_or_neg
  · rw [Int.cast_natCast, towardZero_natDiv, Int.ofNat_tdiv]
  · rw [Int.cast_neg, neg_div, towardZero_neg, Int.cast_natCast, towardZero_natDiv, Int.neg_tdiv,
      Int.ofNat_tdiv]

/-- A quotient that is scaled by a power of a base is multiplied by it. -/
theorem scaleBy_quotient {base : Nat} (hbase : base ≠ 0) (exponent : Int) (num den : Nat) :
    ((scaleBy base exponent num den).1 : ℚ) / (scaleBy base exponent num den).2 =
      num / den * (base : ℚ) ^ exponent := by
  have hne : (base : ℚ) ≠ 0 := by exact_mod_cast hbase
  rw [scaleBy]
  split
  · next h =>
    obtain ⟨k, rfl⟩ := Int.eq_ofNat_of_zero_le h
    rw [Int.toNat_natCast, Nat.pow_eq, zpow_natCast]
    push_cast
    ring
  · next h =>
    obtain ⟨k, hk⟩ := Int.eq_ofNat_of_zero_le (show 0 ≤ -exponent by omega)
    obtain rfl : exponent = -k := by omega
    rw [neg_neg, Int.toNat_natCast, Nat.pow_eq, zpow_neg, zpow_natCast]
    push_cast
    field_simp

/-- A sign is a factor of one or minus one. -/
theorem cast_signed (negative : Bool) (n : Nat) :
    (Decimal.signed negative n : ℚ) = (if negative then -1 else 1) * n := by
  rw [Decimal.signed]
  split <;> simp

/-- The whole part of a number with a sign has the sign. -/
theorem towardZero_signed {n k : Nat} {y : ℚ} (negative : Bool) (h : towardZero (n * y) = k) :
    towardZero (Decimal.signed negative n * y) = Decimal.signed negative k := by
  cases negative with
  | false => exact h
  | true =>
    rw [cast_signed, if_pos rfl, neg_one_mul, neg_mul, towardZero_neg, h]
    rfl

/-- The number that a view of a bit pattern stands for. -/
def FloatView.value? : FloatView → Option ℚ
  | .finite negative significand exponent =>
    some (Decimal.signed negative significand * (2 : ℚ) ^ exponent)
  | _ => none

/-- The number that a finite binary number denotes. -/
def Binary.value? {f : Format} (x : Binary f) : Option ℚ := x.view.value?

/-- The integer part of a binary number is the whole part of what it denotes. -/
theorem Binary.truncate?_eq {f : Format} (x : Binary f) :
    x.truncate? = x.value?.map towardZero := by
  rw [truncate?, value?]
  cases x.view with
  | nan => rfl
  | infinite => rfl
  | finite negative significand exponent =>
    have hquotient := scaleBy_quotient (by decide : 2 ≠ 0) exponent significand 1
    rw [Nat.cast_one, div_one, Nat.cast_ofNat] at hquotient
    have hwhole : towardZero (significand * (2 : ℚ) ^ exponent) =
        ((scaleBy 2 exponent significand 1).1 / (scaleBy 2 exponent significand 1).2 : Nat) := by
      rw [←hquotient, towardZero_natDiv]
    rw [FloatView.value?, Option.map_some, towardZero_signed negative hwhole]
    rfl

namespace Decimal

open Text

/-- A number is below the power of ten with as many zeros as it has digits. -/
theorem lt_pow_digitCount (n : Nat) : n < 10 ^ digitCount n :=
  (Nat.length_toDigits_le_iff (by decide) (List.length_pos_of_ne_nil (ofNat_ne_nil n))).mp
    (Nat.le_refl _)

/-- A decimal without places denotes its integer with zeros behind it. -/
theorem value_of_scale_nonpos {d : Decimal} {k : Nat} (h : d.scale = -k) :
    d.value = (d.unscaled * 10 ^ k : Int) := by
  rw [value, h, neg_neg, zpow_natCast]
  push_cast
  rfl

/-- A scale from zero on counts decimal places. -/
theorem value_of_scale_natCast {d : Decimal} {k : Nat} (h : d.scale = k) :
    d.value = d.unscaled / (10 ^ k : Nat) := by
  rw [value, h, zpow_neg, zpow_natCast, div_eq_mul_inv]
  push_cast
  rfl

/-- Integers with nineteen zeros or more do not fit 64 bits. -/
theorem not_inWord_mul_pow {n : Int} (hn : n ≠ 0) {k : Nat} (hk : 19 ≤ k) :
    ¬InWord 64 (n * 10 ^ k) := by
  have hlarge : (10 ^ 19 : Nat) ≤ 10 ^ k := Nat.pow_le_pow_right (by decide) hk
  have habs : 10 ^ k ≤ (n * 10 ^ k).natAbs := by
    rw [Int.natAbs_mul, Int.natAbs_pow]
    exact Nat.le_mul_of_pos_left _ (Int.natAbs_pos.mpr hn)
  rw [InWord]
  omega

/-- A decimal has an integer part within 64 bits exactly if the whole part of the
number that it denotes fits them. -/
theorem toLong?_eq (d : Decimal) :
    d.toLong? = if InWord 64 (towardZero d.value) then some (towardZero d.value) else none := by
  have hlong : ∀ n : Int, (if fitsSigned 64 n then some n else none) =
      if InWord 64 n then some n else none := fun n => by
    simp only [fitsSigned_iff]
  rw [toLong?, hlong]
  by_cases hscale : d.scale ≤ 0
  · obtain ⟨k, hk⟩ : ∃ k : Nat, d.scale = -k := ⟨(-d.scale).toNat, by omega⟩
    rw [if_pos hscale, value_of_scale_nonpos hk, towardZero_intCast, hk, neg_neg, Int.toNat_natCast,
      Nat.pow_eq]
    push_cast
    by_cases hzero : d.unscaled = 0
    · rw [hzero, zero_mul, zero_mul]
    · rcases le_total k 19 with hle | hle
      · rw [min_eq_left hle]
      · rw [min_eq_right hle, if_neg (not_inWord_mul_pow hzero le_rfl),
          if_neg (not_inWord_mul_pow hzero hle)]
  · obtain ⟨k, hk⟩ : ∃ k : Nat, d.scale = k := ⟨d.scale.toNat, by omega⟩
    rw [if_neg hscale, value_of_scale_natCast hk, towardZero_div, hk, Int.toNat_natCast, Nat.pow_eq]
    split
    · next hcount =>
      -- Without digits before the point nothing is left.
      have hlt : d.unscaled.natAbs < 10 ^ k :=
        (lt_pow_digitCount _).trans_le (Nat.pow_le_pow_right (by decide) (by exact_mod_cast hcount))
      have hzero : d.unscaled.tdiv (10 ^ k : Nat) = 0 := by
        rw [←Int.natAbs_eq_zero, Int.natAbs_tdiv, Int.natAbs_natCast]
        exact Nat.div_eq_of_lt hlt
      rw [hzero]
    · rfl

end Decimal

end DataPipeline.Numeric
