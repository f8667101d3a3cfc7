import Mathlib.Algebra.Order.Field.Power
import Mathlib.Algebra.Order.Ring.Abs
import Mathlib.Data.Rat.Cast.Order
import Mathlib.Tactic.FieldSimp
import Mathlib.Tactic.Linarith
import Mathlib.Tactic.LinearCombination
import Mathlib.Tactic.NormNum
import Mathlib.Tactic.Positivity
import Mathlib.Tactic.Ring
import Mathlib.Tactic.Zify

/-!
# Decimals near midpoints

Between two numbers of 32 bits lies a midpoint, an integer times a power of two. A
decimal of few digits is either equal to a midpoint or stays away from it: their
distance is an integer combination of two powers, and two fractions that enclose the
quotient of the powers bound how small it gets. The fractions are searched for, and
only what they must satisfy is proved. There is one exception.
-/

namespace DataPipeline.Numeric

/-- Two fractions with a number between them. -/
structure Bracket where
  /-- The numerator of the lower fraction. -/
  lowerNum : Nat
  /-- The denominator of the lower fraction. -/
  lowerDen : Nat
  /-- The numerator of the upper fraction. -/
  upperNum : Nat
  /-- The denominator of the upper fraction. -/
  upperDen : Nat
  deriving DecidableEq

namespace Bracket

/-- Neighbouring fractions that enclose a quotient, such that a multiple of the
quotient with a factor below the sum of their denominators is not close to an integer
below the multiple of the lower fraction. -/
def ClearsBelow (b : Bracket) (num den bound scale : Nat) : Prop :=
  b.upperNum * b.lowerDen = b.lowerNum * b.upperDen + 1 ∧ 0 < b.lowerDen ∧ 0 < b.upperDen ∧
    b.upperDen * num ≤ b.upperNum * den ∧
    bound * den ≤ (b.lowerDen + b.upperDen) * num ∧
    scale * (b.lowerNum * den) + den < scale * (b.lowerDen * num)

/-- The same above the multiple of the upper fraction. -/
def ClearsAbove (b : Bracket) (num den scale : Nat) : Prop :=
  scale * (b.upperDen * num) + den < scale * (b.upperNum * den)

instance (b : Bracket) (num den bound scale : Nat) :
    Decidable (b.ClearsBelow num den bound scale) :=
  inferInstanceAs (Decidable (_ ∧ _))

instance (b : Bracket) (num den scale : Nat) : Decidable (b.ClearsAbove num den scale) :=
  inferInstanceAs (Decidable (_ < _))

variable {b : Bracket} {num den bound scale d m : Nat}

/-- A multiple that is close to an integer is one of the upper fraction: the factor and
the integer are combinations of the denominators and of the numerators, and only those
of the upper fraction alone are small and close enough. -/
theorem exists_multiple_of_close {p q p' q' x y d m : ℤ} (hdet : p' * q = p * q' + 1)
    (hq : 0 < q) (hq' : 0 < q') (hupper : q' * x ≤ p' * y) (hd : 0 < d) (hfew : d < q + q')
    (hclose : |d * x - m * y| < q * x - p * y) : ∃ k, 0 < k ∧ d = k * q' ∧ m = k * p' := by
  obtain ⟨hbelow, habove⟩ := abs_lt.mp hclose
  have hlower : 0 < q * x - p * y := (abs_nonneg _).trans_lt hclose
  have hdEq : d = (p' * d - q' * m) * q + (q * m - p * d) * q' := by
    linear_combination -d * hdet
  have hmEq : m = (p' * d - q' * m) * p + (q * m - p * d) * p' := by
    linear_combination -m * hdet
  have hdistance : d * x - m * y =
      (p' * d - q' * m) * (q * x - p * y) - (q * m - p * d) * (p' * y - q' * x) := by
    linear_combination -(d * x - m * y) * hdet
  generalize p' * d - q' * m = a at hdEq hmEq hdistance
  generalize q * m - p * d = c at hdEq hmEq hdistance
  rw [hdistance] at hbelow habove
  rcases lt_or_ge 0 c with hc | hc
  · rcases lt_trichotomy a 0 with ha | rfl | ha
    · nlinarith only [hbelow, ha, hc, hlower, hupper]
    · exact ⟨c, hc, by rw [hdEq, zero_mul, zero_add], by rw [hmEq, zero_mul, zero_add]⟩
    · nlinarith only [hdEq, hfew, ha, hc, hq, hq']
  · have ha : 0 < a := by
      by_contra ha
      nlinarith only [hdEq, hd, ha, hc, hq, hq']
    nlinarith only [habove, ha, hc, hlower, hupper]

/-- The same for a bracket. -/
theorem ClearsBelow.exists_multiple (h : b.ClearsBelow num den bound scale) (hnum : 0 < num)
    (hd : 0 < d) (hbound : d * num < bound * den)
    (hclose : scale * |(d * num - m * den : Int)| ≤ den) :
    ∃ k : Nat, 0 < k ∧ d = k * b.upperDen ∧ m = k * b.upperNum := by
  obtain ⟨hdet, hlowerDen, hupperDen, hupper, hlimit, hlower⟩ := h
  have hfew : d < b.lowerDen + b.upperDen := lt_of_mul_lt_mul_right (hbound.trans_le hlimit) hnum.le
  have hscale : (0 : Int) ≤ scale := Int.natCast_nonneg _
  zify at hdet hlowerDen hupperDen hupper hlower hd hfew
  have hgap : |(d * num - m * den : Int)| < b.lowerDen * num - b.lowerNum * den := by
    refine lt_of_mul_lt_mul_left ?_ hscale
    linarith
  obtain ⟨k, hk, hdEq, hmEq⟩ :=
    exists_multiple_of_close hdet hlowerDen hupperDen hupper hd hfew hgap
  obtain ⟨k, rfl⟩ := Int.eq_ofNat_of_zero_le hk.le
  exact ⟨k, by exact_mod_cast hk, by exact_mod_cast hdEq, by exact_mod_cast hmEq⟩

/-- If also the upper fraction is far enough, no multiple is close. -/
theorem ClearsBelow.not_close (h : b.ClearsBelow num den bound scale)
    (habove : b.ClearsAbove num den scale) (hnum : 0 < num) (hd : 0 < d)
    (hbound : d * num < bound * den) : ¬scale * |(d * num - m * den : Int)| ≤ den := by
  intro hclose
  obtain ⟨k, hk, rfl, rfl⟩ := h.exists_multiple hnum hd hbound hclose
  have hscale : (0 : Int) ≤ scale := Int.natCast_nonneg _
  rw [ClearsAbove] at habove
  zify at habove hk
  have hgap : ((b.upperNum * den - b.upperDen * num : Int)) ≤
      |((k * b.upperDen : Nat) * num - (k * b.upperNum : Nat) * den : Int)| := by
    push_cast
    refine le_trans ?_ (neg_le_abs _)
    have hone : (1 : Int) ≤ k := hk
    have hpos : (0 : Int) ≤ b.upperNum * den - b.upperDen * num := by
      by_contra hneg
      nlinarith only [habove, hneg, hscale]
    nlinarith only [hone, hpos]
  have hscaled := mul_le_mul_of_nonneg_left hgap hscale
  linarith

/-- The bracket with the neighbouring integers of a quotient, narrowed as long as the sum
of the denominators is within a limit. The fraction that is farther away moves. -/
def narrow (num den limit : Nat) : Nat → Bracket → Bracket
  | 0, b => b
  | rounds + 1, b =>
    if limit < b.lowerDen + b.upperDen then b
    else
      let room := limit - b.lowerDen - b.upperDen
      let below := b.lowerDen * num - b.lowerNum * den
      let above := b.upperNum * den - b.upperDen * num
      if above ≤ below then
        let times := min (below / above) (room / b.upperDen + 1)
        narrow num den limit rounds
          { b with
            lowerNum := b.lowerNum + times * b.upperNum
            lowerDen := b.lowerDen + times * b.upperDen }
      else
        let times := min (above / below) (room / b.lowerDen + 1)
        narrow num den limit rounds
          { b with
            upperNum := b.upperNum + times * b.lowerNum
            upperDen := b.upperDen + times * b.lowerDen }

end Bracket

section Grids

/-- The bound of the integers that midpoints are multiples of. -/
def midpointLimit : Nat := 0x2000000

/-- What part of half a unit is the distance within which a midpoint is met. -/
def midpointScale : Nat := 0x20000000

/-- The exponent of the finest grid on which the shortest digits of numbers at an
exponent of two can be found. -/
def gridExponent (exponent : Int) : Int := -(-exponent * 30103 / 100000)

/-- The numerator of a unit of the grid, counted in half units of the last bit. -/
def gridNum (exponent : Int) : Nat :=
  Nat.pow 5 (gridExponent exponent).toNat *
    Nat.pow 2 (gridExponent exponent - exponent + 1).toNat

/-- The denominator of a unit of the grid, counted in half units of the last bit. -/
def gridDen (exponent : Int) : Nat :=
  Nat.pow 5 (-gridExponent exponent).toNat *
    Nat.pow 2 (-(gridExponent exponent - exponent + 1)).toNat

/-- Fractions that enclose a unit of the grid. -/
def gridBracket (exponent : Int) : Bracket :=
  let num := gridNum exponent
  let den := gridDen exponent
  Bracket.narrow num den (midpointLimit * den / num + 1) 32 ⟨num / den, 1, num / den + 1, 1⟩

/-- The exponent of two at which a decimal meets a midpoint. -/
def exceptionalExponent : Int := -107

/-- What the fractions satisfy: no coarser grid is taken for a finer one, and either the
unit of the grid has a small denominator or no multiple of it is close to an integer. At
one exponent multiples of the upper fraction may be. -/
def IsCleared (exponent : Int) : Prop :=
  midpointScale * gridNum exponent < 20 * gridDen exponent * (midpointScale - 1) ∧
    (gridDen exponent < midpointScale ∨
      (gridBracket exponent).ClearsBelow (gridNum exponent) (gridDen exponent) midpointLimit
          midpointScale ∧
        ((gridBracket exponent).ClearsAbove (gridNum exponent) (gridDen exponent) midpointScale ∨
          exponent = exceptionalExponent))

instance (exponent : Int) : Decidable (IsCleared exponent) := inferInstanceAs (Decidable (_ ∧ _))

/-- The fractions of all exponents of 32 bits satisfy it. -/
theorem isCleared {exponent : Int} (hmin : -149 ≤ exponent) (hmax : exponent ≤ 104) :
    IsCleared exponent := by
  have hall : ∀ k < 254, IsCleared ((k : Nat) - 149) := by decide +kernel
  have hexponent : exponent = (exponent + 149).toNat - 149 := by omega
  rw [hexponent]
  exact hall _ (by omega)

/-- A power is a quotient of powers with natural exponents. -/
theorem pow_toNat_mul {x : ℚ} (hx : x ≠ 0) (n : Int) :
    x ^ n.toNat = x ^ n * x ^ (-n).toNat := by
  obtain ⟨k, rfl | rfl⟩ := n.eq_nat_or_neg
  · rw [Int.toNat_natCast, Int.toNat_neg_natCast, zpow_natCast, pow_zero, mul_one]
  · rw [Int.toNat_neg_natCast, neg_neg, Int.toNat_natCast, zpow_neg, zpow_natCast, pow_zero,
      inv_mul_cancel₀ (pow_ne_zero _ hx)]

/-- A unit of the grid in half units of the last bit. -/
theorem gridNum_mul (exponent : Int) :
    (gridNum exponent : ℚ) * 2 ^ (exponent - 1) =
      gridDen exponent * 10 ^ gridExponent exponent := by
  have hfive := pow_toNat_mul (by norm_num : (5 : ℚ) ≠ 0) (gridExponent exponent)
  have htwo := pow_toNat_mul (by norm_num : (2 : ℚ) ≠ 0) (gridExponent exponent - exponent + 1)
  have hten : (10 : ℚ) ^ gridExponent exponent =
      5 ^ gridExponent exponent * 2 ^ gridExponent exponent := by
    rw [←mul_zpow]
    norm_num
  have hunit : (2 : ℚ) ^ (gridExponent exponent - exponent + 1) * 2 ^ (exponent - 1) =
      2 ^ gridExponent exponent := by
    rw [←zpow_add₀ (by norm_num)]
    congr 1
    ring
  rw [gridNum, gridDen, Nat.pow_eq, Nat.pow_eq, Nat.pow_eq, Nat.pow_eq]
  push_cast
  rw [hfive, htwo, hten, ←hunit]
  ring

theorem gridNum_pos (exponent : Int) : 0 < gridNum exponent :=
  Nat.mul_pos (Nat.pow_pos (by decide)) (Nat.pow_pos (by decide))

theorem gridDen_pos (exponent : Int) : 0 < gridDen exponent :=
  Nat.mul_pos (Nat.pow_pos (by decide)) (Nat.pow_pos (by decide))

variable {exponent : Int}

/-- No coarser grid than the one of an exponent is taken for a finer one. -/
theorem gridExponent_le (hcleared : IsCleared exponent) {grid : Int}
    (hgrid : (2 : ℚ) ^ exponent - 2 ^ (exponent - 29) ≤ 10 ^ grid) :
    gridExponent exponent ≤ grid := by
  by_contra hlt
  have hden : (0 : ℚ) < gridDen exponent := by exact_mod_cast gridDen_pos exponent
  have hunit : (0 : ℚ) < 2 ^ (exponent - 1) := by positivity
  have hle : (10 : ℚ) ^ grid ≤ 10 ^ (gridExponent exponent - 1) :=
    zpow_le_zpow_right₀ (by norm_num) (by omega)
  have hratio := gridNum_mul exponent
  have hcheck := hcleared.1
  have hcheck : (0x20000000 : ℚ) * gridNum exponent <
      20 * gridDen exponent * (0x20000000 - 1) := by
    have hscale : ((midpointScale - 1 : Nat) : ℚ) = 0x20000000 - 1 := by
      rw [midpointScale]
      norm_num
    rw [←hscale]
    exact_mod_cast hcheck
  have hexponent : (2 : ℚ) ^ exponent = 2 * 2 ^ (exponent - 1) := by
    rw [←zpow_one_add₀ (by norm_num)]
    congr 1
    ring
  have hsmall : (2 : ℚ) ^ (exponent - 29) = 2 * 2 ^ (exponent - 1) / 0x20000000 := by
    rw [←hexponent, zpow_sub₀ (by norm_num)]
    norm_num
  have hten : (10 : ℚ) ^ gridExponent exponent = 10 * 10 ^ (gridExponent exponent - 1) := by
    rw [←zpow_one_add₀ (by norm_num)]
    congr 1
    ring
  rw [hexponent, hsmall] at hgrid
  rw [hten] at hratio
  generalize (10 : ℚ) ^ (gridExponent exponent - 1) = ten at hratio hle
  generalize (2 : ℚ) ^ (exponent - 1) = unit at hratio hunit hgrid
  nlinarith only [hratio, hle, hgrid, hcheck, hunit, hden]

variable {digits m : Nat} {grid : Int}

/-- Counted on the grid of its exponent, a decimal is close to a midpoint if a multiple of
the unit of the grid is close to an integer. -/
theorem exists_close_multiple (hcleared : IsCleared exponent)
    (hgrid : (2 : ℚ) ^ exponent - 2 ^ (exponent - 29) ≤ 10 ^ grid)
    (hne : (digits * 10 ^ grid : ℚ) ≠ m * 2 ^ (exponent - 1))
    (hclose : |(digits * 10 ^ grid : ℚ) - m * 2 ^ (exponent - 1)| ≤ 2 ^ (exponent - 30)) :
    ∃ d : Nat, (d * gridNum exponent - m * gridDen exponent : Int) ≠ 0 ∧
      midpointScale * |(d * gridNum exponent - m * gridDen exponent : Int)| ≤
        gridDen exponent := by
  obtain ⟨k, rfl⟩ := Int.le.dest (gridExponent_le hcleared hgrid)
  have hden : (0 : ℚ) < gridDen exponent := by exact_mod_cast gridDen_pos exponent
  have hunit : (0 : ℚ) < 2 ^ (exponent - 1) := by positivity
  have hratio := gridNum_mul exponent
  have hdifference : ((digits * 10 ^ k : Nat) * gridNum exponent - m * gridDen exponent : ℚ) *
      2 ^ (exponent - 1) =
      gridDen exponent * (digits * 10 ^ (gridExponent exponent + k) - m * 2 ^ (exponent - 1)) := by
    rw [zpow_add₀ (by norm_num), zpow_natCast]
    push_cast
    linear_combination (digits * 10 ^ k : ℚ) * hratio
  have hsmall : (2 : ℚ) ^ (exponent - 30) = 2 ^ (exponent - 1) / 0x20000000 := by
    rw [show exponent - 30 = exponent - 1 - 29 by ring, zpow_sub₀ (by norm_num)]
    norm_num
  refine ⟨digits * 10 ^ k, fun hzero => hne ?_, ?_⟩
  · have hzero : ((digits * 10 ^ k : Nat) * gridNum exponent - m * gridDen exponent : ℚ) = 0 := by
      exact_mod_cast hzero
    rw [hzero, zero_mul, eq_comm, mul_eq_zero, or_iff_right hden.ne', sub_eq_zero] at hdifference
    exact hdifference
  · have habs := congrArg abs hdifference
    rw [abs_mul, abs_mul, abs_of_pos hunit, abs_of_pos hden] at habs
    rw [hsmall] at hclose
    have hcast : (0x20000000 : ℚ) *
        |((digits * 10 ^ k : Nat) * gridNum exponent - m * gridDen exponent : ℚ)| ≤
        gridDen exponent := by
      refine le_of_mul_le_mul_right ?_ hunit
      rw [mul_assoc, habs]
      nlinarith only [hclose, hden]
    exact_mod_cast hcast

/-- A multiple that is close to an integer below the limit is a small and positive one. -/
theorem bounds_of_close {num den d m scale limit : Nat} (hscale : 1 < scale)
    (hm : m < limit) (hne : (d * num - m * den : Int) ≠ 0)
    (hclose : scale * |(d * num - m * den : Int)| ≤ den) : 0 < d ∧ d * num < limit * den := by
  have hless : |(d * num - m * den : Int)| < den := by
    have hpos := abs_pos.mpr hne
    zify at hscale
    nlinarith only [hclose, hpos, hscale]
  obtain ⟨hbelow, habove⟩ := abs_lt.mp hless
  constructor
  · rcases Nat.eq_zero_or_pos d with rfl | hd
    · exfalso
      rcases Nat.eq_zero_or_pos m with rfl | hm
      · simp at hne
      · zify at hm
        push_cast at hbelow
        nlinarith only [hbelow, hm]
    · exact hd
  · have hlimit : (m + 1) * den ≤ limit * den := Nat.mul_le_mul_right _ hm
    zify at hlimit ⊢
    linarith

/-- A decimal whose grid is about as coarse as a unit of the last bit is a midpoint or is
not close to one, except for one midpoint at one exponent. -/
theorem eq_exceptional_of_close (hmin : -149 ≤ exponent) (hmax : exponent ≤ 104)
    (hm : m < midpointLimit) (hgrid : (2 : ℚ) ^ exponent - 2 ^ (exponent - 29) ≤ 10 ^ grid)
    (hne : (digits * 10 ^ grid : ℚ) ≠ m * 2 ^ (exponent - 1))
    (hclose : |(digits * 10 ^ grid : ℚ) - m * 2 ^ (exponent - 1)| ≤ 2 ^ (exponent - 30)) :
    exponent = exceptionalExponent ∧ m = 22841339 := by
  have hcleared := isCleared hmin hmax
  obtain ⟨d, hdNe, hdClose⟩ := exists_close_multiple hcleared hgrid hne hclose
  obtain ⟨hd, hbound⟩ := bounds_of_close (by decide) hm hdNe hdClose
  rcases hcleared.2 with hsmall | ⟨hbelow, habove | hexception⟩
  · -- An integer whose multiple by the scale is below the scale is zero.
    have hone := Int.one_le_abs hdNe
    zify at hsmall
    nlinarith only [hdClose, hsmall, hone, Int.natCast_nonneg midpointScale]
  · exact absurd hdClose (hbelow.not_close habove (gridNum_pos exponent) hd hbound)
  · obtain ⟨k, hk, -, hmultiple⟩ :=
      hbelow.exists_multiple (gridNum_pos exponent) hd hbound hdClose
    have hupper : (gridBracket exceptionalExponent).upperNum = 22841339 := by decide +kernel
    rw [hexception, hupper] at hmultiple
    refine ⟨hexception, ?_⟩
    rw [midpointLimit] at hm
    omega

end Grids

end DataPipeline.Numeric
