import DataPipeline.Proofs.Numeric.MidpointDistance
import DataPipeline.Proofs.Numeric.ShortestText

/-!
# Shortest digits through 64 bits

The shortest digits of a number of 32 bits are rounded to it. If they are rounded to 64
bits first, they stay between its borders, since these are numbers of 64 bits; only an
odd number whose digits end up on a border is then lost. That takes digits very close to
a midpoint, and there is one number with such digits.
-/

namespace DataPipeline.Numeric

open Format Binary

variable {m n : Nat} {x : ℚ}

section Borders

/-- The borders of numbers of 32 bits are numbers of 64 bits. -/
theorem exists_valueAt_border (n : Nat) : ∃ t, double.valueAt t = single.border n := by
  cases n with
  | zero => exact ⟨0, double.valueAt_zero⟩
  | succ n =>
    obtain ⟨-, hlt, -⟩ := single.exists_packed n
    generalize hsignificand : n - single.shift n * single.leading = significand at hlt
    have hleading : single.leading = 0x800000 := by decide
    have hfit : 2 * significand + 1 < 2 ^ double.precision := by
      rw [hleading] at hlt
      exact Nat.lt_of_lt_of_le (by omega : _ < 0x2000000) (by decide)
    have hmin : double.minExponent ≤ single.minExponent + single.shift n - 1 := by
      have hdouble : double.minExponent = -1074 := by decide
      have hsingle : single.minExponent = -149 := by decide
      omega
    obtain ⟨t, ht⟩ := exists_valueAt isProper_double hfit hmin
    refine ⟨t, ?_⟩
    rw [ht, border_succ, valueAt, hsignificand, zpow_sub_one₀ (by norm_num)]
    push_cast
    ring

/-- Rounding to 64 bits does not cross a border of numbers of 32 bits. -/
theorem between_borders (hsingle : single.RoundsTo x n) (hdouble : double.RoundsTo x m) :
    single.border n ≤ double.valueAt m ∧ double.valueAt m ≤ single.border (n + 1) := by
  obtain ⟨lower, hlower⟩ := exists_valueAt_border n
  obtain ⟨upper, hupper⟩ := exists_valueAt_border (n + 1)
  rw [←hlower, ←hupper]
  constructor
  · refine double.valueAt_strictMono.monotone ((RoundsTo.valueAt double lower).mono hdouble ?_)
    exact hlower ▸ hsingle.lower
  · refine double.valueAt_strictMono.monotone (hdouble.mono (RoundsTo.valueAt double upper) ?_)
    exact hupper ▸ hsingle.upper

/-- What is rounded to 64 bits first is rounded to the same number of 32 bits, unless it
gets on a border of an odd one. -/
theorem roundsTo_or_border (hsingle : single.RoundsTo x n) (hdouble : double.RoundsTo x m) :
    single.RoundsTo (double.valueAt m) n ∨
      n % 2 = 1 ∧
        (double.valueAt m = single.border n ∨ double.valueAt m = single.border (n + 1)) := by
  obtain ⟨hlower, hupper⟩ := between_borders hsingle hdouble
  by_cases hborder : double.valueAt m = single.border n ∨ double.valueAt m = single.border (n + 1)
  · rcases Nat.mod_two_eq_zero_or_one n with heven | hodd
    · exact .inl ⟨hlower, hupper, fun _ => heven⟩
    · exact .inr ⟨hodd, hborder⟩
  · exact .inl ⟨hlower, hupper, fun h => absurd h hborder⟩

/-- The step between numbers of 64 bits is small for a number of 32 bits. -/
theorem double_step_le {exponent : Int} (hmin : -149 ≤ exponent)
    (hlt : double.valueAt m < 2 ^ (exponent + 24)) :
    (2 : ℚ) ^ (double.minExponent + double.shift m) ≤ 2 ^ (exponent - 29) := by
  have hdouble : double.minExponent = -1074 := by decide
  refine zpow_le_zpow_right₀ (by norm_num) ?_
  rcases Nat.eq_zero_or_pos (double.shift m) with hzero | hpos
  · omega
  · obtain ⟨-, -, hleading⟩ := double.exists_packed m
    have hlarge : (2 : ℚ) ^ (52 : Int) ≤ (m - double.shift m * double.leading : Nat) := by
      have hcast : double.leading = 2 ^ 52 := by decide
      rw [show (52 : Int) = (52 : Nat) from rfl, zpow_natCast]
      exact_mod_cast hcast ▸ hleading hpos
    have hpow : (2 : ℚ) ^ ((52 : Int) + (double.minExponent + double.shift m)) <
        2 ^ (exponent + 24) := by
      rw [zpow_add₀ (by norm_num)]
      exact (mul_le_mul_of_nonneg_right hlarge (by positivity)).trans_lt hlt
    have hexponent := (zpow_lt_zpow_iff_right₀ (by norm_num)).mp hpow
    omega

end Borders

section Digits

/-- The number whose digits are next to a midpoint: 11420669 times two to the power
minus 107. -/
def exceptionalPattern : Nat := 0x15AE43FD

/-- The borders of an odd number are odd multiples of half a unit of its last bit. -/
theorem exists_border_eq_mul (hodd : n % 2 = 1) {b : ℚ}
    (h : b = single.border n ∨ b = single.border (n + 1)) :
    ∃ k : Nat, (k + 1 = 2 * (n - single.shift n * single.leading) ∨
        k = 2 * (n - single.shift n * single.leading) + 1) ∧
      b = k * 2 ^ (single.minExponent + single.shift n - 1) := by
  have hsignificand := single.significand_pos (show 0 < n by omega)
  have hvalue : single.valueAt n = (n - single.shift n * single.leading : Nat) *
      2 ^ (single.minExponent + single.shift n) := rfl
  generalize n - single.shift n * single.leading = significand at *
  have hunit : (2 : ℚ) ^ (single.minExponent + single.shift n) =
      2 * 2 ^ (single.minExponent + single.shift n - 1) := by
    rw [zpow_sub_one₀ (by norm_num)]
    ring
  rcases h with h | h
  · refine ⟨2 * significand - 1, .inl (by omega), ?_⟩
    rw [h, border_of_odd hasFraction_single hodd, hvalue, hunit, Nat.cast_sub (by omega)]
    push_cast
    ring
  · refine ⟨2 * significand + 1, .inr rfl, ?_⟩
    rw [h, border_succ, hvalue, hunit]
    push_cast
    ring

/-- Both borders of an odd number are half a unit of its last bit away. -/
theorem abs_sub_of_border (hodd : n % 2 = 1) {b : ℚ}
    (h : b = single.border n ∨ b = single.border (n + 1)) :
    |b - single.valueAt n| = 2 ^ (single.minExponent + single.shift n) / 2 := by
  have hunit : (0 : ℚ) < 2 ^ (single.minExponent + single.shift n) := by positivity
  rcases h with rfl | rfl
  · rw [border_of_odd hasFraction_single hodd, abs_sub_comm, sub_sub_cancel,
      abs_of_pos (by linarith)]
  · rw [border_succ, add_sub_cancel_left, abs_of_pos (by linarith)]

/-- What gets on a border is close to it. -/
theorem abs_sub_le_of_border {exponent : Int} (hmin : -149 ≤ exponent) {k : Nat}
    (hk : k < midpointLimit) (hmidpoint : double.valueAt m = k * 2 ^ (exponent - 1))
    (hdouble : double.RoundsTo x m) : |x - double.valueAt m| ≤ 2 ^ (exponent - 30) := by
  have hbelow : double.valueAt m < 2 ^ (exponent + 24) := by
    have hlimit : (k : ℚ) < 2 ^ (25 : Int) := by
      have hcast : ((midpointLimit : Nat) : ℚ) = 2 ^ (25 : Int) := by norm_num [midpointLimit]
      rw [←hcast]
      exact_mod_cast hk
    rw [hmidpoint, show exponent + 24 = 25 + (exponent - 1) by ring, zpow_add₀ (by norm_num)]
    exact mul_lt_mul_of_pos_right hlimit (by positivity)
  refine hdouble.abs_sub_le.trans ?_
  rw [show exponent - 30 = exponent - 29 - 1 by ring, zpow_sub_one₀ (by norm_num),
    ←div_eq_mul_inv]
  exact div_le_div_of_nonneg_right (double_step_le hmin hbelow) (by norm_num)

/-- The digits of an odd number that are close to one of its borders are on a coarse
grid. -/
theorem grid_of_close (hodd : n % 2 = 1) {s : Scientific}
    (hnearest : RoundingInterval.NearestOnGrid single n s) {exponent : Int}
    (hexponent : single.minExponent + single.shift n = exponent) {b : ℚ}
    (hborder : b = single.border n ∨ b = single.border (n + 1))
    (hclose : |s.value - b| ≤ 2 ^ (exponent - 30)) :
    (2 : ℚ) ^ exponent - 2 ^ (exponent - 29) ≤ 10 ^ s.exponent := by
  have hgrid := hnearest.le_grid hasFraction_single hodd
  have hdistance := abs_sub_of_border hodd hborder
  have hfar := abs_sub_le b s.value (single.valueAt n)
  rw [hexponent] at hgrid hdistance
  rw [hdistance, abs_sub_comm] at hfar
  have hsmall : (2 : ℚ) ^ (exponent - 29) = 2 * 2 ^ (exponent - 30) := by
    rw [←zpow_one_add₀ (by norm_num)]
    congr 1
    ring
  have hunit : (0 : ℚ) < 2 ^ (exponent - 30) := by positivity
  rcases hgrid with hgrid | hgrid <;> linarith

/-- The shortest digits of an odd number are next to a border only for the one number
with such digits. -/
theorem eq_exceptional_of_border (hfinite : n < single.infinityBits) (hodd : n % 2 = 1)
    (hdouble : double.RoundsTo (shownDigits single n).value m)
    (hborder : double.valueAt m = single.border n ∨
      double.valueAt m = single.border (n + 1)) : n = exceptionalPattern := by
  have hpos : 0 < n := by omega
  have hnearest := nearestOnGrid_shortest hasFraction_single hpos
  rw [shownDigits, if_neg hpos.ne', Scientific.value_trim] at hdouble
  generalize shortest single _ _ = s at hnearest hdouble
  obtain ⟨k, hk, hmidpoint⟩ := exists_border_eq_mul hodd hborder
  obtain ⟨hpacked, hlt, -⟩ := single.exists_packed n
  have hleading : single.leading = 0x800000 := by decide
  have hmin : single.minExponent = -149 := by decide
  have hshift : single.shift n ≤ 253 := by
    rw [shift, hleading]
    have hinfinity : single.infinityBits = 0x7F800000 := by decide
    omega
  rw [hleading] at hpacked hlt hk
  generalize n - single.shift n * 0x800000 = significand at hpacked hlt hk
  generalize hexponent : single.minExponent + single.shift n = exponent at hmidpoint
  have hlimit : k < midpointLimit := by
    rw [midpointLimit]
    omega
  have hclose := abs_sub_le_of_border (by omega) hlimit hmidpoint hdouble
  have hgrid := grid_of_close hodd hnearest hexponent hborder hclose
  -- The digits are not on the border, since it belongs to an even number.
  have hne : s.value ≠ double.valueAt m := fun heq => by
    have heven := hnearest.rounds.even (heq ▸ hborder)
    omega
  rw [hmidpoint, Scientific.value] at hclose hne
  obtain ⟨hexceptional, rfl⟩ :=
    eq_exceptional_of_close (by omega) (by omega) hlimit hgrid hne hclose
  rw [exceptionalExponent] at hexceptional
  rw [exceptionalPattern]
  omega

/-- What is rounded to a finite number of 32 bits is rounded to a finite one of 64 bits. -/
theorem lt_infinityBits_double (hfinite : n < single.infinityBits) (hsingle : single.RoundsTo x n)
    (hdouble : double.RoundsTo x m) : m < double.infinityBits := by
  rw [←double.valueAt_strictMono.lt_iff_lt, valueAt_infinityBits isProper_double]
  calc double.valueAt m ≤ single.border (n + 1) := (between_borders hsingle hdouble).2
    _ ≤ single.border single.infinityBits := single.border_strictMono.monotone hfinite
    _ < single.valueAt single.infinityBits := single.border_lt_valueAt (by decide)
    _ = 2 ^ (single.exponentLimit : Int) := valueAt_infinityBits isProper_single
    _ < 2 ^ (double.exponentLimit : Int) := zpow_lt_zpow_right₀ (by norm_num) (by decide)

/-- The shortest digits of a finite number are rounded to it through 64 bits, except for
one number. -/
theorem roundsTo_through_double (hfinite : n < single.infinityBits)
    (hdouble : double.RoundsTo (shownDigits single n).value m) (hne : n ≠ exceptionalPattern) :
    single.RoundsTo (double.valueAt m) n := by
  refine (roundsTo_or_border (roundsTo_shownDigits hasFraction_single n) hdouble).resolve_right ?_
  exact fun h => hne (eq_exceptional_of_border hfinite h.1 hdouble h.2)

end Digits

end DataPipeline.Numeric
