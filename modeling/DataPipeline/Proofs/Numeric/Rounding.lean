import DataPipeline.Proofs.Numeric.Representable

/-!
# Rounding by patterns

Below the sign the patterns of a format are consecutive natural numbers, and the
numbers that they stand for increase with them. Halfway between two neighbours
lies a border; a number is rounded to the pattern whose borders enclose it, and
on a border to the even one. So rounding is monotone and has one result. The
rounding of a quotient in the model is this one, with every pattern behind the
last finite one taken for the infinity.
-/

namespace DataPipeline.Numeric

/-- A proper format whose significand has a bit behind the leading one. -/
structure Format.HasFraction (f : Format) : Prop extends f.IsProper where
  /-- There are at least two significant bits. -/
  two_le_precision : 2 ≤ f.precision

/-- The single format has a fraction. -/
theorem hasFraction_single : Format.single.HasFraction := ⟨isProper_single, by decide⟩

/-- The double format has a fraction. -/
theorem hasFraction_double : Format.double.HasFraction := ⟨isProper_double, by decide⟩

namespace Format

open IsProper

variable {f : Format} {field significand m n : Nat}

/-- How far the last bit of a pattern lies above the least one. -/
def shift (f : Format) (n : Nat) : Nat := n / f.leading - 1

/-- The number that a pattern stands for. Behind the last finite pattern the
exponents go on. -/
def valueAt (f : Format) (n : Nat) : ℚ :=
  (n - f.shift n * f.leading : Nat) * 2 ^ (f.minExponent + f.shift n)

/-- The border below a pattern, halfway to the pattern before. -/
def border (f : Format) : Nat → ℚ
  | 0 => 0
  | n + 1 => (f.valueAt n + f.valueAt (n + 1)) / 2

/-- A number lies between the borders of a pattern, and on a border only if the
pattern is even. -/
structure RoundsTo (f : Format) (x : ℚ) (n : Nat) : Prop where
  /-- The number is not below the pattern. -/
  lower : f.border n ≤ x
  /-- The number is not above the pattern. -/
  upper : x ≤ f.border (n + 1)
  /-- Borders belong to even patterns. -/
  even : x = f.border n ∨ x = f.border (n + 1) → n % 2 = 0

section Values

/-- A packed pattern is even exactly if its significand is. -/
theorem packed_mod_two (hf : f.HasFraction) (field significand : Nat) :
    (field * f.leading + significand) % 2 = significand % 2 := by
  obtain ⟨k, hk⟩ := Nat.exists_eq_add_of_le hf.two_le_precision
  have hleading : f.leading = 2 * 2 ^ k := by
    rw [leading, Nat.pow_eq, hk, ←Nat.pow_succ']
    congr 1
    omega
  rw [hleading, Nat.mul_left_comm, Nat.mul_add_mod]

/-- A pattern is a significand packed above an exponent field. -/
theorem exists_packed (f : Format) (n : Nat) :
    n = f.shift n * f.leading + (n - f.shift n * f.leading) ∧
      n - f.shift n * f.leading < 2 * f.leading ∧
      (0 < f.shift n → f.leading ≤ n - f.shift n * f.leading) := by
  have hpos := leading_pos f
  have hdiv := Nat.div_add_mod n f.leading
  have hmod := Nat.mod_lt n hpos
  rw [shift]
  rcases Nat.eq_zero_or_pos (n / f.leading) with hzero | hfield
  · rw [hzero] at hdiv ⊢
    omega
  · obtain ⟨k, hk⟩ := Nat.exists_eq_add_of_lt hfield
    rw [hk, Nat.mul_comm, show 0 + k + 1 = k + 1 by omega, Nat.add_mul] at hdiv
    rw [hk, show 0 + k + 1 - 1 = k by omega]
    omega

/-- A packed pattern stands for its significand at the exponent of its field. The
significand may have carried. -/
theorem valueAt_packed (f : Format) (field significand : Nat) (hle : significand ≤ 2 * f.leading)
    (hleading : 0 < field → f.leading ≤ significand) :
    f.valueAt (field * f.leading + significand) =
      significand * 2 ^ (f.minExponent + field) := by
  have hpos := leading_pos f
  rcases lt_trichotomy significand (2 * f.leading) with hlt | rfl | hgt
  · have hshift : f.shift (field * f.leading + significand) = field := by
      rw [shift, Nat.add_comm, Nat.add_mul_div_right _ _ hpos]
      rcases Nat.lt_or_ge significand f.leading with hsmall | hlarge
      · rw [Nat.div_eq_of_lt hsmall]
        have hzero : ¬0 < field := fun h => absurd (hleading h) (by omega)
        omega
      · have hone : significand / f.leading = 1 := by
          rw [Nat.div_eq_iff hpos]
          omega
        omega
    rw [valueAt, hshift, Nat.add_sub_cancel_left]
  · have hshift : f.shift (field * f.leading + 2 * f.leading) = field + 1 := by
      rw [shift, ←Nat.add_mul, Nat.mul_div_cancel _ hpos]
      omega
    have hrest : field * f.leading + 2 * f.leading - (field + 1) * f.leading = f.leading := by
      rw [←Nat.add_mul, ←Nat.sub_mul]
      simp
    rw [valueAt, hshift, hrest]
    push_cast
    rw [←add_assoc, zpow_add_one₀ (by norm_num)]
    ring
  · omega

/-- The next number is one unit of the last bit away. -/
theorem valueAt_succ (f : Format) (n : Nat) :
    f.valueAt (n + 1) = f.valueAt n + 2 ^ (f.minExponent + f.shift n) := by
  obtain ⟨hpacked, hlt, hleading⟩ := f.exists_packed n
  have hnext := f.valueAt_packed (f.shift n) (n - f.shift n * f.leading + 1) (by omega) (fun h => by
      have hle := hleading h
      omega)
  rw [←add_assoc, ←hpacked] at hnext
  rw [hnext, valueAt]
  push_cast
  ring

/-- Greater patterns have greater values. -/
theorem valueAt_strictMono (f : Format) : StrictMono f.valueAt := by
  refine strictMono_nat_of_lt_succ fun n => ?_
  rw [valueAt_succ]
  exact lt_add_of_pos_right _ (by positivity)

/-- The least pattern has the value zero. -/
theorem valueAt_zero (f : Format) : f.valueAt 0 = 0 := by
  rw [valueAt, Nat.zero_sub, Nat.cast_zero, zero_mul]

/-- Patterns without a sign have values from zero on. -/
theorem valueAt_nonneg (f : Format) (n : Nat) : 0 ≤ f.valueAt n := by
  rw [valueAt]
  positivity

/-- The significand of a pattern above zero is positive. -/
theorem significand_pos (f : Format) (hpos : 0 < n) : 0 < n - f.shift n * f.leading := by
  have hvalue := f.valueAt_strictMono hpos
  rw [valueAt_zero, valueAt] at hvalue
  exact_mod_cast pos_of_mul_pos_left hvalue (by positivity)

/-- Steps do not become smaller. -/
theorem shift_mono (f : Format) (h : m ≤ n) : f.shift m ≤ f.shift n :=
  Nat.sub_le_sub_right (Nat.div_le_div_right h) 1

end Values

section Borders

/-- The next border lies half a step above a value. -/
theorem border_succ (f : Format) (n : Nat) :
    f.border (n + 1) = f.valueAt n + 2 ^ (f.minExponent + f.shift n) / 2 := by
  rw [border, valueAt_succ]
  ring

/-- No value lies below its border. -/
theorem border_le_valueAt (f : Format) (n : Nat) : f.border n ≤ f.valueAt n := by
  cases n with
  | zero => exact f.valueAt_zero.ge
  | succ n =>
    have hlt := f.valueAt_strictMono n.lt_succ_self
    rw [border]
    linarith

/-- Every value lies below the next border. -/
theorem valueAt_lt_border_succ (f : Format) (n : Nat) : f.valueAt n < f.border (n + 1) := by
  rw [border_succ]
  exact lt_add_of_pos_right _ (by positivity)

/-- Greater patterns have greater borders. -/
theorem border_strictMono (f : Format) : StrictMono f.border :=
  strictMono_nat_of_lt_succ fun n => (f.border_le_valueAt n).trans_lt (f.valueAt_lt_border_succ n)

/-- A value above zero lies above its border. -/
theorem border_lt_valueAt (f : Format) (h : 0 < n) : f.border n < f.valueAt n := by
  obtain ⟨k, rfl⟩ := Nat.exists_eq_add_of_lt h
  have hlt := f.valueAt_strictMono (show 0 + k < 0 + k + 1 by omega)
  rw [border]
  linarith

/-- The border above a packed pattern. -/
theorem border_packed (f : Format) (field significand : Nat) (hlt : significand < 2 * f.leading)
    (hleading : 0 < field → f.leading ≤ significand) :
    f.border (field * f.leading + significand + 1) =
      (significand + 1 / 2) * 2 ^ (f.minExponent + field) := by
  have hnext := f.valueAt_packed field (significand + 1) (by omega) (fun h => by
      have hle := hleading h
      omega)
  rw [border, f.valueAt_packed field significand hlt.le hleading, add_assoc, hnext]
  push_cast
  ring

/-- The border below a packed pattern that is not the first one of its field. -/
theorem border_packed_below (f : Format) (field significand : Nat) (hpos : 0 < significand)
    (hle : significand ≤ 2 * f.leading) (hleading : 0 < field → f.leading < significand) :
    f.border (field * f.leading + significand) =
      (significand - 1 / 2) * 2 ^ (f.minExponent + field) := by
  obtain ⟨k, rfl⟩ := Nat.exists_eq_add_of_lt hpos
  have hborder := f.border_packed field (0 + k) (by omega) (fun h => by
    have hlt := hleading h
    omega)
  rw [←Nat.add_assoc, hborder]
  push_cast
  ring

/-- The border below a packed pattern is half a unit away, unless the pattern is zero or
the first one of its field. -/
theorem border_packed_cases (f : Format) (field significand : Nat)
    (hle : significand ≤ 2 * f.leading) (hleading : 0 < field → f.leading ≤ significand) :
    field * f.leading + significand = 0 ∨ 0 < field ∧ significand = f.leading ∨
      f.border (field * f.leading + significand) =
        (significand - 1 / 2) * 2 ^ (f.minExponent + field) := by
  have hpos := leading_pos f
  rcases Nat.eq_zero_or_pos significand with rfl | hsignificand
  · have hfield : field = 0 := Nat.eq_zero_of_not_pos fun h => absurd (hleading h) (by omega)
    exact .inl (by rw [hfield, Nat.zero_mul])
  · by_cases hfirst : 0 < field ∧ significand = f.leading
    · exact .inr (.inl hfirst)
    · refine .inr (.inr (f.border_packed_below field significand hsignificand hle fun hfield => ?_))
      exact lt_of_le_of_ne (hleading hfield) fun h => hfirst ⟨hfield, h.symm⟩

/-- Below the first pattern of a field the numbers are twice as close. -/
theorem border_leading (f : Format) (field : Nat) :
    f.border ((field + 1) * f.leading + f.leading) =
      (f.leading - 1 / 4) * 2 ^ (f.minExponent + (field + 1 : Nat)) := by
  obtain ⟨k, hk⟩ := Nat.exists_eq_add_of_lt (leading_pos f)
  have hborder := f.border_packed field (f.leading + (0 + k)) (by omega) (by omega)
  have hpattern : (field + 1) * f.leading + f.leading =
      field * f.leading + (f.leading + (0 + k)) + 1 := by
    rw [Nat.add_mul]
    omega
  have hcast : (f.leading : ℚ) = 0 + k + 1 := by exact_mod_cast hk
  have hunit : (2 : ℚ) ^ (f.minExponent + (field + 1 : Nat)) = 2 ^ (f.minExponent + field) * 2 := by
    rw [←zpow_add_one₀ (by norm_num)]
    congr 1
    omega
  rw [hpattern, hborder, hunit]
  push_cast
  rw [hcast]
  ring

/-- Both borders are at most half a unit of the last bit away. -/
theorem valueAt_sub_border_le (f : Format) (n : Nat) :
    f.valueAt n - f.border n ≤ 2 ^ (f.minExponent + f.shift n) / 2 := by
  cases n with
  | zero =>
    rw [border, valueAt_zero, sub_zero]
    positivity
  | succ n =>
    have hstep : (2 : ℚ) ^ (f.minExponent + f.shift n) ≤ 2 ^ (f.minExponent + f.shift (n + 1)) :=
      zpow_le_zpow_right₀ (by norm_num) (by
        have hshift := f.shift_mono (show n ≤ n + 1 by omega)
        omega)
    rw [border_succ, valueAt_succ]
    linarith

/-- An odd pattern is not the first one of its field, so that both of its borders are half
a unit of the last bit away. -/
theorem border_of_odd (hf : f.HasFraction) (hodd : n % 2 = 1) :
    f.border n = f.valueAt n - 2 ^ (f.minExponent + f.shift n) / 2 := by
  obtain ⟨hpacked, hlt, hleading⟩ := f.exists_packed n
  have hparity := packed_mod_two hf (f.shift n) (n - f.shift n * f.leading)
  have hfirstEven := packed_mod_two hf 1 f.leading
  have hsignificand := f.significand_pos (show 0 < n by omega)
  rw [valueAt]
  conv_lhs => rw [hpacked]
  rw [f.border_packed_below _ _ hsignificand hlt.le fun hfield => ?_]
  · ring
  · refine lt_of_le_of_ne (hleading hfield) fun hfirst => ?_
    rw [←hpacked, ←hfirst] at hparity
    omega

end Borders

namespace RoundsTo

variable {x y : ℚ}

/-- Rounding is monotone. -/
theorem mono (hx : f.RoundsTo x m) (hy : f.RoundsTo y n) (hle : x ≤ y) : m ≤ n := by
  by_contra hlt
  have hborder := f.border_strictMono.monotone (show n + 1 ≤ m by omega)
  have hlower := hx.lower
  have hupper := hy.upper
  -- Both numbers lie on the border that the two patterns share.
  have hsame : n + 1 = m := f.border_strictMono.injective (by linarith)
  have hm := hx.even (.inl (by linarith))
  have hn := hy.even (.inr (by rw [hsame]; linarith))
  omega

/-- Between two numbers that are rounded to a pattern every number is. -/
theorem between {z : ℚ} (hx : f.RoundsTo x n) (hy : f.RoundsTo y n)
    (hxz : x ≤ z) (hzy : z ≤ y) : f.RoundsTo z n where
  lower := hx.lower.trans hxz
  upper := hzy.trans hy.upper
  even := by
    rintro (h | h)
    · exact hx.even (.inl (le_antisymm (hxz.trans h.le) hx.lower))
    · exact hy.even (.inr (le_antisymm hy.upper (h.ge.trans hzy)))

/-- Strictly between its borders every number is rounded to a pattern. -/
theorem of_lt (hlower : f.border n < x) (hupper : x < f.border (n + 1)) : f.RoundsTo x n :=
  ⟨hlower.le, hupper.le, fun h => absurd h (not_or.mpr ⟨hlower.ne', hupper.ne⟩)⟩

/-- A number is rounded to one pattern. -/
theorem unique (hm : f.RoundsTo x m) (hn : f.RoundsTo x n) : m = n :=
  Nat.le_antisymm (hm.mono hn le_rfl) (hn.mono hm le_rfl)

/-- The numbers of a format are rounded to themselves. -/
theorem valueAt (f : Format) (n : Nat) : f.RoundsTo (f.valueAt n) n where
  lower := f.border_le_valueAt n
  upper := (f.valueAt_lt_border_succ n).le
  even := by
    rintro (h | h)
    · rcases Nat.eq_zero_or_pos n with rfl | hpos
      · rfl
      · exact absurd h (f.border_lt_valueAt hpos).ne'
    · exact absurd h (f.valueAt_lt_border_succ n).ne

/-- A number is rounded at least to a pattern exactly from its lower border on,
which belongs to it if it is even. -/
theorem le_iff (h : f.RoundsTo x n) (m : Nat) :
    m ≤ n ↔ f.border m < x ∨ f.border m = x ∧ m % 2 = 0 := by
  constructor
  · intro hle
    have hborder := f.border_strictMono.monotone hle
    rcases hborder.trans h.lower |>.lt_or_eq with hlt | heq
    · exact .inl hlt
    · have hsame : m = n := f.border_strictMono.injective (hborder.antisymm (heq ▸ h.lower))
      exact .inr ⟨heq, hsame ▸ h.even (.inl (hsame ▸ heq.symm))⟩
  · intro hborder
    by_contra hlt
    have habove := f.border_strictMono.monotone (show n + 1 ≤ m by omega)
    have hupper := h.upper
    rcases hborder with hx | ⟨hx, heven⟩
    · linarith
    · have hsame : n + 1 = m := f.border_strictMono.injective (by linarith)
      have hn := h.even (.inr (by rw [hsame, hx]))
      omega

/-- What is rounded to a pattern is at most half a unit of its last bit away. -/
theorem abs_sub_le (h : f.RoundsTo x n) :
    |x - f.valueAt n| ≤ 2 ^ (f.minExponent + f.shift n) / 2 := by
  have hlower := h.lower
  have hupper := h.upper
  have hbelow := f.valueAt_sub_border_le n
  rw [border_succ] at hupper
  rw [abs_le]
  constructor <;> linarith

end RoundsTo

/-- The borders of an odd pattern do not belong to it, so that exactly what is less than
half a unit of the last bit away is rounded to it. -/
theorem roundsTo_iff_of_odd (hf : f.HasFraction) (hodd : n % 2 = 1) {x : ℚ} :
    f.RoundsTo x n ↔ |x - f.valueAt n| < 2 ^ (f.minExponent + f.shift n) / 2 := by
  have hlower := f.border_of_odd hf hodd
  have hupper := f.border_succ n
  rw [abs_lt]
  constructor
  · intro h
    have hne : ¬(x = f.border n ∨ x = f.border (n + 1)) := mt h.even (by omega)
    have hbelow := lt_of_le_of_ne h.lower fun heq => hne (.inl heq.symm)
    have habove := lt_of_le_of_ne h.upper fun heq => hne (.inr heq)
    constructor <;> linarith
  · rintro ⟨hbelow, habove⟩
    exact .of_lt (by linarith) (by linarith)

/-- A significand without more bits than the format stands for a pattern at every
exponent from the least one on. -/
theorem exists_valueAt (hf : f.IsProper) (hlt : significand < 2 ^ f.precision) {exponent : Int}
    (hmin : f.minExponent ≤ exponent) :
    ∃ n, f.valueAt n = significand * 2 ^ exponent := by
  obtain ⟨k, rfl⟩ := Int.le.dest hmin
  rw [←hf.two_mul_leading] at hlt
  -- The significand is shifted up until its leading bit is set or no exponent is left.
  induction k generalizing significand with
  | zero => exact ⟨_, f.valueAt_packed 0 _ hlt.le (fun h => absurd h (Nat.lt_irrefl _))⟩
  | succ k ih =>
    rcases Nat.lt_or_ge significand f.leading with hsmall | hlarge
    · obtain ⟨n, hn⟩ := ih (show 2 * significand < 2 * f.leading by omega) (by omega)
      refine ⟨n, ?_⟩
      rw [hn, Nat.cast_succ, ←add_assoc, zpow_add_one₀ (by norm_num)]
      push_cast
      ring
    · exact ⟨_, f.valueAt_packed (k + 1) _ hlt.le fun _ => hlarge⟩

end Format

section Quotients

open Binary Format Format.IsProper

variable {f : Format} {num den field significand : Nat} {x : ℚ}

/-- Rounding half to even gives an integer at most half a unit away, and an even
one at half a unit. -/
theorem roundHalfEven_spec (num : Nat) (hden : 0 < den) :
    (roundHalfEven num den : ℚ) - 1 / 2 ≤ num / den ∧
      (num / den : ℚ) ≤ roundHalfEven num den + 1 / 2 ∧
      ((num / den : ℚ) = roundHalfEven num den - 1 / 2 ∨
        (num / den : ℚ) = roundHalfEven num den + 1 / 2 → roundHalfEven num den % 2 = 0) := by
  have hden' : (0 : ℚ) < den := by exact_mod_cast hden
  have hdiv : (num : ℚ) = den * (num / den : Nat) + (num % den : Nat) := by
    exact_mod_cast (Nat.div_add_mod num den).symm
  have hmod : ((num % den : Nat) : ℚ) < den := by exact_mod_cast Nat.mod_lt num hden
  have hquotient : (num / den : ℚ) = (num / den : Nat) + (num % den : Nat) / den := by
    rw [hdiv]
    field_simp
  have hrest : (0 : ℚ) ≤ (num % den : Nat) / den := by positivity
  rw [roundHalfEven]
  generalize num / den = q at hquotient
  generalize num % den = r at hquotient hrest hmod
  rw [hquotient]
  have hhalf : ((r : ℚ) / den = 1 / 2 ↔ 2 * r = den) := by
    rw [div_eq_div_iff hden'.ne' (by norm_num), one_mul, mul_comm]
    exact_mod_cast Iff.rfl
  have hlt : ((r : ℚ) / den < 1 / 2 ↔ 2 * r < den) := by
    rw [div_lt_div_iff₀ hden' (by norm_num), one_mul, mul_comm]
    exact_mod_cast Iff.rfl
  have hone : (r : ℚ) / den < 1 := (div_lt_one hden').mpr hmod
  split
  · next h =>
    have hle : (r : ℚ) / den ≤ 1 / 2 := by
      rcases h with h | h
      · exact (hlt.mpr h).le
      · exact (hhalf.mpr h.1).le
    refine ⟨by linarith, by linarith, ?_⟩
    rintro (heq | heq)
    · linarith
    · have htie := hhalf.mp (by linarith)
      omega
  · next h =>
    have hge : 1 / 2 ≤ (r : ℚ) / den := not_lt.mp (mt hlt.mp fun hlt => h (.inl hlt))
    push_cast
    refine ⟨by linarith, by linarith, ?_⟩
    rintro (heq | heq)
    · have htie := hhalf.mp (by linarith)
      omega
    · linarith

/-- A number in units of the last bit that the format keeps is rounded to the
pattern that packs the nearest integer. -/
theorem roundsTo_packed (hf : f.HasFraction) (hnonneg : 0 ≤ x)
    (hlt : x < (2 * f.leading : Nat)) (hleading : 0 < field → f.leading ≤ x)
    (hlower : significand - 1 / 2 ≤ x) (hupper : x ≤ significand + 1 / 2)
    (heven : x = significand - 1 / 2 ∨ x = significand + 1 / 2 → significand % 2 = 0) :
    f.RoundsTo (x * 2 ^ (f.minExponent + field)) (field * f.leading + significand) := by
  have hunit : (0 : ℚ) < 2 ^ (f.minExponent + field) := by positivity
  have hle : significand ≤ 2 * f.leading := by
    have hcast : (significand : ℚ) < (2 * f.leading : Nat) + 1 := by linarith
    exact Nat.lt_succ_iff.mp (by exact_mod_cast hcast)
  have hlarge : 0 < field → f.leading ≤ significand := fun hfield => by
    have hcast : (f.leading : ℚ) < significand + 1 := by linarith [hleading hfield]
    exact Nat.lt_succ_iff.mp (by exact_mod_cast hcast)
  have hvalue := f.valueAt_packed field significand hle hlarge
  have hbelow := f.border_packed_cases field significand hle hlarge
  have habove : f.border (field * f.leading + significand + 1) =
      (significand + 1 / 2) * 2 ^ (f.minExponent + field) ∨ significand = 2 * f.leading :=
    hle.lt_or_eq.imp_left fun hless => f.border_packed field significand hless hlarge
  generalize (2 : ℚ) ^ (f.minExponent + field) = unit at *
  constructor
  · rcases hbelow with hzero | ⟨hfield, rfl⟩ | hborder
    · rw [hzero, border]
      positivity
    · have hge := hleading hfield
      exact (f.border_le_valueAt _).trans (hvalue ▸ by gcongr)
    · rw [hborder]
      gcongr
  · rcases habove with hborder | heq
    · rw [hborder]
      gcongr
    · refine le_trans ?_ (f.valueAt_lt_border_succ _).le
      rw [hvalue, heq]
      gcongr
  · rw [packed_mod_two hf]
    rintro (h | h)
    · rcases hbelow with hzero | ⟨hfield, rfl⟩ | hborder
      · omega
      · have hpos := leading_pos f
        have hstrict := f.border_lt_valueAt (show 0 < field * f.leading + f.leading by omega)
        rw [←h, hvalue] at hstrict
        exact absurd (hleading hfield) (not_le.mpr (lt_of_mul_lt_mul_right hstrict hunit.le))
      · exact heven (.inl (mul_right_cancel₀ hunit.ne' (h.trans hborder)))
    · rcases habove with hborder | heq
      · exact heven (.inr (mul_right_cancel₀ hunit.ne' (h.trans hborder)))
      · rw [heq]
        omega

/-- A quotient is rounded to the nearest pattern, or to the infinity if this is not
finite. -/
theorem exists_roundsTo (hf : f.HasFraction) (num : Nat) (hden : 0 < den) :
    ∃ n, f.RoundsTo (num / den) n ∧ roundMagnitude f num den = min f.infinityBits n := by
  rw [roundMagnitude]
  rcases Nat.eq_zero_or_pos num with rfl | hnum
  · refine ⟨0, ?_, by rw [if_pos rfl, Nat.min_zero]⟩
    rw [Nat.cast_zero, zero_div, ←f.valueAt_zero]
    exact RoundsTo.valueAt f 0
  obtain ⟨hlower, hupper⟩ := floorLog2_spec hnum hden
  rw [if_neg hnum.ne']
  generalize floorLog2 num den = log at hlower hupper
  dsimp only
  generalize hlast : max f.minExponent (log - (f.precision - 1 : Nat)) = last
  obtain ⟨field, hfield⟩ := Int.le.dest (show f.minExponent ≤ last by omega)
  have hscaled := scaleBy_quotient (by decide : 2 ≠ 0) (-last) num den
  have hscaledDen : 0 < (scaleBy 2 (-last) num den).2 := scaleBy_snd_pos (by decide) (-last) hden
  generalize (scaleBy 2 (-last) num den).1 = n at hscaled
  generalize (scaleBy 2 (-last) num den).2 = d at hscaled hscaledDen
  have hquotient : (num / den : ℚ) = n / d * 2 ^ last := by
    rw [hscaled, Nat.cast_ofNat, zpow_neg, inv_mul_cancel_right₀ (by positivity)]
  rw [hquotient] at hlower hupper ⊢
  obtain ⟨hlt, hlarge⟩ := Binary.significand_bounds hf.toIsProper hlast hlower hupper
  obtain ⟨hroundLower, hroundUpper, hroundEven⟩ := roundHalfEven_spec n hscaledDen
  have hdifference : (last - f.minExponent).toNat = field := by omega
  refine ⟨field * f.leading + roundHalfEven n d, ?_, by rw [hdifference]⟩
  rw [←hfield]
  exact roundsTo_packed hf (by positivity) hlt (fun hpos => hlarge (by omega)) hroundLower
    hroundUpper hroundEven

end Quotients

end DataPipeline.Numeric
