import DataPipeline.Proofs.Numeric.WholePart
import Mathlib.Algebra.Order.Field.Power
import Mathlib.Data.Nat.Cast.Order.Field

/-!
# Representable numbers

A number of a binary format is a significand below two to the precision times a
power of two, not too small and not too large. Rounding to the format leaves such
a number as it is. So a number of 32 bits is kept in 64 bits, and the whole part
of a number is a number of the same format.
-/

namespace DataPipeline.Numeric

section Magnitude

variable {num den : Nat}

/-- Scaling leaves a denominator positive. -/
theorem scaleBy_snd_pos {base : Nat} (hbase : 0 < base) (exponent : Int) (hden : 0 < den) :
    0 < (scaleBy base exponent num den).2 := by
  rw [scaleBy]
  split
  · exact hden
  · exact Nat.mul_pos hden (Nat.pow_pos hbase)

/-- Comparing a scaled quotient with one compares the quotient with a power of
two. -/
theorem le_scaleBy_iff (exponent : Int) (hden : 0 < den) :
    (scaleBy 2 (-exponent) num den).2 ≤ (scaleBy 2 (-exponent) num den).1 ↔
      (2 : ℚ) ^ exponent ≤ num / den := by
  have hquotient := scaleBy_quotient (by decide : 2 ≠ 0) (-exponent) num den
  have hpos : (0 : ℚ) < (scaleBy 2 (-exponent) num den).2 := by
    exact_mod_cast scaleBy_snd_pos (by decide : 0 < 2) _ hden
  have hpow : (0 : ℚ) < 2 ^ exponent := by positivity
  rw [←Nat.cast_le (α := ℚ), ←one_le_div hpos, hquotient, Nat.cast_ofNat, zpow_neg,
    ←div_eq_mul_inv, one_le_div hpow]

/-- A quotient lies between two neighbouring powers of two. -/
theorem floorLog2_spec (hnum : 0 < num) (hden : 0 < den) :
    (2 : ℚ) ^ floorLog2 num den ≤ num / den ∧
      (num / den : ℚ) < 2 ^ (floorLog2 num den + 1) := by
  have htwo : (2 : ℚ) ≠ 0 := by norm_num
  have hden' : (0 : ℚ) < den := by exact_mod_cast hden
  have hnumLe : (2 : ℚ) ^ num.log2 ≤ num := by exact_mod_cast Nat.log2_self_le hnum.ne'
  have hnumLt : (num : ℚ) < 2 ^ (num.log2 + 1) := by exact_mod_cast Nat.lt_log2_self
  have hdenLe : (2 : ℚ) ^ den.log2 ≤ den := by exact_mod_cast Nat.log2_self_le hden.ne'
  have hdenLt : (den : ℚ) < 2 ^ (den.log2 + 1) := by exact_mod_cast Nat.lt_log2_self
  have hupper : (num / den : ℚ) < 2 ^ ((num.log2 : Int) - den.log2 + 1) := by
    rw [div_lt_iff₀ hden', sub_add_eq_add_sub, zpow_sub₀ htwo, zpow_natCast]
    calc (num : ℚ) < 2 ^ (num.log2 + 1) := hnumLt
      _ = 2 ^ ((num.log2 : Int) + 1) / 2 ^ den.log2 * 2 ^ den.log2 := by
        rw [div_mul_cancel₀ _ (by positivity)]
        norm_cast
      _ ≤ 2 ^ ((num.log2 : Int) + 1) / 2 ^ den.log2 * den := by gcongr
  have hlower : (2 : ℚ) ^ ((num.log2 : Int) - den.log2 - 1) ≤ num / den := by
    rw [le_div_iff₀ hden', sub_sub, zpow_sub₀ htwo, zpow_natCast]
    calc (2 : ℚ) ^ num.log2 / 2 ^ ((den.log2 : Int) + 1) * den
        ≤ 2 ^ num.log2 / 2 ^ ((den.log2 : Int) + 1) * 2 ^ (den.log2 + 1) := by gcongr
      _ = 2 ^ num.log2 := by
        rw [←zpow_natCast 2 (den.log2 + 1), Nat.cast_add_one, div_mul_cancel₀ _ (by positivity)]
      _ ≤ num := hnumLe
  rw [floorLog2]
  simp only [le_scaleBy_iff _ hden]
  split
  · next h => exact ⟨h, hupper⟩
  · next h => exact ⟨hlower, by rw [sub_add_cancel]; exact not_le.mp h⟩

end Magnitude

/-- A format with bits for the significand and for the exponent. -/
structure Format.IsProper (f : Format) : Prop where
  /-- There is a leading significant bit. -/
  precision_pos : 0 < f.precision
  /-- There is an exponent bit. -/
  exponentBits_pos : 0 < f.exponentBits

/-- The single format is proper. -/
theorem isProper_single : Format.single.IsProper := ⟨by decide, by decide⟩

/-- The double format is proper. -/
theorem isProper_double : Format.double.IsProper := ⟨by decide, by decide⟩

namespace Format.IsProper

variable {f : Format}

/-- The leading bit of a significand has a positive weight. -/
theorem leading_pos (f : Format) : 0 < f.leading := Nat.pow_pos (by decide)

/-- The leading bit is half of what the precision allows. -/
theorem two_mul_leading (hf : f.IsProper) : 2 * f.leading = 2 ^ f.precision := by
  obtain ⟨k, hk⟩ := Nat.exists_eq_add_of_lt hf.precision_pos
  rw [leading, Nat.pow_eq, hk, Nat.add_sub_cancel, pow_succ]
  ring

/-- The weight of the leading bit is a power of two. -/
theorem cast_leading (f : Format) : (f.leading : ℚ) = 2 ^ ((f.precision - 1 : Nat) : Int) := by
  rw [leading, Nat.pow_eq, zpow_natCast]
  push_cast
  rfl

/-- The exponent field counts up to a power of two. -/
theorem topField_add_one (f : Format) : f.topField + 1 = 2 ^ f.exponentBits :=
  Nat.sub_add_cancel (Nat.pow_pos (by decide))

/-- The greatest exponent is half of what the field counts. -/
theorem two_mul_exponentLimit (hf : f.IsProper) : 2 * f.exponentLimit = f.topField + 1 := by
  obtain ⟨k, hk⟩ := Nat.exists_eq_add_of_lt hf.exponentBits_pos
  rw [topField_add_one, exponentLimit, Nat.pow_eq, hk, Nat.add_sub_cancel, pow_succ]
  ring

/-- The greatest exponent is positive. -/
theorem exponentLimit_pos (f : Format) : 0 < f.exponentLimit := Nat.pow_pos (by decide)

/-- The sign bit stands above the exponent field. -/
theorem signWeight_eq (hf : f.IsProper) : f.signWeight = (f.topField + 1) * f.leading := by
  obtain ⟨k, hk⟩ := Nat.exists_eq_add_of_lt hf.precision_pos
  rw [topField_add_one, signWeight, leading, width, Nat.pow_eq, Nat.pow_eq, ←pow_add]
  congr 1
  omega

/-- The sign is the highest bit of a pattern. -/
theorem two_mul_signWeight (hf : f.IsProper) : 2 * f.signWeight = 2 ^ f.width := by
  have hpos := hf.precision_pos
  obtain ⟨k, hk⟩ := Nat.exists_eq_add_of_lt (show 0 < f.width by rw [width]; omega)
  rw [signWeight, Nat.pow_eq, hk, Nat.add_sub_cancel, pow_succ]
  ring

end Format.IsProper

namespace Binary

open Format.IsProper

variable {f : Format}

/-- The bits of a number with a sign and a pattern below it. -/
theorem toNat_ofMagnitude (hf : f.IsProper) (negative : Bool) {magnitude : Nat}
    (h : magnitude < f.signWeight) :
    (ofMagnitude negative magnitude : Binary f).bits.toNat =
      (if negative then f.signWeight else 0) + magnitude := by
  have hwidth := hf.two_mul_signWeight
  rw [ofMagnitude, BitVec.toNat_ofNat, Nat.mod_eq_of_lt]
  split <;> omega

/-- The sign and the pattern below it are told apart again. -/
theorem split_ofMagnitude (hf : f.IsProper) (negative : Bool) {magnitude : Nat}
    (h : magnitude < f.signWeight) :
    decide (f.signWeight ≤ (ofMagnitude negative magnitude : Binary f).bits.toNat) = negative ∧
      (ofMagnitude negative magnitude : Binary f).bits.toNat % f.signWeight = magnitude := by
  rw [toNat_ofMagnitude hf negative h]
  cases negative with
  | false =>
    rw [if_neg Bool.false_ne_true, Nat.zero_add, Nat.mod_eq_of_lt h]
    exact ⟨decide_eq_false (Nat.not_le.mpr h), rfl⟩
  | true =>
    rw [if_pos rfl, Nat.add_mod_left, Nat.mod_eq_of_lt h]
    exact ⟨decide_eq_true (Nat.le_add_right _ _), rfl⟩

/-- The patterns of finite numbers and of the infinity leave the sign bit free. -/
theorem lt_signWeight (hf : f.IsProper) {magnitude : Nat} (h : magnitude ≤ f.infinityBits) :
    magnitude < f.signWeight := by
  have hpos := leading_pos f
  rw [Format.infinityBits] at h
  rw [hf.signWeight_eq, Nat.add_mul]
  omega

/-- Infinity is seen as infinite, with its sign. -/
theorem view_infinity (hf : f.IsProper) (negative : Bool) :
    (infinity negative : Binary f).view = .infinite negative := by
  obtain ⟨hnegative, hmod⟩ := split_ofMagnitude hf negative (lt_signWeight hf le_rfl)
  rw [infinity, view, hnegative, hmod, Format.infinityBits, Nat.mul_div_cancel _ (leading_pos f),
    Nat.mul_mod_left, if_pos rfl, if_pos rfl]

/-- A pattern is an exponent field above a fraction. It is seen as the
significand that it was packed from. -/
theorem view_ofMagnitude (hf : f.IsProper) (negative : Bool) {field significand : Nat}
    (hlt : significand < 2 * f.leading) (hleading : 0 < field → f.leading ≤ significand)
    (hfinite : field * f.leading + significand < f.infinityBits) :
    (ofMagnitude negative (field * f.leading + significand) : Binary f).view =
      .finite negative significand (f.minExponent + field) := by
  have hpos := leading_pos f
  obtain ⟨hnegative, hmod⟩ := split_ofMagnitude hf negative (lt_signWeight hf hfinite.le)
  rw [view, hnegative, hmod]
  by_cases hsmall : significand < f.leading
  · obtain rfl : field = 0 := by
      by_contra hne
      exact absurd (hleading (Nat.pos_of_ne_zero hne)) (Nat.not_le.mpr hsmall)
    have htop : 0 ≠ f.topField := by
      have hlimit := hf.two_mul_exponentLimit
      omega
    rw [Nat.zero_mul, Nat.zero_add, Nat.div_eq_of_lt hsmall, Nat.mod_eq_of_lt hsmall, if_neg htop,
      if_pos rfl, Int.natCast_zero, Int.add_zero]
  · obtain ⟨rest, rfl⟩ := Nat.exists_eq_add_of_le (Nat.not_lt.mp hsmall)
    have hrest : rest < f.leading := by omega
    have hpack : field * f.leading + (f.leading + rest) = rest + f.leading * (field + 1) := by ring
    have htop : field + 1 < f.topField := by
      rw [Format.infinityBits, hpack] at hfinite
      exact Nat.lt_of_mul_lt_mul_left (Nat.lt_of_le_of_lt (Nat.le_add_left _ _)
        (Nat.mul_comm f.topField _ ▸ hfinite))
    rw [hpack, Nat.add_mul_div_left _ _ hpos, Nat.add_mul_mod_self_left, Nat.div_eq_of_lt hrest,
      Nat.mod_eq_of_lt hrest, Nat.zero_add, if_neg htop.ne, if_neg (Nat.succ_ne_zero _)]
    congr 1
    push_cast
    ring

end Binary

/-- A significand and an exponent of two that make up a number of a format. -/
structure Format.Represents (f : Format) (significand : Nat) (exponent : Int) : Prop where
  /-- The significand has no more bits than the format. -/
  significand_lt : significand < 2 ^ f.precision
  /-- The number is a multiple of the least one. -/
  minExponent_le : f.minExponent ≤ exponent
  /-- The number is below the limit of the format. -/
  value_lt : significand * (2 : ℚ) ^ exponent < 2 ^ (f.exponentLimit : Int)

/-- A whole number is rounded to itself. -/
theorem roundHalfEven_mul (n : Nat) {den : Nat} (hden : 0 < den) :
    roundHalfEven (n * den) den = n := by
  rw [roundHalfEven, Nat.mul_div_cancel n hden, Nat.mul_mod_left]
  exact if_pos (.inl (by omega))

namespace Binary

open Format.IsProper

variable {f : Format} {num den significand : Nat} {exponent : Int}

/-- What is left of a number above the last bit that a format keeps has no more
bits than the format, and all of them if the number is not small. -/
theorem significand_bounds (hf : f.IsProper) {x : ℚ} {log last : Int}
    (hlast : max f.minExponent (log - (f.precision - 1 : Nat)) = last)
    (hlower : (2 : ℚ) ^ log ≤ x * 2 ^ last) (hupper : x * 2 ^ last < 2 ^ (log + 1)) :
    x < (2 * f.leading : Nat) ∧ (f.minExponent < last → f.leading ≤ x) := by
  have htwo : (2 : ℚ) ≠ 0 := by norm_num
  have hone : (1 : ℚ) ≤ 2 := by norm_num
  have hprecision := hf.precision_pos
  constructor
  · have hbelow : x * 2 ^ last < 2 ^ (f.precision : Int) * 2 ^ last := by
      rw [←zpow_add₀ htwo]
      exact hupper.trans_le (zpow_le_zpow_right₀ hone (by omega))
    rw [hf.two_mul_leading]
    exact_mod_cast lt_of_mul_lt_mul_right hbelow (by positivity)
  · intro hlarge
    have habove : (2 : ℚ) ^ ((f.precision - 1 : Nat) : Int) * 2 ^ last ≤ x * 2 ^ last := by
      rw [←zpow_add₀ htwo]
      exact (zpow_le_zpow_right₀ hone (by omega)).trans hlower
    rw [cast_leading]
    exact le_of_mul_le_mul_right habove (by positivity)

/-- The pattern of a number below the limit of a format is below that of the
infinities. -/
theorem packed_lt_infinityBits (hf : f.IsProper) {field n : Nat} (hlt : n < 2 * f.leading)
    (hleading : 0 < field → f.leading ≤ n)
    (hvalue : (n : ℚ) * 2 ^ (f.minExponent + field) < 2 ^ (f.exponentLimit : Int)) :
    field * f.leading + n < f.infinityBits := by
  have hlimit := hf.two_mul_exponentLimit
  have hlimitPos := exponentLimit_pos f
  rw [Format.infinityBits]
  by_cases hsmall : n < f.leading
  · obtain rfl : field = 0 := by
      by_contra hne
      exact absurd (hleading (Nat.pos_of_ne_zero hne)) (Nat.not_le.mpr hsmall)
    rw [Nat.zero_mul, Nat.zero_add]
    exact hsmall.trans_le (Nat.le_mul_of_pos_left _ (by omega))
  · have hcast : (2 : ℚ) ^ ((f.precision - 1 : Nat) : Int) ≤ n := by
      rw [←cast_leading]
      exact_mod_cast Nat.not_lt.mp hsmall
    have hbelow : (2 : ℚ) ^ (((f.precision - 1 : Nat) : Int) + (f.minExponent + field)) <
        2 ^ (f.exponentLimit : Int) := by
      rw [zpow_add₀ (by norm_num)]
      exact (mul_le_mul_of_nonneg_right hcast (by positivity)).trans_lt hvalue
    have hexponent := (zpow_lt_zpow_iff_right₀ (by norm_num)).mp hbelow
    have hfield : field + 2 ≤ f.topField := by
      rw [Format.minExponent] at hexponent
      omega
    calc field * f.leading + n < (field + 2) * f.leading := by rw [Nat.add_mul]; omega
      _ ≤ f.topField * f.leading := Nat.mul_le_mul_right _ hfield

/-- A representable quotient is rounded to itself: it is packed as a significand
below the exponent field of its last bit. -/
theorem exists_roundMagnitude (hf : f.IsProper) (hnum : 0 < num) (hden : 0 < den)
    (h : f.Represents significand exponent)
    (hquotient : (num / den : ℚ) = significand * 2 ^ exponent) :
    ∃ field n : Nat, roundMagnitude f num den = field * f.leading + n ∧
      n < 2 * f.leading ∧ (0 < field → f.leading ≤ n) ∧
      field * f.leading + n < f.infinityBits ∧
      (n : ℚ) * 2 ^ (f.minExponent + field) = significand * 2 ^ exponent := by
  have htwo : (2 : ℚ) ≠ 0 := by norm_num
  obtain ⟨hlower, hupper⟩ := floorLog2_spec hnum hden
  rw [hquotient] at hlower hupper
  generalize hlog : floorLog2 num den = log at hlower hupper
  generalize hlast : max f.minExponent (log - (f.precision - 1 : Nat)) = last
  -- The last bit that the format keeps is not above the last bit of the significand.
  have hle : last ≤ exponent := by
    have hlt : (2 : ℚ) ^ log < 2 ^ ((f.precision : Int) + exponent) := by
      rw [zpow_add₀ htwo, zpow_natCast]
      refine hlower.trans_lt (mul_lt_mul_of_pos_right ?_ (by positivity))
      exact_mod_cast h.significand_lt
    have hlogLt := (zpow_lt_zpow_iff_right₀ (by norm_num)).mp hlt
    have hprecision := hf.precision_pos
    have hmin := h.minExponent_le
    omega
  obtain ⟨shift, hshift⟩ := Int.le.dest hle
  obtain ⟨field, hfield⟩ := Int.le.dest (show f.minExponent ≤ last by omega)
  have hvalue : ((significand * 2 ^ shift : Nat) : ℚ) * 2 ^ last = significand * 2 ^ exponent := by
    rw [←hshift, zpow_add₀ htwo, zpow_natCast]
    push_cast
    ring
  generalize significand * 2 ^ shift = n at hvalue
  rw [←hvalue] at hlower hupper
  obtain ⟨hlt, hlarge⟩ := significand_bounds hf hlast hlower hupper
  replace hlt : n < 2 * f.leading := by exact_mod_cast hlt
  have hleading : 0 < field → f.leading ≤ n := fun hpos => by exact_mod_cast hlarge (by omega)
  have hfinite : field * f.leading + n < f.infinityBits :=
    packed_lt_infinityBits hf hlt hleading (by rw [hfield, hvalue]; exact h.value_lt)
  refine ⟨field, n, ?_, hlt, hleading, hfinite, by rw [hfield, hvalue]⟩
  have hscaled := scaleBy_quotient (by decide : 2 ≠ 0) (-last) num den
  have hdenPos : 0 < (scaleBy 2 (-last) num den).2 := scaleBy_snd_pos (by decide) (-last) hden
  have hexact : (scaleBy 2 (-last) num den).1 = n * (scaleBy 2 (-last) num den).2 := by
    have hdenPos' : ((scaleBy 2 (-last) num den).2 : ℚ) ≠ 0 := by exact_mod_cast hdenPos.ne'
    rw [div_eq_iff hdenPos', hquotient, ←hvalue, Nat.cast_ofNat, zpow_neg,
      mul_inv_cancel_right₀ (by positivity)] at hscaled
    exact_mod_cast hscaled
  have hdifference : (last - f.minExponent).toNat = field := by omega
  rw [roundMagnitude, if_neg hnum.ne']
  simp only [hlog, hlast, hexact, roundHalfEven_mul n hdenPos, hdifference]
  exact min_eq_right hfinite.le

/-- Rounding keeps a number that the format has. -/
theorem value?_ofRatio (hf : f.IsProper) (negative : Bool) (hden : 0 < den)
    (h : f.Represents significand exponent)
    (hquotient : (num / den : ℚ) = significand * 2 ^ exponent) :
    (ofRatio negative num den : Binary f).value? =
      some (Decimal.signed negative significand * (2 : ℚ) ^ exponent) := by
  obtain ⟨field, n, hround, hlt, hleading, hfinite, hvalue⟩ :
      ∃ field n : Nat, roundMagnitude f num den = field * f.leading + n ∧ n < 2 * f.leading ∧
        (0 < field → f.leading ≤ n) ∧ field * f.leading + n < f.infinityBits ∧
        (n : ℚ) * 2 ^ (f.minExponent + field) = significand * 2 ^ exponent := by
    rcases Nat.eq_zero_or_pos num with rfl | hnum
    · have hpos := leading_pos f
      have hfinite : 0 * f.leading + 0 < f.infinityBits :=
        packed_lt_infinityBits hf (by omega) (by omega) (by simp)
      refine ⟨0, 0, by rw [roundMagnitude, if_pos rfl, Nat.zero_mul], by omega, by omega, hfinite,
        ?_⟩
      rw [←hquotient]
      simp
    · exact exists_roundMagnitude hf hnum hden h hquotient
  rw [ofRatio, hround, value?, view_ofMagnitude hf negative hlt hleading hfinite, FloatView.value?,
    cast_signed, cast_signed, mul_assoc, mul_assoc, hvalue]

/-- The value of a packed number is the number. -/
theorem value?_ofScaled (hf : f.IsProper) (negative : Bool)
    (h : f.Represents significand exponent) :
    (ofScaled negative significand exponent : Binary f).value? =
      some (Decimal.signed negative significand * (2 : ℚ) ^ exponent) := by
  have hquotient := scaleBy_quotient (by decide : 2 ≠ 0) exponent significand 1
  rw [Nat.cast_one, div_one, Nat.cast_ofNat] at hquotient
  exact value?_ofRatio hf negative (scaleBy_snd_pos (by decide) exponent Nat.one_pos) h hquotient

/-- A significand of few bits with a small exponent is below the limit. -/
theorem value_lt_of_bits {bits : Nat} (hbits : significand < 2 ^ bits)
    (hlimit : bits + exponent ≤ f.exponentLimit) :
    significand * (2 : ℚ) ^ exponent < 2 ^ (f.exponentLimit : Int) := by
  have hcast : (significand : ℚ) < 2 ^ (bits : Int) := by
    rw [zpow_natCast]
    exact_mod_cast hbits
  calc significand * (2 : ℚ) ^ exponent < 2 ^ (bits : Int) * 2 ^ exponent :=
        mul_lt_mul_of_pos_right hcast (by positivity)
    _ = 2 ^ (bits + exponent) := (zpow_add₀ (by norm_num) _ _).symm
    _ ≤ 2 ^ (f.exponentLimit : Int) := zpow_le_zpow_right₀ (by norm_num) hlimit

/-- What a finite bit pattern stands for is a number of its format. -/
theorem represents_of_view (hf : f.IsProper) {x : Binary f} {negative : Bool}
    (h : x.view = .finite negative significand exponent) : f.Represents significand exponent := by
  have hpos := leading_pos f
  have htwice := hf.two_mul_leading
  have hprecision := hf.precision_pos
  have hlimit := hf.two_mul_exponentLimit
  have hlimitPos := exponentLimit_pos f
  have hmagnitude : x.bits.toNat % f.signWeight < (f.topField + 1) * f.leading := by
    rw [hf.signWeight_eq]
    exact Nat.mod_lt _ (Nat.mul_pos (Nat.succ_pos _) hpos)
  rw [view] at h
  generalize x.bits.toNat % f.signWeight = magnitude at h hmagnitude
  have hfield : magnitude / f.leading ≤ f.topField :=
    Nat.lt_succ_iff.mp ((Nat.div_lt_iff_lt_mul hpos).mpr hmagnitude)
  have hfraction : magnitude % f.leading < f.leading := Nat.mod_lt _ hpos
  have hleading : f.leading = 2 ^ (f.precision - 1) := rfl
  generalize magnitude / f.leading = field at h hfield
  generalize magnitude % f.leading = fraction at h hfraction
  split at h
  · split at h <;> cases h
  · split at h
    · cases h
      refine ⟨by omega, le_rfl, value_lt_of_bits (hleading ▸ hfraction) ?_⟩
      rw [Format.minExponent]
      omega
    · cases h
      refine ⟨by omega, by omega, value_lt_of_bits (show _ < 2 ^ f.precision by omega) ?_⟩
      rw [Format.minExponent]
      omega

end Binary

/-- A format that has more significant bits, smaller and larger numbers has all
numbers of the other. -/
theorem Format.Represents.mono {f g : Format} {significand : Nat} {exponent : Int}
    (hprecision : f.precision ≤ g.precision) (hmin : g.minExponent ≤ f.minExponent)
    (hlimit : f.exponentLimit ≤ g.exponentLimit) (h : f.Represents significand exponent) :
    g.Represents significand exponent where
  significand_lt := h.significand_lt.trans_le (Nat.pow_le_pow_right (by decide) hprecision)
  minExponent_le := hmin.trans h.minExponent_le
  value_lt := h.value_lt.trans_le (zpow_le_zpow_right₀ (by norm_num) (by exact_mod_cast hlimit))

namespace Binary

/-- A number of 32 bits is kept in 64 bits. -/
theorem value?_convert_double (x : Single) : (x.convert .double).value? = x.value? := by
  have hinfinite : ∀ negative, (infinity negative : Double).view = .infinite negative := by decide
  have hnan : ∀ negative, (quietNaN negative : Double).view = .nan negative := by decide
  rw [convert]
  cases hview : x.view with
  | nan negative =>
    rw [value?, value?, hview, hnan]
  | infinite negative =>
    rw [value?, value?, hview, hinfinite]
  | finite negative significand exponent =>
    have hrepresents := (represents_of_view isProper_single hview).mono (g := .double) (by decide)
      (by decide) (by decide)
    refine (value?_ofScaled isProper_double negative hrepresents).trans ?_
    rw [value?, hview, FloatView.value?]

variable {f : Format}

/-- A number without the part behind its point. -/
def whole (x : Binary f) : Binary f :=
  match x.view with
  | .finite negative significand exponent =>
    if 0 ≤ exponent then x else ofRatio negative (significand / 2 ^ (-exponent).toNat) 1
  | _ => x

/-- Whether a finite number is less than another one. -/
def isBelow (x y : Binary f) : Bool :=
  match x.value?, y.value? with
  | some a, some b => a < b
  | _, _ => false

/-- The whole part of a number is a number of the same format. -/
theorem value?_whole (hf : f.IsProper) (x : Binary f) :
    x.whole.value? = x.value?.map fun q => (towardZero q : ℚ) := by
  rw [whole]
  cases hview : x.view with
  | nan => rw [value?, hview]; rfl
  | infinite => rw [value?, hview]; rfl
  | finite negative significand exponent =>
    have hvalue : x.value? = some (Decimal.signed negative significand * (2 : ℚ) ^ exponent) := by
      rw [value?, hview, FloatView.value?]
    have hrepresents := represents_of_view hf hview
    simp only
    split
    · next h =>
      obtain ⟨k, rfl⟩ := Int.eq_ofNat_of_zero_le h
      have hinteger : (Decimal.signed negative significand * (2 : ℚ) ^ (k : Int)) =
          (Decimal.signed negative significand * 2 ^ k : Int) := by
        rw [zpow_natCast]
        push_cast
        rfl
      rw [hvalue, Option.map_some, hinteger, towardZero_intCast]
    · next h =>
      obtain ⟨k, hk⟩ := Int.eq_ofNat_of_zero_le (show 0 ≤ -exponent by omega)
      obtain rfl : exponent = -k := by omega
      have hquotient : (significand * (2 : ℚ) ^ (-(k : Int))) = significand / (2 ^ k : Nat) := by
        rw [zpow_neg, zpow_natCast, div_eq_mul_inv]
        push_cast
        rfl
      have hle : ((significand / 2 ^ k : Nat) : ℚ) ≤ significand / (2 ^ k : Nat) := Nat.cast_div_le
      have hwhole : f.Represents (significand / 2 ^ k) 0 := by
        refine ⟨(Nat.div_le_self _ _).trans_lt hrepresents.significand_lt,
          hrepresents.minExponent_le.trans (by omega), ?_⟩
        rw [zpow_zero, mul_one]
        exact (hle.trans hquotient.ge).trans_lt hrepresents.value_lt
      have hround : (ofRatio negative (significand / 2 ^ k) 1 : Binary f).value? = _ :=
        value?_ofRatio hf negative Nat.one_pos hwhole (by simp)
      rw [hvalue, neg_neg, Int.toNat_natCast, hround, Option.map_some, zpow_zero, mul_one,
        towardZero_signed negative (by rw [hquotient, towardZero_natDiv])]

end Binary

end DataPipeline.Numeric
