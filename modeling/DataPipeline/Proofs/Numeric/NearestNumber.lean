import DataPipeline.Numeric.FloatLiteral
import DataPipeline.Proofs.Numeric.Rounding

/-!
# Nearest numbers

A finite number of a format is a sign and a pattern below the infinity. Quotients,
decimals and numbers of other formats become the number with the pattern that
they are rounded to, or the infinity of their sign if this pattern is not finite.
Decimals that are not computed because of their order are no exception.
-/

namespace DataPipeline.Numeric.Binary

open Format Format.IsProper Text

variable {f g : Format} {n : Nat}

/-- The number of a sign and a pattern, or the infinity of the sign if the pattern
is not finite. -/
def ofPattern (negative : Bool) (n : Nat) : Binary f := ofMagnitude negative (min f.infinityBits n)

section Patterns

/-- A pattern below infinity is seen as its significand and its exponent. -/
theorem view_ofPattern (hf : f.IsProper) (negative : Bool) (hfinite : n < f.infinityBits) :
    (ofPattern negative n : Binary f).view =
      .finite negative (n - f.shift n * f.leading) (f.minExponent + f.shift n) := by
  obtain ⟨hpacked, hlt, hleading⟩ := f.exists_packed n
  rw [ofPattern, Nat.min_eq_right hfinite.le]
  conv_lhs => rw [hpacked]
  exact view_ofMagnitude hf negative hlt hleading (hpacked ▸ hfinite)

/-- Patterns from infinity on are infinity. -/
theorem ofPattern_of_le (negative : Bool) (hinfinite : f.infinityBits ≤ n) :
    (ofPattern negative n : Binary f) = infinity negative := by
  rw [ofPattern, Nat.min_eq_left hinfinite, infinity]

/-- The finite numbers are those with patterns below infinity. -/
theorem isFinite_ofPattern (hf : f.IsProper) (negative : Bool) :
    (ofPattern negative n : Binary f).isFinite = true ↔ n < f.infinityBits := by
  rcases Nat.lt_or_ge n f.infinityBits with hfinite | hinfinite
  · rw [isFinite, view_ofPattern hf negative hfinite]
    exact iff_of_true rfl hfinite
  · rw [ofPattern_of_le negative hinfinite, isFinite, view_infinity hf]
    exact iff_of_false Bool.false_ne_true (Nat.not_lt.mpr hinfinite)

/-- The infinite numbers are those with patterns from infinity on. -/
theorem isInfinite_ofPattern (hf : f.IsProper) (negative : Bool) :
    (ofPattern negative n : Binary f).isInfinite = true ↔ f.infinityBits ≤ n := by
  rcases Nat.lt_or_ge n f.infinityBits with hfinite | hinfinite
  · rw [isInfinite, view_ofPattern hf negative hfinite]
    exact iff_of_false Bool.false_ne_true (Nat.not_le.mpr hfinite)
  · rw [ofPattern_of_le negative hinfinite, isInfinite, view_infinity hf]
    exact iff_of_true rfl hinfinite

/-- Every finite number has a sign and a pattern. -/
theorem exists_ofPattern (hf : f.IsProper) {x : Binary f} (h : x.isFinite = true) :
    ∃ negative n, n < f.infinityBits ∧ x = ofPattern negative n := by
  have hbits := x.bits.isLt
  rw [←hf.two_mul_signWeight] at hbits
  have hmod := Nat.mod_lt x.bits.toNat (show 0 < f.signWeight by omega)
  have hfinite : x.bits.toNat % f.signWeight < f.infinityBits := by
    have hfield : x.bits.toNat % f.signWeight / f.leading ≤ f.topField :=
      Nat.lt_succ_iff.mp ((Nat.div_lt_iff_lt_mul (leading_pos f)).mpr (hf.signWeight_eq ▸ hmod))
    have htop : x.bits.toNat % f.signWeight / f.leading ≠ f.topField := by
      intro htop
      by_cases hfraction : x.bits.toNat % f.signWeight % f.leading = 0 <;>
        simp [isFinite, view, htop, hfraction] at h
    rw [Format.infinityBits]
    exact (Nat.div_lt_iff_lt_mul (leading_pos f)).mp (by omega)
  refine ⟨decide (f.signWeight ≤ x.bits.toNat), _, hfinite, congrArg Binary.mk ?_⟩
  refine BitVec.eq_of_toNat_eq ?_
  rw [Nat.min_eq_right hfinite.le]
  refine Eq.trans ?_ (toNat_ofMagnitude hf _ hmod).symm
  rcases Nat.lt_or_ge x.bits.toNat f.signWeight with hlt | hge
  · rw [decide_eq_false (Nat.not_le.mpr hlt), Nat.mod_eq_of_lt hlt]
    exact (Nat.zero_add _).symm
  · rw [decide_eq_true hge, if_pos rfl, Nat.mod_eq_sub_mod hge, Nat.mod_eq_of_lt (by omega)]
    omega

/-- What a finite number denotes is the number of its pattern with the sign. -/
theorem value?_ofPattern (hf : f.IsProper) (negative : Bool) (hfinite : n < f.infinityBits) :
    (ofPattern negative n : Binary f).value? =
      some ((if negative then -1 else 1) * f.valueAt n) := by
  rw [value?, view_ofPattern hf negative hfinite, FloatView.value?, cast_signed, mul_assoc,
    valueAt]

end Patterns

section Rounding

/-- A quotient becomes the number that it is rounded to. -/
theorem exists_ofRatio (hf : f.HasFraction) (negative : Bool) (num : Nat) {den : Nat}
    (hden : 0 < den) :
    ∃ n, f.RoundsTo (num / den) n ∧
      (ofRatio negative num den : Binary f) = ofPattern negative n := by
  obtain ⟨n, hround, heq⟩ := exists_roundsTo hf num hden
  exact ⟨n, hround, by rw [ofRatio, heq, ofPattern]⟩

/-- A scaled number is packed into a pattern to which it rounds. -/
theorem exists_ofScaled (hf : f.HasFraction) (negative : Bool) (significand : Nat)
    (exponent : Int) :
    ∃ n, f.RoundsTo (significand * 2 ^ exponent) n ∧
      (ofScaled negative significand exponent : Binary f) = ofPattern negative n := by
  have hquotient := scaleBy_quotient (by decide : 2 ≠ 0) exponent significand 1
  rw [Nat.cast_one, div_one, Nat.cast_ofNat] at hquotient
  rw [←hquotient]
  exact exists_ofRatio hf negative _ (scaleBy_snd_pos (by decide) exponent Nat.one_pos)

/-- A finite number becomes the number of another format that it is rounded to. -/
theorem exists_convert (hf : f.IsProper) (hg : g.HasFraction) (negative : Bool)
    (hfinite : n < f.infinityBits) :
    ∃ m, g.RoundsTo (f.valueAt n) m ∧
      (ofPattern negative n : Binary f).convert g = ofPattern negative m := by
  rw [convert, view_ofPattern hf negative hfinite, valueAt]
  exact exists_ofScaled hg negative _ _

/-- Infinity stays infinity in another format. -/
theorem convert_infinity (hf : f.IsProper) (negative : Bool) :
    (infinity negative : Binary f).convert g = infinity negative := by
  rw [convert, view_infinity hf]

end Rounding

section Decimals

/-- The greatest exponent field is positive. -/
theorem topField_pos (hf : f.IsProper) : 0 < f.topField := by
  have hlimit := hf.two_mul_exponentLimit
  have hlimitPos := exponentLimit_pos f
  omega

/-- The first number that is not finite is two to the limit of the format. -/
theorem valueAt_infinityBits (hf : f.IsProper) :
    f.valueAt f.infinityBits = 2 ^ (f.exponentLimit : Int) := by
  have hlimit := hf.two_mul_exponentLimit
  obtain ⟨k, hk⟩ := Nat.exists_eq_add_of_lt (topField_pos hf)
  rw [Nat.zero_add] at hk
  have hpacked := f.valueAt_packed k f.leading (by omega) (fun _ => le_rfl)
  have hprecision := hf.precision_pos
  rw [Format.infinityBits, hk, Nat.add_mul, Nat.one_mul, hpacked, cast_leading,
    ←zpow_add₀ (by norm_num), Format.minExponent]
  congr 1
  omega

/-- The least exponent of a format is not positive. -/
theorem minExponent_nonpos (hf : f.HasFraction) : f.minExponent ≤ 0 := by
  have hprecision := hf.two_le_precision
  have hlimit := exponentLimit_pos f
  rw [Format.minExponent]
  omega

/-- A number below all patterns is rounded to zero. -/
theorem roundsTo_zero {x : ℚ} (hnonneg : 0 ≤ x) (hlt : x < 2 ^ (f.minExponent - 1)) :
    f.RoundsTo x 0 where
  lower := hnonneg
  upper := by
    have hborder : f.border (0 + 1) = 2 ^ (f.minExponent - 1) := by
      rw [border_succ, valueAt_zero, shift, Nat.zero_div, Nat.zero_sub, Int.natCast_zero, add_zero,
        zero_add, zpow_sub_one₀ (by norm_num), div_eq_mul_inv]
    exact hborder ▸ hlt.le
  even := fun _ => rfl

/-- From two to the limit of the format on, nothing is rounded to a finite number. -/
theorem infinityBits_le (hf : f.IsProper) {x : ℚ} (h : f.RoundsTo x n)
    (hx : 2 ^ (f.exponentLimit : Int) ≤ x) : f.infinityBits ≤ n := by
  have hinfinite : 0 < f.infinityBits := Nat.mul_pos (topField_pos hf) (leading_pos f)
  have hborder := f.border_lt_valueAt hinfinite
  rw [valueAt_infinityBits hf] at hborder
  exact (h.le_iff _).mpr (.inl (hborder.trans_le hx))

/-- Digits whose number has few places before the point are rounded to zero. -/
theorem roundsTo_zero_of_order (hf : f.HasFraction) {digits : Nat} {exponent : Int}
    (horder : digitCount digits + exponent < f.minExponent) :
    f.RoundsTo (digits * 10 ^ exponent) 0 := by
  have hnonpos := minExponent_nonpos hf
  have hcount : (digits : ℚ) < 10 ^ (digitCount digits : Int) := by
    rw [zpow_natCast]
    exact_mod_cast Decimal.lt_pow_digitCount digits
  obtain ⟨k, hk⟩ : ∃ k : Nat, f.minExponent - 1 = -k := ⟨(1 - f.minExponent).toNat, by omega⟩
  refine roundsTo_zero (by positivity) ?_
  calc (digits * 10 ^ exponent : ℚ) < 10 ^ (digitCount digits : Int) * 10 ^ exponent := by gcongr
    _ = 10 ^ (digitCount digits + exponent) := (zpow_add₀ (by norm_num) _ _).symm
    _ ≤ 10 ^ (f.minExponent - 1) := zpow_le_zpow_right₀ (by norm_num) (by omega)
    _ ≤ 2 ^ (f.minExponent - 1) := by
      rw [hk, zpow_neg, zpow_neg, zpow_natCast, zpow_natCast]
      gcongr
      norm_num

/-- A decimal becomes the number that it is rounded to, whether it is computed or
decided by its order. -/
theorem exists_ofDecimal (hf : f.HasFraction) (negative : Bool) (digits : Nat) (exponent : Int) :
    ∃ n, f.RoundsTo (digits * 10 ^ exponent) n ∧
      (ofDecimal negative digits exponent : Binary f) = ofPattern negative n := by
  have hquotient := scaleBy_quotient (by decide : 10 ≠ 0) exponent digits 1
  rw [Nat.cast_one, div_one, Nat.cast_ofNat] at hquotient
  have hden : 0 < (scaleBy 10 exponent digits 1).2 :=
    scaleBy_snd_pos (by decide) exponent Nat.one_pos
  obtain ⟨n, hround, heq⟩ := exists_ofRatio hf negative (scaleBy 10 exponent digits 1).1 hden
  rw [hquotient] at hround
  rw [ofDecimal]
  split
  · next hzero =>
    refine ⟨0, ?_, by rw [ofPattern, Nat.min_zero]⟩
    rw [hzero, Nat.cast_zero, zero_mul, ←f.valueAt_zero]
    exact RoundsTo.valueAt f 0
  next hne =>
  split
  · next hlarge =>
    have hdigits : (1 : ℚ) ≤ digits := by exact_mod_cast Nat.one_le_iff_ne_zero.mpr hne
    have hlimit : (2 : ℚ) ^ (f.exponentLimit : Int) ≤ digits * 10 ^ exponent :=
      calc (2 : ℚ) ^ (f.exponentLimit : Int) ≤ 10 ^ (f.exponentLimit : Int) := by
            rw [zpow_natCast, zpow_natCast]
            gcongr
            norm_num
        _ ≤ 10 ^ exponent := zpow_le_zpow_right₀ (by norm_num) hlarge
        _ ≤ digits * 10 ^ exponent := le_mul_of_one_le_left (by positivity) hdigits
    exact ⟨n, hround, (ofPattern_of_le negative (infinityBits_le hf.toIsProper hround hlimit)).symm⟩
  split
  · next horder => exact ⟨0, roundsTo_zero_of_order hf horder, by rw [ofPattern, Nat.min_zero]⟩
  · exact ⟨n, hround, heq⟩

end Decimals

end DataPipeline.Numeric.Binary
