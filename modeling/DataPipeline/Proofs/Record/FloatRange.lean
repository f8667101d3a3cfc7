import DataPipeline.Proofs.Numeric.DecimalLiteral
import DataPipeline.Proofs.Record.RoundTrip

/-!
# Numbers beyond 32 bits

A conversion to 32 bits goes through 64 bits and is rounded twice. A finite number
of 64 bits that would become infinite is out of range. A literal may already have
become infinite when it was rounded to 64 bits; then nothing tells it from an
infinity that was asked for, and it is converted to one.
-/

namespace DataPipeline

open Numeric Text

namespace Numeric.Format

variable {m n : Nat} {x : ℚ}

/-- Numbers of 32 bits end halfway between the largest one and two to the power
128. -/
theorem infinite_single_iff (h : single.RoundsTo x m) :
    single.infinityBits ≤ m ↔ (2 : ℚ) ^ 128 - 2 ^ 103 ≤ x := by
  have hborder : single.border single.infinityBits = (2 : ℚ) ^ 128 - 2 ^ 103 := by
    refine (single.border_packed 253 0xFFFFFF (by decide) (by decide)).trans ?_
    norm_num [minExponent, single, exponentLimit]
  rw [h.le_iff, hborder, le_iff_lt_or_eq]
  exact or_congr_right (and_iff_left (by decide))

/-- Numbers of 64 bits end halfway between the largest one and two to the power
1024. -/
theorem infinite_double_iff (h : double.RoundsTo x n) :
    double.infinityBits ≤ n ↔ (2 : ℚ) ^ 1024 - 2 ^ 970 ≤ x := by
  have hborder : double.border double.infinityBits = (2 : ℚ) ^ 1024 - 2 ^ 970 := by
    refine (double.border_packed 2045 0x1FFFFFFFFFFFFF (by decide) (by decide)).trans ?_
    have hexponent : double.minExponent + (2045 : Nat) = (970 : Nat) + 1 := by decide
    have hlimit : (2 : ℚ) ^ 1024 = 2 ^ 54 * 2 ^ 970 := pow_add 2 54 970
    rw [hexponent, hlimit, zpow_add_one₀ (by norm_num), zpow_natCast]
    generalize (2 : ℚ) ^ 970 = unit
    norm_num
    ring
  rw [h.le_iff, hborder, le_iff_lt_or_eq]
  exact or_congr_right (and_iff_left (by decide))

/-- The end of the numbers of 32 bits is a number of 64 bits, with an even
pattern. -/
theorem end_single_le_iff (h : double.RoundsTo x n) :
    (2 : ℚ) ^ 128 - 2 ^ 103 ≤ double.valueAt n ↔ (2 : ℚ) ^ 128 - 2 ^ 103 - 2 ^ 74 ≤ x := by
  have hvalue : double.valueAt (1149 * double.leading + 0x1FFFFFF0000000) =
      (2 : ℚ) ^ 128 - 2 ^ 103 := by
    refine (double.valueAt_packed _ _ (by decide) (by decide)).trans ?_
    norm_num [minExponent, double, exponentLimit]
  have hborder : double.border (1149 * double.leading + 0x1FFFFFF0000000) =
      (2 : ℚ) ^ 128 - 2 ^ 103 - 2 ^ 74 := by
    refine (double.border_packed 1149 0x1FFFFFEFFFFFFF (by decide) (by decide)).trans ?_
    norm_num [minExponent, double, exponentLimit]
  rw [←hvalue, double.valueAt_strictMono.le_iff_le, h.le_iff, hborder, le_iff_lt_or_eq, hvalue]
  exact or_congr_right (and_iff_left (by decide))

end Numeric.Format

namespace Value

open Numeric.Binary

variable {σ : Type} {settings : ConversionSettings} {n : Nat} {x : ℚ}

/-- A conversion that gives a finite number of 32 bits. -/
def GivesFinite (outcome : Except (ConversionFailure σ) (Value σ)) : Prop :=
  ∃ y : Single, outcome = .ok (float y) ∧ y.isFinite = true

section Narrowing

/-- A finite number of 64 bits is narrowed to a finite one, or is out of range. -/
theorem toSingle_of_finite (negative : Bool) (hfinite : n < Format.double.infinityBits) :
    (Format.double.valueAt n < (2 : ℚ) ^ 128 - 2 ^ 103 →
      ∃ y, toSingle (ofPattern negative n) = .ok y ∧ y.isFinite = true) ∧
    ((2 : ℚ) ^ 128 - 2 ^ 103 ≤ Format.double.valueAt n →
      toSingle (ofPattern negative n) = .error .outOfRange) := by
  obtain ⟨m, hround, hconvert⟩ :=
    Binary.exists_convert isProper_double hasFraction_single negative hfinite
  have hlimit := Format.infinite_single_iff hround
  have hsource : (ofPattern negative n : Double).isFinite = true :=
    (isFinite_ofPattern isProper_double negative).mpr hfinite
  rw [toSingle, hconvert, hsource, Bool.true_and]
  constructor
  · intro hlt
    have hm : m < Format.single.infinityBits := not_le.mp (mt hlimit.mp (not_le.mpr hlt))
    rw [if_neg (mt (isInfinite_ofPattern isProper_single negative).mp (not_le.mpr hm))]
    exact ⟨_, rfl, (isFinite_ofPattern isProper_single negative).mpr hm⟩
  · intro hle
    rw [if_pos ((isInfinite_ofPattern isProper_single negative).mpr (hlimit.mpr hle))]

theorem toSingle_of_infinite (negative : Bool) (hinfinite : Format.double.infinityBits ≤ n) :
    toSingle (ofPattern negative n) = .ok (infinity negative) := by
  have hsource : ¬(ofPattern negative n : Double).isFinite = true :=
    mt (isFinite_ofPattern isProper_double negative).mp (not_lt.mpr hinfinite)
  rw [toSingle, Bool.eq_false_iff.mpr hsource, Bool.false_and, if_neg Bool.false_ne_true,
    ofPattern_of_le negative hinfinite, convert_infinity isProper_double]

end Narrowing

section Conversions

variable {value : Value σ} {y : Double}

/-- A conversion to 32 bits narrows the number of 64 bits. -/
theorem convert_float_of_toDouble (settings : ConversionSettings) (htype : value.type ≠ .float)
    (h : value.toDouble = .ok y) :
    value.convert settings .float =
      ((toSingle y).map float).mapError fun reason => ⟨value, .float, reason⟩ := by
  have hnull : value.isNull = false := by cases value <;> first | rfl | cases h
  rw [convert_of_ne htype hnull, convertTo, h]
  rfl

/-- A number that is rounded to 64 bits first is converted to a finite number of 32
bits, is out of range, or has become infinite before. -/
theorem convert_float_of_roundsTo (settings : ConversionSettings) (htype : value.type ≠ .float)
    {negative : Bool} (h : value.toDouble = .ok (ofPattern negative n))
    (hround : Format.double.RoundsTo x n) :
    (x < (2 : ℚ) ^ 128 - 2 ^ 103 - 2 ^ 74 → GivesFinite (value.convert settings .float)) ∧
    ((2 : ℚ) ^ 128 - 2 ^ 103 - 2 ^ 74 ≤ x → x < (2 : ℚ) ^ 1024 - 2 ^ 970 →
      value.convert settings .float = .error ⟨value, .float, .outOfRange⟩) ∧
    ((2 : ℚ) ^ 1024 - 2 ^ 970 ≤ x →
      value.convert settings .float = .ok (float (infinity negative))) := by
  have hinfinite := Format.infinite_double_iff hround
  have hend := Format.end_single_le_iff hround
  rw [convert_float_of_toDouble settings htype h]
  refine ⟨fun hlt => ?_, fun hle hlt => ?_, fun hle => ?_⟩
  · have hbelow := not_le.mp (mt hend.mp (not_le.mpr hlt))
    have hfinite : n < Format.double.infinityBits := by
      rw [←Format.double.valueAt_strictMono.lt_iff_lt, valueAt_infinityBits isProper_double]
      calc Format.double.valueAt n < 2 ^ 128 - 2 ^ 103 := hbelow
        _ ≤ 2 ^ 128 := sub_le_self _ (by positivity)
        _ ≤ 2 ^ (Format.double.exponentLimit : Int) := by
          rw [zpow_natCast]
          exact pow_le_pow_right₀ (by norm_num) (by decide)
    obtain ⟨z, hz, hzFinite⟩ := (toSingle_of_finite negative hfinite).1 hbelow
    exact ⟨z, by rw [hz]; rfl, hzFinite⟩
  · have hfinite : n < Format.double.infinityBits := not_le.mp (mt hinfinite.mp (not_le.mpr hlt))
    rw [(toSingle_of_finite negative hfinite).2 (hend.mpr hle)]
    rfl
  · rw [toSingle_of_infinite negative (hinfinite.mpr hle)]
    rfl

/-- All integers of 64 bits stay finite. -/
theorem convert_float_of_long (settings : ConversionSettings) (n : Int64) :
    GivesFinite ((long n : Value σ).convert settings .float) := by
  obtain ⟨k, hround, hread⟩ :=
    exists_ofRatio hasFraction_double (n.toInt < 0) n.toInt.natAbs Nat.one_pos
  have hdouble : (long n : Value σ).toDouble = .ok (ofPattern (n.toInt < 0) k) :=
    congrArg Except.ok hread
  refine (convert_float_of_roundsTo settings (ValueType.noConfusion ·) hdouble hround).1 ?_
  have habs : n.toInt.natAbs ≤ 2 ^ 63 := by
    have hle := n.le_toInt
    have hlt := n.toInt_lt
    omega
  have hcast : (n.toInt.natAbs : ℚ) ≤ 2 ^ 63 := by exact_mod_cast habs
  rw [Nat.cast_one, div_one]
  refine hcast.trans_lt ?_
  norm_num

/-- A finite number of 64 bits stays finite or is out of range. -/
theorem convert_float_of_double (settings : ConversionSettings) {x : ℚ} (hy : y.value? = some x) :
    (|x| < (2 : ℚ) ^ 128 - 2 ^ 103 → GivesFinite ((double y : Value σ).convert settings .float)) ∧
    ((2 : ℚ) ^ 128 - 2 ^ 103 ≤ |x| →
      (double y : Value σ).convert settings .float = .error ⟨double y, .float, .outOfRange⟩) := by
  have hfinite : y.isFinite = true := by
    rw [Binary.value?] at hy
    rw [isFinite]
    cases hview : y.view <;> rw [hview] at hy <;> cases hy
  obtain ⟨negative, n, hn, rfl⟩ := exists_ofPattern isProper_double hfinite
  have habs : |x| = Format.double.valueAt n := by
    rw [value?_ofPattern isProper_double negative hn] at hy
    rw [←Option.some.inj hy, abs_mul, abs_of_nonneg (Format.valueAt_nonneg _ _)]
    cases negative <;> simp
  rw [habs, convert_float_of_toDouble settings (ValueType.noConfusion ·) rfl]
  obtain ⟨hsmall, hlarge⟩ := toSingle_of_finite negative hn
  constructor
  · intro hlt
    obtain ⟨z, hz, hzFinite⟩ := hsmall hlt
    exact ⟨z, by rw [hz]; rfl, hzFinite⟩
  · intro hle
    rw [hlarge hle]
    rfl

end Conversions

/-- Conversions to 32 bits keep finite numbers finite up to the largest number of
32 bits and half a step beyond it, less what the rounding to 64 bits takes away;
larger ones are out of range. All integers of 64 bits stay finite. But a decimal
literal from half a step beyond the largest number of 64 bits on is converted to
the infinity of its sign. -/
theorem finite_numbers_narrow (settings : ConversionSettings) :
    (∀ (s : Text) (negative : Bool) (x : ℚ), SpellsDecimal (trim s) negative x →
      (x < (2 : ℚ) ^ 128 - 2 ^ 103 - 2 ^ 74 →
        GivesFinite ((string s : Value σ).convert settings .float)) ∧
      ((2 : ℚ) ^ 128 - 2 ^ 103 - 2 ^ 74 ≤ x → x < (2 : ℚ) ^ 1024 - 2 ^ 970 →
        (string s : Value σ).convert settings .float = .error ⟨string s, .float, .outOfRange⟩) ∧
      ((2 : ℚ) ^ 1024 - 2 ^ 970 ≤ x →
        (string s : Value σ).convert settings .float = .ok (float (infinity negative)))) ∧
    (∀ n : Int64, GivesFinite ((long n : Value σ).convert settings .float)) ∧
    (∀ (y : Double) (x : ℚ), y.value? = some x →
      (|x| < (2 : ℚ) ^ 128 - 2 ^ 103 →
        GivesFinite ((double y : Value σ).convert settings .float)) ∧
      ((2 : ℚ) ^ 128 - 2 ^ 103 ≤ |x| →
        (double y : Value σ).convert settings .float = .error ⟨double y, .float, .outOfRange⟩)) ∧
    Reason.outOfRange.message = "value out of range" := by
  refine ⟨fun s negative x hspells => ?_, convert_float_of_long settings,
    fun y x hy => convert_float_of_double settings hy, rfl⟩
  obtain ⟨n, hround, hread⟩ := hspells.read hasFraction_double
  refine convert_float_of_roundsTo settings (ValueType.noConfusion ·) ?_ hround
  rw [toDouble, hread]
  rfl

/-- A power of ten is spelled by its exponent. -/
theorem spellsDecimal_power (k : Nat) :
    SpellsDecimal ("1e".toList ++ Text.ofNat k) false (10 ^ k) := by
  have hexponent := spellsExponent_of_digits (.inl (Eq.refl 'e')) .none (ofNat_ne_nil k)
    fun _ => isDigit_of_mem_ofNat
  have hone : ∀ c ∈ ['1'] ++ [], c.isDigit = true := List.forall_mem_singleton.mpr rfl
  have hspells := spellsDecimal_of_digits .none .none (List.cons_ne_nil _ _) hone hexponent
  have hvalue : (ofDigits 10 (['1'] ++ []) : ℚ) *
      10 ^ (Decimal.signed false (ofDigits 10 (Text.ofNat k)) - ([] : Text).length) = 10 ^ k := by
    have hdigit : ofDigits 10 (['1'] ++ []) = 1 := rfl
    rw [hdigit, ofDigits_ofNat, Nat.cast_one, one_mul]
    exact zpow_natCast _ _
  rw [hvalue] at hspells
  exact hspells

/-- Where three powers of ten lie. -/
theorem powers_sample :
    (10 : ℚ) ^ 38 < 2 ^ 128 - 2 ^ 103 - 2 ^ 74 ∧ (2 : ℚ) ^ 128 - 2 ^ 103 - 2 ^ 74 ≤ 10 ^ 308 ∧
      (10 : ℚ) ^ 308 < 2 ^ 1024 - 2 ^ 970 ∧ (2 : ℚ) ^ 1024 - 2 ^ 970 ≤ 10 ^ 309 := by
  have hbelow : (10 : ℚ) ^ 308 + 2 ^ 970 < 2 ^ 1024 := by
    exact_mod_cast (by decide +kernel : 10 ^ 308 + 2 ^ 970 < 2 ^ 1024)
  have habove : (2 : ℚ) ^ 1024 ≤ 10 ^ 309 := by
    exact_mod_cast (by decide +kernel : 2 ^ 1024 ≤ 10 ^ 309)
  refine ⟨by norm_num, ?_, lt_sub_iff_add_lt.mpr hbelow, ?_⟩
  · have hpow : (10 : ℚ) ^ 39 ≤ 10 ^ 308 := pow_le_pow_right₀ (by norm_num) (by decide)
    refine le_trans ?_ hpow
    norm_num
  · exact (sub_le_self _ (by positivity)).trans habove

theorem finite_numbers_narrow_sample :
    SpellsDecimal (trim "1e38".toList) false (10 ^ 38) ∧
      GivesFinite ((string "1e38".toList : Value ConversionSettings).convert {} .float) ∧
      SpellsDecimal (trim "1e308".toList) false (10 ^ 308) ∧
      (string "1e308".toList : Value ConversionSettings).convert {} .float =
        .error ⟨string "1e308".toList, .float, .outOfRange⟩ ∧
      SpellsDecimal (trim "1e309".toList) false (10 ^ 309) ∧
      (string "1e309".toList : Value ConversionSettings).convert {} .float =
        .ok (float (infinity false)) ∧
      (⟨0x47EFFFFFF0000000#64⟩ : Double).value? = some (2 ^ 128 - 2 ^ 103) ∧
      (double ⟨0x47EFFFFFF0000000#64⟩ : Value ConversionSettings).convert {} .float =
        .error ⟨double ⟨0x47EFFFFFF0000000#64⟩, .float, .outOfRange⟩ := by
  have hpower : ∀ k, trim ("1e".toList ++ Text.ofNat k) = "1e".toList ++ Text.ofNat k := fun k =>
    trim_eq_self_iff.mpr (spellsDecimal_power k).isTrimmed
  have hspells : ∀ k, SpellsDecimal (trim ("1e".toList ++ Text.ofNat k)) false (10 ^ k) := fun k =>
    (hpower k).symm ▸ spellsDecimal_power k
  obtain ⟨hsmall, hmiddle, hmiddle', hlarge⟩ := powers_sample
  have hend : (⟨0x47EFFFFFF0000000#64⟩ : Double).value? = some (2 ^ 128 - 2 ^ 103) := by
    have hview : (⟨0x47EFFFFFF0000000#64⟩ : Double).view = .finite false 0x1FFFFFF0000000 75 := by
      decide
    norm_num [Binary.value?, hview, FloatView.value?, Decimal.signed]
  obtain ⟨hliteral, -, hdouble, -⟩ := finite_numbers_narrow (σ := ConversionSettings) {}
  exact ⟨hspells 38, (hliteral _ _ _ (hspells 38)).1 hsmall, hspells 308,
    (hliteral _ _ _ (hspells 308)).2.1 hmiddle hmiddle', hspells 309,
    (hliteral _ _ _ (hspells 309)).2.2 hlarge, hend, (hdouble _ _ hend).2 (le_abs_self _)⟩

/-- A decimal literal that is converted to an infinity. -/
theorem overflowing_literal_converts :
    SpellsDecimal (trim "1e309".toList) false (10 ^ 309) ∧
      (string "1e309".toList : Value ConversionSettings).convert {} .float =
        .ok (float (infinity false)) ∧
      ¬(GivesFinite ((string "1e309".toList : Value ConversionSettings).convert {} .float) ∨
        (string "1e309".toList : Value ConversionSettings).convert {} .float =
          .error ⟨string "1e309".toList, .float, .outOfRange⟩) := by
  have htrim : trim "1e309".toList = "1e309".toList :=
    trim_eq_self_iff.mpr (spellsDecimal_power 309).isTrimmed
  have hspells : SpellsDecimal (trim "1e309".toList) false (10 ^ 309) :=
    htrim.symm ▸ spellsDecimal_power 309
  obtain ⟨n, hround, hread⟩ := hspells.read hasFraction_double
  have hdouble : (string "1e309".toList : Value ConversionSettings).toDouble =
      .ok (ofPattern false n) := by
    rw [toDouble, hread]
    rfl
  have hconvert := (convert_float_of_roundsTo {} (ValueType.noConfusion ·) hdouble hround).2.2
    powers_sample.2.2.2
  refine ⟨hspells, hconvert, ?_⟩
  rw [hconvert]
  rintro (⟨y, hy, hfinite⟩ | herror)
  · cases hy
    rw [isFinite, view_infinity isProper_single] at hfinite
    cases hfinite
  · cases herror

end Value

end DataPipeline
