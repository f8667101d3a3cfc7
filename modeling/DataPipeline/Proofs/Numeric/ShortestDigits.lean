import DataPipeline.Proofs.Numeric.Positional
import DataPipeline.Proofs.Numeric.Rounding

/-!
# Shortest digits

The interval of a pattern frames it by its borders, so a multiple of a grid lies in
the interval exactly if it is rounded to the pattern. On a grid the multiple that is
taken is nearest to the number among all that are rounded to it. The grid of the
last try is so fine that it has such a multiple, so the digits that are found are
always rounded to the number.
-/

namespace DataPipeline.Numeric

open Format Format.IsProper Text

variable {f : Format} {n : Nat}

namespace RoundingInterval

/-- An interval whose ends are the borders of a pattern. -/
structure Frames (i : RoundingInterval) (f : Format) (n : Nat) : Prop where
  /-- The centre is the number of the pattern. -/
  centre : i.centre * 2 ^ i.unit = f.valueAt n
  /-- The lower end is the border below. -/
  lower : i.lower * 2 ^ i.unit = f.border n
  /-- The upper end is the border above. -/
  upper : i.upper * 2 ^ i.unit = f.border (n + 1)
  /-- The ends belong to even patterns. -/
  closed : i.closed = true ↔ n % 2 = 0

/-- The interval of a number frames its pattern. -/
theorem frames_roundingInterval (hf : f.HasFraction) (hpos : 0 < n) :
    (roundingInterval f (n - f.shift n * f.leading) (f.minExponent + f.shift n)).Frames f n := by
  obtain ⟨hpacked, hlt, hleading⟩ := f.exists_packed n
  have hvalue := f.valueAt_packed _ _ hlt.le hleading
  have habove := f.border_packed _ _ hlt hleading
  rw [←hpacked] at hvalue habove
  have hleadingPos := leading_pos f
  have hparity := packed_mod_two hf (f.shift n) (n - f.shift n * f.leading)
  rw [←hpacked] at hparity
  generalize f.shift n = field at *
  generalize n - field * f.leading = significand at *
  have hunit : (2 : ℚ) ^ (f.minExponent + field - 2) = 2 ^ (f.minExponent + field) / 4 := by
    rw [zpow_sub₀ (by norm_num)]
    norm_num
  constructor
  · simp only [roundingInterval, hunit, hvalue]
    push_cast
    ring
  · by_cases hfirst : significand = f.leading ∧ 0 < field
    · obtain ⟨rfl, hfield⟩ := hfirst
      obtain ⟨k, rfl⟩ := Nat.exists_eq_add_of_lt hfield
      have hborder := f.border_leading (0 + k)
      have hcast : ((4 * f.leading - 1 : Nat) : ℚ) = 4 * f.leading - 1 := by
        rw [Nat.cast_sub (by omega)]
        push_cast
        rfl
      rw [hpacked, hborder]
      simp only [roundingInterval, hunit]
      rw [if_pos ⟨trivial, by omega⟩, hcast]
      ring
    · have hsignificand : 0 < significand := by
        rcases Nat.eq_zero_or_pos field with rfl | hfield
        · omega
        · exact hleadingPos.trans_le (hleading hfield)
      have hborder := f.border_packed_below field significand hsignificand hlt.le fun hfield =>
        lt_of_le_of_ne (hleading hfield) fun h => hfirst ⟨h.symm, hfield⟩
      have hcast : ((4 * significand - 2 : Nat) : ℚ) = 4 * significand - 2 := by
        rw [Nat.cast_sub (by omega)]
        push_cast
        rfl
      rw [hpacked, hborder]
      simp only [roundingInterval, hunit]
      rw [if_neg (by omega), hcast]
      ring
  · simp only [roundingInterval, hunit, habove]
    push_cast
    ring
  · rw [hparity]
    exact decide_eq_true_iff

section Grid

variable {i : RoundingInterval} {exponent : Int} {num den : Nat}

/-- The quotient that a unit of an interval makes of a unit of a grid, with a common
scale for both. -/
structure IsGridUnit (i : RoundingInterval) (exponent : Int) (num den : Nat) (scale : ℚ) :
    Prop where
  /-- The scale keeps the order. -/
  scale_pos : 0 < scale
  /-- The numerator is the unit of the interval. -/
  unit : num * scale = 2 ^ i.unit
  /-- The denominator is the unit of the grid. -/
  grid : den * scale = 10 ^ exponent

theorem exists_isGridUnit (i : RoundingInterval) (exponent : Int) :
    ∃ scale, IsGridUnit i exponent
      (scaleBy 10 (-exponent) (scaleBy 2 i.unit 1 1).1 (scaleBy 2 i.unit 1 1).2).1
      (scaleBy 10 (-exponent) (scaleBy 2 i.unit 1 1).1 (scaleBy 2 i.unit 1 1).2).2 scale := by
  have hunit := scaleBy_quotient (by decide : 2 ≠ 0) i.unit 1 1
  have hunitDen : 0 < (scaleBy 2 i.unit 1 1).2 := scaleBy_snd_pos (by decide) _ Nat.one_pos
  generalize (scaleBy 2 i.unit 1 1).1 = n at hunit
  generalize (scaleBy 2 i.unit 1 1).2 = d at hunit hunitDen
  have hgrid := scaleBy_quotient (by decide : 10 ≠ 0) (-exponent) n d
  have hgridDen : 0 < (scaleBy 10 (-exponent) n d).2 := scaleBy_snd_pos (by decide) _ hunitDen
  generalize (scaleBy 10 (-exponent) n d).1 = num at hgrid
  generalize (scaleBy 10 (-exponent) n d).2 = den at hgrid hgridDen
  have hden : (0 : ℚ) < den := by exact_mod_cast hgridDen
  have hpow : (0 : ℚ) < 10 ^ exponent := by positivity
  rw [hunit, Nat.cast_one, div_one, one_mul, Nat.cast_ofNat, Nat.cast_ofNat, zpow_neg] at hgrid
  refine ⟨10 ^ exponent / den, by positivity, ?_, mul_div_cancel₀ _ hden.ne'⟩
  rw [←mul_div_assoc, mul_div_right_comm, hgrid, inv_mul_cancel_right₀ hpow.ne']

variable {scale : ℚ}

theorem IsGridUnit.den_pos (h : IsGridUnit i exponent num den scale) : 0 < den := by
  rcases Nat.eq_zero_or_pos den with rfl | hden
  · have hpow : (0 : ℚ) < 10 ^ exponent := by positivity
    have hzero := h.grid
    rw [Nat.cast_zero, zero_mul] at hzero
    exact absurd hzero hpow.ne
  · exact hden

theorem IsGridUnit.le_iff (h : IsGridUnit i exponent num den scale) (a c : Nat) :
    a * num ≤ c * den ↔ (a : ℚ) * 2 ^ i.unit ≤ c * 10 ^ exponent := by
  rw [←h.unit, ←h.grid, ←mul_assoc, ←mul_assoc, mul_le_mul_iff_left₀ h.scale_pos]
  exact_mod_cast Iff.rfl

theorem IsGridUnit.ge_iff (h : IsGridUnit i exponent num den scale) (a c : Nat) :
    c * den ≤ a * num ↔ (c : ℚ) * 10 ^ exponent ≤ a * 2 ^ i.unit := by
  rw [←h.unit, ←h.grid, ←mul_assoc, ←mul_assoc, mul_le_mul_iff_left₀ h.scale_pos]
  exact_mod_cast Iff.rfl

theorem IsGridUnit.lt_iff (h : IsGridUnit i exponent num den scale) (a c : Nat) :
    a * num < c * den ↔ (a : ℚ) * 2 ^ i.unit < c * 10 ^ exponent := by
  rw [←not_le, h.ge_iff, not_le]

theorem IsGridUnit.gt_iff (h : IsGridUnit i exponent num den scale) (a c : Nat) :
    c * den < a * num ↔ (c : ℚ) * 10 ^ exponent < a * 2 ^ i.unit := by
  rw [←not_le, h.le_iff, not_le]

/-- Which of two neighbouring multiples of the grid is nearer. -/
theorem IsGridUnit.nearer_iff (h : IsGridUnit i exponent num den scale) {a below : Nat}
    (hbelow : below * den ≤ a * num) (habove : a * num < (below + 1) * den) :
    a * num - below * den < (below + 1) * den - a * num ↔
      (a : ℚ) * 2 ^ i.unit - below * 10 ^ exponent <
        (below + 1 : Nat) * 10 ^ exponent - a * 2 ^ i.unit := by
  have hdouble := h.lt_iff (2 * a) (2 * below + 1)
  have hnat : a * num - below * den < (below + 1) * den - a * num ↔
      2 * a * num < (2 * below + 1) * den := by
    rw [Nat.mul_assoc, Nat.add_mul, Nat.add_mul, Nat.mul_assoc]
    rw [Nat.add_mul] at habove
    omega
  rw [hnat, hdouble]
  push_cast
  constructor <;> intro hlt <;> linarith

/-- A multiple of the grid lies in the interval of a pattern exactly if it is rounded
to the pattern. -/
theorem contains_iff (h : i.Frames f n) (hgrid : IsGridUnit i exponent num den scale) (c : Nat) :
    i.contains num den c = true ↔ f.RoundsTo (c * 10 ^ exponent) n := by
  rw [contains]
  split
  · next hclosed =>
    rw [Bool.and_eq_true, decide_eq_true_eq, decide_eq_true_eq, hgrid.le_iff, hgrid.ge_iff, h.lower,
      h.upper]
    exact ⟨fun hc => ⟨hc.1, hc.2, fun _ => h.closed.mp hclosed⟩, fun hc => ⟨hc.lower, hc.upper⟩⟩
  · next hopen =>
    have hodd := mt h.closed.mpr hopen
    rw [Bool.and_eq_true, decide_eq_true_eq, decide_eq_true_eq, hgrid.lt_iff, hgrid.gt_iff, h.lower,
      h.upper]
    constructor
    · intro hc
      exact ⟨hc.1.le, hc.2.le, fun hborder => absurd hborder (not_or.mpr ⟨hc.1.ne', hc.2.ne⟩)⟩
    · intro hc
      exact ⟨lt_of_le_of_ne hc.lower fun heq => hodd (hc.even (.inl heq.symm)),
        lt_of_le_of_ne hc.upper fun heq => hodd (hc.even (.inr heq))⟩

/-- A decimal of a grid that is rounded to a pattern, and no other one that is lies
nearer to the number of the pattern. -/
structure NearestOnGrid (f : Format) (n : Nat) (s : Scientific) : Prop where
  /-- The decimal is rounded to the pattern. -/
  rounds : f.RoundsTo s.value n
  /-- No other one is nearer. -/
  nearest : ∀ c : Nat, f.RoundsTo (c * 10 ^ s.exponent) n →
    |s.value - f.valueAt n| ≤ |(c * 10 ^ s.exponent : ℚ) - f.valueAt n|

/-- Multiples of a grid are at least as far away as the neighbour on their side. -/
theorem le_abs_sub_of_neighbours (below c : Nat) :
    c ≤ below ∧ f.valueAt n - below * 10 ^ exponent ≤ |(c * 10 ^ exponent : ℚ) - f.valueAt n| ∨
      below + 1 ≤ c ∧ (below + 1 : Nat) * 10 ^ exponent - f.valueAt n ≤
        |(c * 10 ^ exponent : ℚ) - f.valueAt n| := by
  have hgrid : (0 : ℚ) < 10 ^ exponent := by positivity
  rcases Nat.lt_or_ge below c with hlt | hle
  · refine .inr ⟨hlt, (sub_le_sub_right ?_ _).trans (le_abs_self _)⟩
    exact mul_le_mul_of_nonneg_right (by exact_mod_cast hlt) hgrid.le
  · refine .inl ⟨hle, le_trans ?_ (neg_le_abs _)⟩
    rw [neg_sub]
    exact sub_le_sub_left (mul_le_mul_of_nonneg_right (by exact_mod_cast hle) hgrid.le) _

section Neighbours

variable {below : Nat} (hbelow : (below * 10 ^ exponent : ℚ) ≤ f.valueAt n)
  (habove : f.valueAt n < (below + 1 : Nat) * 10 ^ exponent)

include hbelow habove

/-- The lower neighbour is the nearest one if it is nearer than the upper neighbour, or
if that is not rounded to the number. -/
theorem nearestOnGrid_below (hrounds : f.RoundsTo (below * 10 ^ exponent) n)
    (hnearer :
      f.valueAt n - below * 10 ^ exponent < (below + 1 : Nat) * 10 ^ exponent - f.valueAt n ∨
      ¬f.RoundsTo ((below + 1 : Nat) * 10 ^ exponent) n) :
    NearestOnGrid f n ⟨below, exponent⟩ where
  rounds := hrounds
  nearest c hc := by
    have hgrid : (0 : ℚ) < 10 ^ exponent := by positivity
    rw [Scientific.value, abs_sub_comm, abs_of_nonneg (sub_nonneg.mpr hbelow)]
    rcases le_abs_sub_of_neighbours (f := f) (n := n) below c with ⟨-, hdistance⟩ | ⟨hle, hdistance⟩
    · exact hdistance
    · rcases hnearer with hnearer | hnot
      · exact (hnearer.trans_le hdistance).le
      · have hupper : ((below + 1 : Nat) * 10 ^ exponent : ℚ) ≤ c * 10 ^ exponent :=
          mul_le_mul_of_nonneg_right (by exact_mod_cast hle) hgrid.le
        exact absurd ((RoundsTo.valueAt f n).between hc habove.le hupper) hnot

/-- The upper neighbour is the nearest one if the lower neighbour is not nearer, or if
that is not rounded to the number. -/
theorem nearestOnGrid_above (hrounds : f.RoundsTo ((below + 1 : Nat) * 10 ^ exponent) n)
    (hnearer :
      (below + 1 : Nat) * 10 ^ exponent - f.valueAt n ≤ f.valueAt n - below * 10 ^ exponent ∨
      ¬f.RoundsTo (below * 10 ^ exponent) n) :
    NearestOnGrid f n ⟨below + 1, exponent⟩ where
  rounds := hrounds
  nearest c hc := by
    have hgrid : (0 : ℚ) < 10 ^ exponent := by positivity
    rw [Scientific.value, abs_of_nonneg (sub_nonneg.mpr habove.le)]
    rcases le_abs_sub_of_neighbours (f := f) (n := n) below c with ⟨hle, hdistance⟩ | ⟨-, hdistance⟩
    · rcases hnearer with hnearer | hnot
      · exact hnearer.trans hdistance
      · have hlower : (c * 10 ^ exponent : ℚ) ≤ below * 10 ^ exponent :=
          mul_le_mul_of_nonneg_right (by exact_mod_cast hle) hgrid.le
        exact absurd (hc.between (RoundsTo.valueAt f n) hlower hbelow) hnot
    · exact hdistance

end Neighbours

/-- What is found on a grid is the nearest decimal there, and nothing is found only
if neither neighbour of the number is rounded to it. -/
theorem onGrid?_spec (h : i.Frames f n) (exponent : Int) :
    (∀ s, i.onGrid? exponent = some s → NearestOnGrid f n s) ∧
      (i.onGrid? exponent = none → ∃ below : Nat,
        (below * 10 ^ exponent : ℚ) ≤ f.valueAt n ∧
        f.valueAt n < (below + 1 : Nat) * 10 ^ exponent ∧
        ¬f.RoundsTo (below * 10 ^ exponent) n ∧
        ¬f.RoundsTo ((below + 1 : Nat) * 10 ^ exponent) n) := by
  obtain ⟨scale, hgrid⟩ := exists_isGridUnit i exponent
  rw [onGrid?]
  dsimp only
  generalize (scaleBy 10 (-exponent) (scaleBy 2 i.unit 1 1).1 (scaleBy 2 i.unit 1 1).2).1 = num
    at hgrid
  generalize (scaleBy 10 (-exponent) (scaleBy 2 i.unit 1 1).1 (scaleBy 2 i.unit 1 1).2).2 = den
    at hgrid
  have hbelowNat : i.centre * num / den * den ≤ i.centre * num := Nat.div_mul_le_self _ _
  have haboveNat : i.centre * num < (i.centre * num / den + 1) * den := by
    rw [Nat.mul_comm _ den]
    exact Nat.lt_mul_div_succ _ hgrid.den_pos
  generalize i.centre * num / den = below at hbelowNat haboveNat
  have hbelow := (hgrid.ge_iff _ _).mp hbelowNat
  have habove := (hgrid.lt_iff _ _).mp haboveNat
  have hnearer := hgrid.nearer_iff hbelowNat haboveNat
  rw [h.centre] at hbelow habove hnearer
  have hbelowFits := contains_iff h hgrid below
  have haboveFits := contains_iff h hgrid (below + 1)
  split
  · next hcase =>
    rw [Bool.and_eq_true, Bool.or_eq_true, decide_eq_true_eq, Bool.not_eq_true',
      ←Bool.not_eq_true, hbelowFits, haboveFits, hnearer] at hcase
    refine ⟨fun s hs => ?_, nofun⟩
    cases hs
    exact nearestOnGrid_below hbelow habove hcase.1 hcase.2
  · next hcase =>
    rw [Bool.and_eq_true, Bool.or_eq_true, decide_eq_true_eq, Bool.not_eq_true',
      ←Bool.not_eq_true, hbelowFits, haboveFits, hnearer] at hcase
    split
    · next hfits =>
      rw [haboveFits] at hfits
      refine ⟨fun s hs => ?_, nofun⟩
      cases hs
      refine nearestOnGrid_above hbelow habove hfits ?_
      by_cases hlower : f.RoundsTo (below * 10 ^ exponent) n
      · exact .inl (not_lt.mp fun hlt => hcase ⟨hlower, .inl hlt⟩)
      · exact .inr hlower
    · next hfits =>
      rw [haboveFits] at hfits
      exact ⟨nofun, fun _ => ⟨below, hbelow, habove, fun hlower => hcase ⟨hlower, .inr hfits⟩,
        hfits⟩⟩

end Grid

end RoundingInterval

section Shortest

open RoundingInterval

variable {num den : Nat}

/-- A number has at least the order that its digits say. -/
theorem pow_digitCount_le {q : Nat} (hq : 0 < q) : 10 ^ (digitCount q - 1) ≤ q := by
  have hcount : 0 < digitCount q := List.length_pos_of_ne_nil (ofNat_ne_nil q)
  rcases Nat.eq_zero_or_pos (digitCount q - 1) with hzero | hpos
  · rw [hzero]
    exact hq
  · by_contra hlt
    have hle : digitCount q ≤ digitCount q - 1 :=
      (Nat.length_toDigits_le_iff (by decide) hpos).mpr (Nat.not_le.mp hlt)
    omega

/-- The decimal order of a quotient is not too large. -/
theorem pow_decimalOrder_le (hnum : 0 < num) (hden : 0 < den) :
    (10 : ℚ) ^ (decimalOrder num den - 1) ≤ num / den := by
  have hden' : (0 : ℚ) < den := by exact_mod_cast hden
  rw [decimalOrder]
  split
  · next hle =>
    have hcount : 0 < digitCount (num / den) := List.length_pos_of_ne_nil (ofNat_ne_nil _)
    have hpow := pow_digitCount_le (Nat.div_pos hle hden)
    have hexponent : (digitCount (num / den) : Int) - 1 = (digitCount (num / den) - 1 : Nat) := by
      omega
    rw [hexponent, zpow_natCast]
    calc (10 : ℚ) ^ (digitCount (num / den) - 1) ≤ (num / den : Nat) := by exact_mod_cast hpow
      _ ≤ num / den := Nat.cast_div_le
  · next hlt =>
    have hpow := Decimal.lt_pow_digitCount ((den - 1) / num)
    rw [Nat.div_lt_iff_lt_mul hnum] at hpow
    have hexponent : 1 - (digitCount ((den - 1) / num) : Int) - 1 =
        -(digitCount ((den - 1) / num) : Int) := by omega
    rw [hexponent, zpow_neg, zpow_natCast, inv_eq_one_div, div_le_div_iff₀ (by positivity) hden']
    have hle : 1 * den ≤ num * 10 ^ digitCount ((den - 1) / num) := by
      rw [Nat.mul_comm num]
      omega
    exact_mod_cast hle

/-- A number close to that of a pattern is rounded to it. -/
theorem roundsTo_of_abs_sub_lt (hf : f.HasFraction) (hpos : 0 < n) {x : ℚ}
    (hclose : |x - f.valueAt n| < 2 ^ (f.minExponent + f.shift n) / 4) : f.RoundsTo x n := by
  have hframes := frames_roundingInterval hf hpos
  have hsignificand := f.significand_pos hpos
  have hunitPos : (0 : ℚ) < 2 ^ (f.minExponent + f.shift n) := by positivity
  have hlower : f.border n + 2 ^ (f.minExponent + f.shift n) / 4 ≤ f.valueAt n := by
    generalize hi : roundingInterval f (n - f.shift n * f.leading) (f.minExponent + f.shift n) = i
      at hframes
    have hunit : (2 : ℚ) ^ (f.minExponent + f.shift n) / 4 = 2 ^ i.unit := by
      rw [←hi, roundingInterval, zpow_sub₀ (by norm_num)]
      norm_num
    have hends : i.lower + 1 ≤ i.centre := by
      rw [←hi, roundingInterval]
      dsimp only
      split <;> omega
    rw [←hframes.lower, ←hframes.centre, hunit, ←add_one_mul]
    exact mul_le_mul_of_nonneg_right (by exact_mod_cast hends) (by positivity)
  have hupper := f.border_succ n
  obtain ⟨hbelow, habove⟩ := abs_lt.mp hclose
  exact ⟨by linarith, by linarith, fun h => by rcases h with h | h <;> linarith⟩

/-- The grid of the last try is finer than half a unit of the last bit. -/
theorem lastGrid_lt {precision : Nat} (hprecision : 2 ≤ precision) {v : ℚ} {order exponent : Int}
    (hlower : (10 : ℚ) ^ (order - 1) ≤ v) (hupper : v < 2 ^ precision * 2 ^ exponent) :
    (10 : ℚ) ^ (order - precision) < 2 ^ exponent / 2 := by
  obtain ⟨k, rfl⟩ := Nat.exists_eq_add_of_le hprecision
  have hten : (10 : ℚ) ^ (order - 1) = 10 ^ (order - (2 + k : Nat)) * 10 ^ (k + 1) := by
    rw [←zpow_natCast 10 (k + 1), ←zpow_add₀ (by norm_num)]
    congr 1
    push_cast
    ring
  have hpow : (2 : ℚ) ^ (2 + k) * 2 ≤ 10 ^ (k + 1) := by
    calc (2 : ℚ) ^ (2 + k) * 2 = 2 ^ k * 8 := by ring
      _ ≤ 10 ^ k * 10 := by gcongr <;> norm_num
      _ = 10 ^ (k + 1) := by ring
  have hunit : (0 : ℚ) < 2 ^ exponent := by positivity
  have hgrid : (0 : ℚ) < 10 ^ (k + 1) := by positivity
  refine lt_of_mul_lt_mul_right ?_ hgrid.le
  calc (10 : ℚ) ^ (order - (2 + k : Nat)) * 10 ^ (k + 1) = 10 ^ (order - 1) := hten.symm
    _ < 2 ^ (2 + k) * 2 ^ exponent := hlower.trans_lt hupper
    _ = 2 ^ exponent / 2 * (2 ^ (2 + k) * 2) := by ring
    _ ≤ 2 ^ exponent / 2 * 10 ^ (k + 1) := by gcongr

/-- On the grid of the last try a neighbour of the number is rounded to it. -/
theorem exists_onGrid?_last (hf : f.HasFraction) (hpos : 0 < n) {i : RoundingInterval}
    (hframes : i.Frames f n) {order : Int} (horder : (10 : ℚ) ^ (order - 1) ≤ f.valueAt n) :
    i.onGrid? (order - f.precision) ≠ none := by
  intro hnone
  obtain ⟨below, hbelow, habove, hbelowNot, haboveNot⟩ := (onGrid?_spec hframes _).2 hnone
  have hlt : f.valueAt n < 2 ^ f.precision * 2 ^ (f.minExponent + f.shift n) := by
    obtain ⟨-, hlt, -⟩ := f.exists_packed n
    rw [hf.two_mul_leading] at hlt
    rw [valueAt]
    exact mul_lt_mul_of_pos_right (by exact_mod_cast hlt) (by positivity)
  have hgrid := lastGrid_lt hf.two_le_precision horder hlt
  generalize (10 : ℚ) ^ (order - f.precision) = unit at hbelow habove hbelowNot haboveNot hgrid
  push_cast at habove haboveNot
  rcases le_total (f.valueAt n - below * unit) (unit / 2) with hnear | hfar
  · refine hbelowNot (roundsTo_of_abs_sub_lt hf hpos ?_)
    rw [abs_sub_comm, abs_of_nonneg (by linarith)]
    linarith
  · refine haboveNot (roundsTo_of_abs_sub_lt hf hpos ?_)
    rw [abs_of_nonneg (by linarith)]
    linarith

/-- The shortest digits of a number are rounded to it, and are the nearest ones of
their grid. -/
theorem nearestOnGrid_shortest (hf : f.HasFraction) (hpos : 0 < n) :
    NearestOnGrid f n
      (shortest f (n - f.shift n * f.leading) (f.minExponent + f.shift n)) := by
  have hframes := frames_roundingInterval hf hpos
  have hquotient := scaleBy_quotient (by decide : 2 ≠ 0) (f.minExponent + f.shift n)
    (n - f.shift n * f.leading) 1
  rw [Nat.cast_one, div_one, Nat.cast_ofNat, ←valueAt] at hquotient
  rw [shortest]
  dsimp only
  generalize roundingInterval f (n - f.shift n * f.leading) (f.minExponent + f.shift n) = i
    at hframes
  have hden : 0 < (scaleBy 2 (f.minExponent + f.shift n) (n - f.shift n * f.leading) 1).2 :=
    scaleBy_snd_pos (by decide) _ Nat.one_pos
  generalize (scaleBy 2 (f.minExponent + f.shift n) (n - f.shift n * f.leading) 1).1 = num
    at hquotient
  generalize (scaleBy 2 (f.minExponent + f.shift n) (n - f.shift n * f.leading) 1).2 = den
    at hquotient hden
  have hnum : 0 < num := by
    rcases Nat.eq_zero_or_pos num with rfl | hnum
    · have hvalue := f.valueAt_strictMono hpos
      rw [valueAt_zero, ←hquotient, Nat.cast_zero, zero_div] at hvalue
      exact absurd hvalue (lt_irrefl 0)
    · exact hnum
  have horder := pow_decimalOrder_le hnum hden
  rw [hquotient] at horder
  cases hfound : (List.range f.precision).findSome? fun k =>
      i.onGrid? (decimalOrder num den - (k + 1 : Nat)) with
  | some s =>
    obtain ⟨k, -, hk⟩ := List.exists_of_findSome?_eq_some hfound
    exact (onGrid?_spec hframes _).1 s hk
  | none =>
    have hprecision := hf.two_le_precision
    have hlast := List.findSome?_eq_none_iff.mp hfound (f.precision - 1)
      (List.mem_range.mpr (by omega))
    rw [Nat.sub_add_cancel (by omega)] at hlast
    exact absurd hlast (exists_onGrid?_last hf hpos hframes horder)

/-- The neighbour of a decimal on its grid, on the side where a number is. -/
theorem exists_neighbour (s : Scientific) {v : ℚ} (hv : 0 ≤ v) :
    ∃ c : Nat, |(c * 10 ^ s.exponent : ℚ) - v| = |10 ^ s.exponent - (|s.value - v|)| := by
  rcases le_or_gt s.value v with hle | hlt
  · refine ⟨s.digits + 1, ?_⟩
    rw [abs_sub_comm s.value, abs_of_nonneg (sub_nonneg.mpr hle), Scientific.value]
    congr 1
    push_cast
    ring
  · have hdigits : 0 < s.digits := by
      rw [Scientific.value] at hlt
      exact_mod_cast pos_of_mul_pos_left (hv.trans_lt hlt) (by positivity)
    refine ⟨s.digits - 1, ?_⟩
    rw [abs_of_pos (sub_pos.mpr hlt), abs_sub_comm (10 ^ s.exponent), Scientific.value,
      Nat.cast_sub hdigits]
    congr 1
    push_cast
    ring

/-- The digits of an odd pattern are far from it only on a coarse grid: their neighbour on
the other side of the number is not nearer, or it is not within the other border. -/
theorem RoundingInterval.NearestOnGrid.le_grid (hf : f.HasFraction) (hodd : n % 2 = 1)
    {s : Scientific} (h : NearestOnGrid f n s) :
    2 * |s.value - f.valueAt n| ≤ 10 ^ s.exponent ∨
      |s.value - f.valueAt n| + 2 ^ (f.minExponent + f.shift n) / 2 ≤ 10 ^ s.exponent := by
  have hgrid : (0 : ℚ) < 10 ^ s.exponent := by positivity
  have hclose := (roundsTo_iff_of_odd hf hodd).mp h.rounds
  obtain ⟨c, hc⟩ := exists_neighbour s (f.valueAt_nonneg n)
  have hnearest := h.nearest c
  rw [roundsTo_iff_of_odd hf hodd, hc] at hnearest
  generalize |s.value - f.valueAt n| = distance at *
  generalize (10 : ℚ) ^ s.exponent = grid at *
  rcases le_or_gt grid distance with hle | hlt
  · -- A neighbour on the same side would be nearer.
    rw [abs_of_nonpos (by linarith)] at hnearest
    have hnearer := hnearest (by linarith)
    exact .inl (by linarith)
  · rw [abs_of_pos (by linarith)] at hnearest
    by_cases hwithin : grid - distance < 2 ^ (f.minExponent + f.shift n) / 2
    · have hnearer := hnearest hwithin
      exact .inl (by linarith)
    · exact .inr (by linarith)

end Shortest

end DataPipeline.Numeric
