import DataPipeline.Proofs.Numeric.DecimalValue
import DataPipeline.Proofs.Numeric.IntegerText
import DataPipeline.Proofs.Numeric.Positional

/-!
# Decimals and their texts

In whichever of its three forms a decimal is written, its text is a sign, the
digits before the point, the digits behind it and an exponent, and the reader
takes such a literal apart into the same pieces. So a decimal is read back as
the number that it denotes. Its scale may change when zeros were appended, but
it is a 64-bit integer before and after.
-/

namespace DataPipeline.Numeric.Decimal

open Text

/-- A literal by its parts: a sign, the digits before the point, the digits
behind it and the exponent. Without digits behind the point there is no point. -/
def literal (negative : Bool) (whole fraction exponent : Text) : Text :=
  (if negative then ['-'] else []) ++ whole ++
    ((if fraction = [] then [] else '.' :: fraction) ++ exponent)

/-- The exponent of a literal: none at all, or an integer behind its mark. -/
inductive IsExponent : Text → Int → Prop
  | none : IsExponent [] 0
  | marked {mark : Char} {t : Text} {n : Int} (letter : mark = 'e' ∨ mark = 'E')
      (read : signedDigits? t = some n) (visible : ∀ c ∈ t, isBlank c = false) :
      IsExponent (mark :: t) n

/-- The integer that digits with a sign denote. -/
def signed (negative : Bool) (n : Nat) : Int := if negative then -(n : Int) else n

section Literals

variable {negative : Bool} {whole fraction exponent : Text} {n : Int}

theorem filter_digits {t : Text} (h : ∀ c ∈ t, c.isDigit = true) : t.filter (· ≠ '_') = t := by
  rw [List.filter_eq_self]
  intro c hc
  exact decide_eq_true (ne_of_isDigit (h c hc) rfl)

/-- Digits with a sign in front are read as one integer. -/
theorem groupedInteger?_digits (negative : Bool) {digits : Text}
    (h : ∀ c ∈ digits, c.isDigit = true) (hne : digits ≠ []) :
    groupedInteger? ((if negative then ['-'] else []) ++ digits) =
      some (signed negative (ofDigits 10 digits)) := by
  obtain ⟨c, t, rfl⟩ := List.exists_cons_of_ne_nil hne
  have hc := h c List.mem_cons_self
  have hcut : cutSign ((if negative then ['-'] else []) ++ c :: t) = (negative, c :: t) := by
    cases negative with
    | true => rfl
    | false => exact cutSign_of_digit hc t
  have hhead : (c :: t).head? ≠ some '_' := by
    intro hno
    exact ne_of_isDigit hc rfl (Option.some.inj hno)
  rw [groupedInteger?, hcut]
  simp only [hhead, if_false, filter_digits h, natural?_of_digits h hne]
  rfl

/-- The exponent is cut off at its mark. -/
theorem cut_exponent {mantissa : Text} (hm : ∀ c ∈ mantissa, c ≠ 'e' ∧ c ≠ 'E')
    (he : IsExponent exponent n) :
    (mantissa ++ exponent).takeWhile (fun c => !(c = 'e' || c = 'E')) = mantissa ∧
      (mantissa ++ exponent).dropWhile (fun c => !(c = 'e' || c = 'E')) = exponent := by
  have hall : ∀ c ∈ mantissa, (!(decide (c = 'e') || decide (c = 'E'))) = true := by
    intro c hc
    simp [hm c hc]
  rw [List.takeWhile_append_of_pos hall, List.dropWhile_append_of_pos hall]
  cases he with
  | none => exact ⟨List.append_nil _, rfl⟩
  | @marked mark _ _ letter _ _ =>
    have hstop : ¬(!(decide (mark = 'e') || decide (mark = 'E'))) = true := by
      rcases letter with rfl | rfl <;> decide
    constructor
    · rw [List.takeWhile_cons, if_neg hstop, List.append_nil]
    · rw [List.dropWhile_cons, if_neg hstop]

/-- The digits behind the point are cut off at the point. -/
theorem cut_fraction {front : Text} (hf : ∀ c ∈ front, c ≠ '.') (fraction : Text) :
    (front ++ if fraction = [] then [] else '.' :: fraction).takeWhile (· ≠ '.') = front ∧
      ((front ++ if fraction = [] then [] else '.' :: fraction).dropWhile (· ≠ '.')).drop 1 =
        fraction := by
  have hall : ∀ c ∈ front, decide (c ≠ '.') = true := fun c hc => decide_eq_true (hf c hc)
  rw [List.takeWhile_append_of_pos hall, List.dropWhile_append_of_pos hall]
  split
  · next hnil =>
    rw [hnil]
    exact ⟨List.append_nil _, rfl⟩
  · exact ⟨List.append_nil _, rfl⟩

/-- A literal is read as its digits with a scale that counts the digits behind
the point against the exponent. -/
theorem ofText?_literal (hw : ∀ c ∈ whole, c.isDigit = true) (hne : whole ≠ [])
    (hf : ∀ c ∈ fraction, c.isDigit = true) (he : IsExponent exponent n)
    (hfits : fitsSigned 64 (fraction.length - n) = true) :
    ofText? (literal negative whole fraction exponent) =
      some ⟨signed negative (ofDigits 10 (whole ++ fraction)), fraction.length - n⟩ := by
  have hdigits : ∀ c ∈ whole ++ fraction, c.isDigit = true := by
    intro c hc
    exact (List.mem_append.mp hc).elim (hw c) (hf c)
  have hfront : ∀ mark : Char, mark.isDigit = false → mark ≠ '-' →
      ∀ c ∈ (if negative then ['-'] else []) ++ whole, c ≠ mark := by
    intro mark hmark hminus c hc
    rcases List.mem_append.mp hc with hc | hc
    · split at hc
      · rw [List.mem_singleton.mp hc]
        exact hminus.symm
      · cases hc
    · exact ne_of_isDigit (hw c hc) hmark
  have hmantissa : ∀ mark : Char, mark.isDigit = false → mark ≠ '-' → mark ≠ '.' →
      ∀ c ∈ (if negative then ['-'] else []) ++ whole ++
        if fraction = [] then [] else '.' :: fraction, c ≠ mark := by
    intro mark hmark hminus hpoint c hc
    rcases List.mem_append.mp hc with hc | hc
    · exact hfront mark hmark hminus c hc
    · split at hc
      · cases hc
      · rcases List.mem_cons.mp hc with rfl | hc
        · exact hpoint.symm
        · exact ne_of_isDigit (hf c hc) hmark
  obtain ⟨htake, hdrop⟩ := cut_exponent
    (fun c hc => ⟨hmantissa 'e' rfl (by decide) (by decide) c hc,
      hmantissa 'E' rfl (by decide) (by decide) c hc⟩) he
  obtain ⟨hwhole, hfraction⟩ := cut_fraction (hfront '.' rfl (by decide)) fraction
  have hinteger := groupedInteger?_digits negative hdigits (by simp [hne])
  rw [←List.append_assoc] at hinteger
  rw [literal, ←List.append_assoc, ofText?]
  simp only [htake, hdrop, hwhole, hfraction, filter_digits hf, hinteger]
  cases he with
  | none =>
    rw [Option.bind_eq_bind, Option.bind_some, if_pos hfits]
    rfl
  | marked _ read _ =>
    simp only [read]
    rw [Option.bind_eq_bind, Option.bind_some, if_pos hfits]
    rfl

/-- A text that spells a decimal by the parts of a literal. -/
inductive IsLiteral (t : Text) (d : Decimal) : Prop
  | intro {negative : Bool} {whole fraction exponent : Text} {n : Int}
      (text : t = literal negative whole fraction exponent)
      (whole_digits : ∀ c ∈ whole, c.isDigit = true) (whole_ne_nil : whole ≠ [])
      (fraction_digits : ∀ c ∈ fraction, c.isDigit = true) (isExponent : IsExponent exponent n)
      (unscaled : d.unscaled = signed negative (ofDigits 10 (whole ++ fraction)))
      (scale : d.scale = fraction.length - n)

theorem IsLiteral.ofText? {t : Text} {d : Decimal} (h : IsLiteral t d)
    (hfits : fitsSigned 64 d.scale = true) : ofText? t = some d := by
  obtain ⟨rfl, hw, hne, hf, he, hunscaled, hscale⟩ := h
  rw [hscale] at hfits
  rw [ofText?_literal hw hne hf he hfits, ←hunscaled, ←hscale]

/-- There are no blanks in a literal. -/
theorem IsLiteral.isTrimmed {t : Text} {d : Decimal} (h : IsLiteral t d) : IsTrimmed t := by
  obtain ⟨rfl, hw, -, hf, he, -, -⟩ := h
  refine isTrimmed_of_forall fun c hc => ?_
  simp only [literal, List.mem_append] at hc
  rcases hc with (hc | hc) | hc | hc
  · split at hc
    · rw [List.mem_singleton.mp hc]
      rfl
    · cases hc
  · exact isBlank_of_isDigit (hw c hc)
  · split at hc
    · cases hc
    · rcases List.mem_cons.mp hc with rfl | hc
      · rfl
      · exact isBlank_of_isDigit (hf c hc)
  · cases he with
    | none => cases hc
    | marked letter _ visible =>
      rcases List.mem_cons.mp hc with rfl | hc
      · rcases letter with rfl | rfl <;> rfl
      · exact visible c hc

end Literals

section Forms

variable {d : Decimal}

/-- The sign of a decimal as it is written. -/
def signText (d : Decimal) : Text := if d.unscaled < 0 then ['-'] else []

theorem signed_natAbs (n : Int) : signed (n < 0) n.natAbs = n := by
  by_cases h : n < 0
  · rw [decide_eq_true h, signed, if_pos rfl]
    omega
  · rw [decide_eq_false h, signed, if_neg Bool.false_ne_true]
    omega

theorem signText_eq (d : Decimal) :
    d.signText = if decide (d.unscaled < 0) = true then ['-'] else [] := by
  rw [signText]
  simp only [decide_eq_true_eq]

/-- The digits of a decimal spell it wherever they are cut, if what stands behind
the point accounts for its scale. -/
theorem isLiteral_of_digits (d : Decimal) (whole fraction : Text) {exponent : Text} {n : Int}
    (hdigits : ofDigits 10 (whole ++ fraction) = d.unscaled.natAbs)
    (hw : ∀ c ∈ whole, c.isDigit = true) (hne : whole ≠ [])
    (hf : ∀ c ∈ fraction, c.isDigit = true) (he : IsExponent exponent n)
    (hscale : d.scale = fraction.length - n) :
    IsLiteral (d.signText ++ whole ++ ((if fraction = [] then [] else '.' :: fraction) ++ exponent))
      d :=
  .intro (by rw [signText_eq, literal]) hw hne hf he (by rw [hdigits, signed_natAbs]) hscale

/-- The digits of a decimal may be cut behind any of them but the last, or stand
before the point as a whole. -/
theorem isLiteral_cut {place : Nat} (hplace : 0 < place) {exponent : Text} {n : Int}
    (he : IsExponent exponent n)
    (hscale : d.scale = ((ofNat d.unscaled.natAbs).drop place).length - n) :
    IsLiteral (d.signText ++ (ofNat d.unscaled.natAbs).take place ++
      ((if (ofNat d.unscaled.natAbs).drop place = [] then []
        else '.' :: (ofNat d.unscaled.natAbs).drop place) ++ exponent)) d := by
  have hdigit : ∀ c ∈ ofNat d.unscaled.natAbs, c.isDigit = true := fun _ => isDigit_of_mem_ofNat
  refine isLiteral_of_digits d _ _ ?_ ?_ ?_ ?_ he hscale
  · rw [List.take_append_drop, ofDigits_ofNat]
  · exact fun c hc => hdigit c (List.mem_of_mem_take hc)
  · rw [Ne, List.take_eq_nil_iff, not_or]
    exact ⟨Nat.ne_of_gt hplace, ofNat_ne_nil _⟩
  · exact fun c hc => hdigit c (List.mem_of_mem_drop hc)

/-- One digit before the point and an exponent. -/
theorem isLiteral_exponential (d : Decimal) :
    IsLiteral (d.signText ++ Scientific.exponential ['E'] ⟨d.unscaled.natAbs, -d.scale⟩) d := by
  have hlength : 0 < (ofNat d.unscaled.natAbs).length :=
    List.length_pos_iff.mpr (ofNat_ne_nil d.unscaled.natAbs)
  have hpoint : (ofNat d.unscaled.natAbs).length ≤ 1 ↔ (ofNat d.unscaled.natAbs).drop 1 = [] := by
    rw [List.drop_eq_nil_iff]
  have hexponent : IsExponent
      ('E' :: Text.ofInt (-d.scale + (ofNat d.unscaled.natAbs).length - 1))
      (-d.scale + (ofNat d.unscaled.natAbs).length - 1) :=
    .marked (.inr rfl) (signedDigits?_ofInt _) fun _ => isBlank_of_mem_ofInt
  have hliteral := isLiteral_cut (d := d) Nat.one_pos hexponent (by rw [List.length_drop]; omega)
  simpa [Scientific.exponential, hpoint] using hliteral

/-- All digits and a positive exponent. -/
theorem isLiteral_shifted (h : d.scale ≤ 0) :
    IsLiteral (d.signText ++ ofNat d.unscaled.natAbs ++ "e+".toList ++ Text.ofInt (-d.scale))
      d := by
  have hlength : 0 < (ofNat d.unscaled.natAbs).length :=
    List.length_pos_iff.mpr (ofNat_ne_nil d.unscaled.natAbs)
  have hexponent : IsExponent ('e' :: '+' :: Text.ofInt (-d.scale)) (-d.scale) := by
    refine .marked (.inl rfl) (signedDigits?_plus (by omega)) fun c hc => ?_
    rcases List.mem_cons.mp hc with rfl | hc
    · rfl
    · exact isBlank_of_mem_ofInt hc
  have hliteral := isLiteral_cut (d := d) hlength hexponent (by rw [List.length_drop]; omega)
  simpa using hliteral

/-- Positional notation is a literal without an exponent. Zeros behind the digits are
read as digits of an integer. -/
theorem isLiteral_positional (d : Decimal) :
    IsLiteral (d.signText ++ Scientific.positional ⟨d.unscaled.natAbs, -d.scale⟩)
      ⟨d.unscaled * 10 ^ (-d.scale).toNat, d.scale.toNat⟩ := by
  obtain ⟨whole, fraction, htext, hne, hdigits, hvalue, hlength⟩ :=
    Scientific.exists_isPositional ⟨d.unscaled.natAbs, -d.scale⟩
  rw [neg_neg] at hlength
  have hpow : (0 : Int) < 10 ^ (-d.scale).toNat := by positivity
  have habs : (d.unscaled * 10 ^ (-d.scale).toNat).natAbs =
      d.unscaled.natAbs * 10 ^ (-d.scale).toNat := by
    rw [Int.natAbs_mul, Int.natAbs_pow]
    rfl
  have hsign : signText ⟨d.unscaled * 10 ^ (-d.scale).toNat, d.scale.toNat⟩ = d.signText := by
    simp only [signText, mul_neg_iff, hpow, hpow.le.not_gt, and_true, and_false, false_or]
  have hliteral := isLiteral_of_digits ⟨d.unscaled * 10 ^ (-d.scale).toNat, d.scale.toNat⟩ whole
    fraction (hvalue.trans habs.symm) (fun c hc => hdigits c (List.mem_append_left _ hc)) hne
    (fun c hc => hdigits c (List.mem_append_right _ hc)) .none (by rw [hlength, sub_zero])
  rw [List.append_nil, hsign, List.append_assoc] at hliteral
  rw [htext]
  exact hliteral

/-- Zero is written without a scale. -/
theorem text_of_eq_zero (h : d.unscaled = 0) : d.text = ['0'] := by
  rw [text, h, if_pos rfl]
  rfl

theorem text_of_ne_zero (h : d.unscaled ≠ 0) :
    d.text =
      if (digitCount d.unscaled.natAbs : Int) + -d.scale < -5 then
        d.signText ++ Scientific.exponential ['E'] ⟨d.unscaled.natAbs, -d.scale⟩
      else if 15 < -d.scale then
        d.signText ++ ofNat d.unscaled.natAbs ++ "e+".toList ++ Text.ofInt (-d.scale)
      else d.signText ++ Scientific.positional ⟨d.unscaled.natAbs, -d.scale⟩ := by
  simp only [text, if_neg h, signText]

/-- The text of a decimal spells a decimal that denotes the same number, with the
same scale or none. -/
theorem exists_isLiteral_text (d : Decimal) :
    ∃ d', IsLiteral d.text d' ∧ d'.same d = true ∧ (d'.scale = d.scale ∨ d'.scale = 0) := by
  by_cases hzero : d.unscaled = 0
  · refine ⟨⟨0, 0⟩, ?_, ?_, .inr rfl⟩
    · rw [text_of_eq_zero hzero]
      exact isLiteral_positional ⟨0, 0⟩
    · rw [same_iff, value, value, hzero]
      simp
  have hsame : d.same d = true := same_iff.mpr rfl
  rw [text_of_ne_zero hzero]
  split
  · exact ⟨d, isLiteral_exponential d, hsame, .inl rfl⟩
  · split
    · exact ⟨d, isLiteral_shifted (by omega), hsame, .inl rfl⟩
    · refine ⟨_, isLiteral_positional d, ?_, ?_⟩
      · obtain ⟨k, hk | hk⟩ := d.scale.eq_nat_or_neg
        · have hnone : (-(k : Int)).toNat = 0 := by omega
          rw [same_iff, value, value, hk, hnone, Int.toNat_natCast, pow_zero, mul_one]
        · have hnone : (-(k : Int)).toNat = 0 := by omega
          rw [same_iff, value, value, hk, hnone, neg_neg, Int.toNat_natCast, Int.natCast_zero,
            neg_zero, zpow_zero, mul_one, zpow_natCast]
          push_cast
          rfl
      · show (d.scale.toNat : Int) = d.scale ∨ (d.scale.toNat : Int) = 0
        omega

/-- A decimal is read from its text as a decimal that denotes the same number. -/
theorem ofText?_text (h : fitsSigned 64 d.scale = true) :
    ∃ d', ofText? (trim d.text) = some d' ∧ d'.same d = true := by
  obtain ⟨d', hliteral, hsame, hscale⟩ := exists_isLiteral_text d
  have hfits : fitsSigned 64 d'.scale = true := by
    rcases hscale with hscale | hscale
    · rw [hscale, h]
    · rw [hscale]
      decide
  rw [trim_eq_self_iff.mpr hliteral.isTrimmed]
  exact ⟨d', hliteral.ofText? hfits, hsame⟩

end Forms

/-- The decimal of an integer has it as its integer part. -/
theorem toLong?_ofInt {n : Int} (h : fitsSigned 64 n = true) : toLong? (ofInt n) = some n := by
  have hscale : (ofInt n).scale ≤ 0 := Int.le_refl 0
  have hwhole : n * ((Nat.pow 10 (min (-(0 : Int)).toNat 19) : Nat) : Int) = n := Int.mul_one n
  rw [toLong?, if_pos hscale]
  simp only [ofInt, hwhole, h, if_true]

end DataPipeline.Numeric.Decimal
