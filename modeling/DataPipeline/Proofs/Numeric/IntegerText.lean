import DataPipeline.Numeric.FloatLiteral
import DataPipeline.Numeric.IntegerLiteral
import DataPipeline.Numeric.Word
import DataPipeline.Proofs.Text.Digits
import DataPipeline.Proofs.Text.Trim

/-!
# Integers and their texts

An integer is read back from its decimal text, both as an integer literal and
as the exponent of a number. The text has no blanks, so it is also read back
with blanks around it.
-/

namespace DataPipeline

namespace Text

/-- Digits are no blanks. -/
theorem isBlank_of_isDigit {c : Char} (h : c.isDigit = true) : isBlank c = false := by
  simp only [Char.isDigit, Bool.and_eq_true, decide_eq_true_eq] at h
  have hge : 48 ≤ c.toNat := h.1
  have hle : c.toNat ≤ 57 := h.2
  simp only [isBlank, Bool.or_eq_false_iff, Bool.and_eq_false_iff, decide_eq_false_iff_not]
  omega

/-- A digit is none of the other characters of a number. -/
theorem ne_of_isDigit {c d : Char} (h : c.isDigit = true) (hd : d.isDigit = false) : c ≠ d := by
  rintro rfl
  exact Bool.false_ne_true (hd.symm.trans h)

/-- An integer from zero on is written without a sign. -/
theorem ofInt_of_nonneg {n : Int} (h : 0 ≤ n) : ofInt n = ofNat n.natAbs :=
  if_neg (Int.not_lt.mpr h)

/-- A negative integer is written with a sign. -/
theorem ofInt_of_neg {n : Int} (h : n < 0) : ofInt n = '-' :: ofNat n.natAbs := if_pos h

/-- Written integers hold no blanks. -/
theorem isBlank_of_mem_ofInt {n : Int} {c : Char} (h : c ∈ ofInt n) : isBlank c = false := by
  rw [ofInt] at h
  split at h
  · rcases List.mem_cons.mp h with rfl | h
    · rfl
    · exact isBlank_of_isDigit (isDigit_of_mem_ofNat h)
  · exact isBlank_of_isDigit (isDigit_of_mem_ofNat h)

/-- The text of an integer is trimmed out of the blanks around it. -/
theorem trim_ofInt {before after : Text} (hbefore : isAllBlank before = true)
    (hafter : isAllBlank after = true) (n : Int) : trim (before ++ ofInt n ++ after) = ofInt n := by
  rw [trim_blanks_append_blanks hbefore hafter, trim_eq_self_iff]
  exact isTrimmed_of_forall fun _ => isBlank_of_mem_ofInt

end Text

namespace Numeric

open Text

/-- A text that begins with a digit has no sign. -/
theorem cutSign_of_digit {c : Char} (h : c.isDigit = true) (t : Text) :
    cutSign (c :: t) = (false, c :: t) := by
  unfold cutSign
  split
  · next heq => exact absurd (List.cons.inj heq).1 (ne_of_isDigit h rfl)
  · next heq => exact absurd (List.cons.inj heq).1 (ne_of_isDigit h rfl)
  · rfl

/-- A written number has no sign. -/
theorem cutSign_ofNat (n : Nat) : cutSign (ofNat n) = (false, ofNat n) := by
  obtain ⟨c, t, hdigits⟩ := List.exists_cons_of_ne_nil (ofNat_ne_nil n)
  have hc : c ∈ ofNat n := by
    rw [hdigits]
    exact List.mem_cons_self
  rw [hdigits]
  exact cutSign_of_digit (isDigit_of_mem_ofNat hc) t

/-- Behind a sign the digits of a number are read as the number. -/
theorem signedDigits?_of_cutSign {t : Text} {negative : Bool} {n : Nat}
    (h : cutSign t = (negative, ofNat n)) :
    signedDigits? t = some (if negative then -(n : Int) else n) := by
  rw [signedDigits?, h]
  simp only [natural?_ofNat]
  rfl

/-- An integer is read back from its digits. -/
theorem signedDigits?_ofInt (n : Int) : signedDigits? (ofInt n) = some n := by
  by_cases h : n < 0
  · have habs : -(n.natAbs : Int) = n := by omega
    rw [ofInt_of_neg h, signedDigits?_of_cutSign rfl, if_pos rfl, habs]
  · have habs : (n.natAbs : Int) = n := by omega
    rw [ofInt_of_nonneg (by omega), signedDigits?_of_cutSign (cutSign_ofNat _),
      if_neg Bool.false_ne_true, habs]

/-- A sign of its own does not change a positive integer. -/
theorem signedDigits?_plus {n : Int} (h : 0 ≤ n) : signedDigits? ('+' :: ofInt n) = some n := by
  have habs : (n.natAbs : Int) = n := by omega
  rw [ofInt_of_nonneg h, signedDigits?_of_cutSign rfl, if_neg Bool.false_ne_true, habs]

/-- Decimal digits carry no mark of base sixteen. -/
theorem literalBase_ofNat (n : Nat) : literalBase (ofNat n) = (10, ofNat n) := by
  unfold literalBase
  split
  · next heq => cases (eq_zero_of_ofNat_eq heq).2
  · next heq => cases (eq_zero_of_ofNat_eq heq).2
  · next heq =>
    have hmark := isDigit_of_mem_ofNat (n := n) (heq ▸ List.mem_cons_self)
    cases hmark
  · rfl

/-- A number is read back from its digits. -/
theorem unsignedLiteral?_ofNat (n : Nat) : unsignedLiteral? (ofNat n) = some n := by
  rw [unsignedLiteral?, literalBase_ofNat]
  exact natural?_ofNat n

/-- An integer is read back from its text. -/
theorem integerLiteral?_ofInt (n : Int) : integerLiteral? (ofInt n) = some n := by
  by_cases h : n < 0
  · have habs : -(n.natAbs : Int) = n := by omega
    rw [ofInt_of_neg h, integerLiteral?, unsignedLiteral?_ofNat]
    exact congrArg some habs
  · have habs : (n.natAbs : Int) = n := by omega
    have hdigit : ∀ c t, ofNat n.natAbs = c :: t → c.isDigit = true := fun c t heq =>
      isDigit_of_mem_ofNat (n := n.natAbs) (heq ▸ List.mem_cons_self)
    rw [ofInt_of_nonneg (by omega)]
    unfold integerLiteral?
    split
    · next heq => cases hdigit _ _ heq
    · next heq => cases hdigit _ _ heq
    · rw [unsignedLiteral?_ofNat]
      exact congrArg some habs

/-- What fits a signed word fits every wider one. -/
theorem fitsSigned_mono {bits more : Nat} (h : bits ≤ more) {n : Int}
    (hn : fitsSigned bits n = true) : fitsSigned more n = true := by
  have hsize : wordSize (bits - 1) ≤ wordSize (more - 1) :=
    Nat.pow_le_pow_right (by decide) (by omega)
  simp only [fitsSigned, Bool.and_eq_true, decide_eq_true_eq] at hn ⊢
  omega

/-- Numbers below the bound fit a signed word. -/
theorem fitsSigned_natCast {n : Nat} (h : n < 9223372036854775808) :
    fitsSigned 64 (n : Int) = true := by
  simp only [fitsSigned, show (wordSize (64 - 1) : Int) = 9223372036854775808 from rfl,
    Bool.and_eq_true, decide_eq_true_eq]
  omega

end Numeric

end DataPipeline
