import DataPipeline.Proofs.Numeric.DoubleRounding
import DataPipeline.Proofs.Record.FloatRange

/-!
# Numbers of 32 bits there and back

The text of a number of 32 bits is read at 64 bits and rounded a second time. It comes
back, except for one number and its negative: the digits of this number are so close to
the midpoint behind it that they become the midpoint at 64 bits, and the midpoint belongs
to the next number.
-/

namespace DataPipeline

open Numeric Text

namespace Value

open Numeric.Format Numeric.Binary

variable {σ : Type} {n : Nat}

section Reading

/-- A finite number whose text is read at 64 bits is rounded to itself again, except for
one number. -/
theorem toSingle_of_text (negative : Bool) (hfinite : n < single.infinityBits)
    (hne : n ≠ exceptionalPattern) :
    ∃ y : Double, ofText? (ofPattern negative n : Single).text = some y ∧
      toSingle y = .ok (ofPattern negative n) := by
  obtain ⟨m, hdouble, hread⟩ :=
    (spellsDecimal_text isProper_single negative hfinite).read hasFraction_double
  have hsingle := roundsTo_shownDigits hasFraction_single n
  have hm := lt_infinityBits_double hfinite hsingle hdouble
  obtain ⟨n', hround, hconvert⟩ :=
    Binary.exists_convert isProper_double hasFraction_single negative hm
  cases hround.unique (roundsTo_through_double hfinite hdouble hne)
  refine ⟨_, hread, ?_⟩
  have hstays : ¬(ofPattern negative n : Single).isInfinite = true :=
    mt (isInfinite_ofPattern isProper_single negative).mp (Nat.not_le.mpr hfinite)
  rw [toSingle, hconvert, Bool.eq_false_iff.mpr hstays, Bool.and_false]
  rfl

/-- The one number becomes the midpoint behind it at 64 bits, and the next number at 32
bits. -/
theorem toSingle_of_exceptional (negative : Bool) :
    (ofText? (ofPattern negative exceptionalPattern : Single).text : Option Double) =
        some (ofPattern negative 0x3AB5C87FB0000000) ∧
      toSingle (ofPattern negative 0x3AB5C87FB0000000) =
        .ok (ofPattern negative (exceptionalPattern + 1)) := by
  have hconvert : (ofPattern negative 0x3AB5C87FB0000000 : Double).convert single =
      ofPattern negative (exceptionalPattern + 1) := by
    cases negative <;> decide +kernel
  refine ⟨by cases negative <;> decide +kernel, ?_⟩
  rw [toSingle, hconvert]
  cases negative <;> rfl

/-- The bits of the one number and of its negative. -/
def HasExceptionalBits (x : Single) : Prop :=
  x.bits.toNat = 0x15AE43FD ∨ x.bits.toNat = 0x95AE43FD

theorem hasExceptionalBits_ofPattern (negative : Bool) (hfinite : n < single.infinityBits) :
    HasExceptionalBits (ofPattern negative n) ↔ n = exceptionalPattern := by
  have hweight : single.signWeight = 0x80000000 := by decide
  have hinfinity : single.infinityBits = 0x7F800000 := by decide
  have hbits := toNat_ofMagnitude isProper_single negative (show n < single.signWeight by omega)
  rw [HasExceptionalBits, ofPattern, Nat.min_eq_right hfinite.le, hbits, exceptionalPattern,
    hweight]
  split <;> omega

/-- The next number away from zero. -/
theorem ofPattern_exceptional_succ (negative : Bool) :
    (ofPattern negative (exceptionalPattern + 1) : Single) =
        ⟨(ofPattern negative exceptionalPattern : Single).bits + 1⟩ ∧
      (ofPattern negative (exceptionalPattern + 1) : Single) ≠
        ofPattern negative exceptionalPattern := by
  cases negative <;> decide +kernel

/-- What the text of a number is read as at 64 bits decides what comes back. -/
theorem thereAndBack_of_read (settings : ConversionSettings) (negative : Bool)
    (hfinite : n < single.infinityBits) {y : Double} {z : Single}
    (hread : ofText? (ofPattern negative n : Single).text = some y) (hnarrow : toSingle y = .ok z) :
    (float (ofPattern negative n) : Value σ).thereAndBack settings .string = .ok (float z) := by
  have hthere : (float (ofPattern negative n) : Value σ).convert settings .string =
      .ok (string (ofPattern negative n : Single).text) := rfl
  have htrim := trim_eq_self_iff.mpr (spellsDecimal_text isProper_single negative hfinite).isTrimmed
  have hdouble : (string (ofPattern negative n : Single).text : Value σ).toDouble = .ok y := by
    rw [toDouble, htrim, hread]
    rfl
  rw [thereAndBack_of_convert hthere, type,
    convert_float_of_toDouble settings (ValueType.noConfusion ·) hdouble, hnarrow]
  rfl

/-- The one number and its negative come back as the next number. -/
theorem thereAndBack_exceptional (settings : ConversionSettings) (negative : Bool) :
    (float (ofPattern negative exceptionalPattern) : Value σ).thereAndBack settings .string =
      .ok (float (ofPattern negative (exceptionalPattern + 1))) := by
  obtain ⟨hread, hnarrow⟩ := toSingle_of_exceptional negative
  exact thereAndBack_of_read settings negative (by decide) hread hnarrow

end Reading

/-- A finite number of 32 bits is converted to a text that is read at 32 bits as the
number, but is converted back through 64 bits. The number comes back exactly if it is not
the one with the bits 0x15AE43FD and not its negative; these come back as the next number
away from zero. -/
theorem float_text_returns (settings : ConversionSettings) (x : Single)
    (hfinite : x.isFinite = true) :
    (float x : Value σ).convert settings .string = .ok (string x.text) ∧
      ofText? x.text = some x ∧
      ((float x : Value σ).thereAndBack settings .string = .ok (float x) ↔
        ¬HasExceptionalBits x) ∧
      (HasExceptionalBits x →
        (float x : Value σ).thereAndBack settings .string = .ok (float ⟨x.bits + 1⟩)) := by
  refine ⟨rfl, ofText?_text hasFraction_single hfinite, ?_⟩
  obtain ⟨negative, n, hn, rfl⟩ := exists_ofPattern isProper_single hfinite
  rw [hasExceptionalBits_ofPattern negative hn]
  by_cases hexceptional : n = exceptionalPattern
  · subst hexceptional
    obtain ⟨hnext, hne⟩ := ofPattern_exceptional_succ negative
    rw [thereAndBack_exceptional, ←hnext, Except.ok.injEq, float.injEq]
    exact ⟨iff_of_false hne (not_not_intro rfl), fun _ => rfl⟩
  · obtain ⟨y, hread, hnarrow⟩ := toSingle_of_text negative hn hexceptional
    exact ⟨iff_of_true (thereAndBack_of_read settings negative hn hread hnarrow) hexceptional,
      fun h => absurd h hexceptional⟩

theorem float_text_returns_sample :
    (⟨0x15AE43FC#32⟩ : Single).isFinite = true ∧ (⟨0x95AE43FD#32⟩ : Single).isFinite = true ∧
      (float ⟨0x15AE43FC#32⟩ : Value ConversionSettings).thereAndBack {} .string =
        .ok (float ⟨0x15AE43FC#32⟩) ∧
      (float ⟨0x95AE43FD#32⟩ : Value ConversionSettings).thereAndBack {} .string =
        .ok (float ⟨0x95AE43FE#32⟩) := by
  have hfinite : (⟨0x15AE43FC#32⟩ : Single).isFinite = true := by decide
  have hfinite' : (⟨0x95AE43FD#32⟩ : Single).isFinite = true := by decide
  have hordinary : ¬HasExceptionalBits ⟨0x15AE43FC#32⟩ := not_or.mpr ⟨by decide, by decide⟩
  exact ⟨hfinite, hfinite', (float_text_returns {} _ hfinite).2.2.1.mpr hordinary,
    (float_text_returns {} _ hfinite').2.2.2 (.inr rfl)⟩

/-- A finite number of 32 bits that does not come back from its text. -/
theorem float_text_lost :
    (⟨0x15AE43FD#32⟩ : Single).isFinite = true ∧
      (⟨0x15AE43FD#32⟩ : Single).text = "0.00000000000000000000000007038531".toList ∧
      (float ⟨0x15AE43FD#32⟩ : Value ConversionSettings).thereAndBack {} .string =
        .ok (float ⟨0x15AE43FE#32⟩) ∧
      (float ⟨0x15AE43FD#32⟩ : Value ConversionSettings).thereAndBack {} .string ≠
        .ok (float ⟨0x15AE43FD#32⟩) := by
  have hnext : (float ⟨0x15AE43FD#32⟩ : Value ConversionSettings).thereAndBack {} .string =
      .ok (float ⟨0x15AE43FE#32⟩) := thereAndBack_exceptional {} false
  refine ⟨by decide, by decide +kernel, hnext, ?_⟩
  rw [hnext, Ne, Except.ok.injEq, float.injEq]
  decide

end Value

end DataPipeline
