import DataPipeline.Proofs.Numeric.LiteralForm
import DataPipeline.Proofs.Numeric.Representable
import DataPipeline.Proofs.Record.RoundTrip

/-!
# Conversion to integer types

A value is converted to an integer type through the integer that it gives, which
must fit the width of the type. A string gives the integer of its literal, if it
is one once the blanks around it are gone.
-/

namespace DataPipeline

open Numeric Text

namespace Value

variable {σ : Type} {settings : ConversionSettings}

/-- An integer that fits a word passes the range check. -/
theorem fitting_of_inWord {bits : Nat} {n : Int} (h : InWord bits n) : fitting bits n = .ok n :=
  if_pos (fitsSigned_iff.mpr h)

/-- An integer that fits no word fails the range check. -/
theorem fitting_of_not_inWord {bits : Nat} {n : Int} (h : ¬InWord bits n) :
    fitting bits n = .error .outOfRange :=
  if_neg (mt fitsSigned_iff.mp h)

/-- What passes the range check fits the word and is unchanged. -/
theorem inWord_of_fitting {bits : Nat} {n m : Int} (h : fitting bits n = .ok m) :
    m = n ∧ InWord bits n := by
  by_cases hn : InWord bits n
  · rw [fitting_of_inWord hn] at h
    cases h
    exact ⟨rfl, hn⟩
  · rw [fitting_of_not_inWord hn] at h
    cases h

section Targets

variable {value : Value σ} {target : ValueType} {bits : Nat} {n : Int}

/-- What is left of a number without its fraction fits a word. -/
theorem inWord_of_truncated {f : Format} {x : Binary f} (h : truncated x = .ok n) :
    InWord 64 n := by
  rw [truncated] at h
  split at h
  · cases h
  · obtain ⟨rfl, hn⟩ := inWord_of_fitting h
    exact hn

/-- The integer of a value fits a long. -/
theorem inWord_of_toInteger (h : value.toInteger = .ok n) : InWord 64 n := by
  have hword : ∀ {bits : Nat}, value.type.width? = some bits → InWord 64 n := fun hbits => by
    obtain ⟨m, hm, hfits⟩ := exists_integer hbits
    cases h.symm.trans (toInteger_of_integer? hm)
    exact (fitsSigned_iff.mp hfits).mono (ValueType.width?_le hbits)
  cases value
  case byte => exact hword rfl
  case short => exact hword rfl
  case int => exact hword rfl
  case long => exact hword rfl
  case float => exact inWord_of_truncated h
  case double => exact inWord_of_truncated h
  case decimal d =>
    rw [toInteger, Decimal.toLong?_eq] at h
    split at h
    · next hn =>
      cases h
      exact hn
    · cases h
  case string t =>
    rw [toInteger] at h
    split at h
    · cases h
    · obtain ⟨rfl, hn⟩ := inWord_of_fitting h
      exact hn
  all_goals cases h

/-- A value that is not rejected for its type is not null. -/
theorem isNull_of_toInteger (h : value.toInteger ≠ .error (.notNumeric value.type)) :
    value.isNull = false := by
  cases value <;> first | rfl | exact absurd rfl h

/-- Without an integer there is no conversion to an integer type. -/
theorem convert_of_toInteger_error (settings : ConversionSettings) {reason : Reason}
    (hbits : target.width? = some bits) (hne : value.type ≠ target)
    (hnull : value.isNull = false) (h : value.toInteger = .error reason) :
    value.convert settings target = .error ⟨value, target, reason⟩ := by
  rw [convert_of_ne hne hnull]
  cases target <;> cases hbits <;> rw [convertTo, h] <;> rfl

/-- An integer beyond the width of an integer type is not converted to it. -/
theorem convert_of_not_inWord (settings : ConversionSettings) (hbits : target.width? = some bits)
    (hne : value.type ≠ target) (h : value.toInteger = .ok n) (hn : ¬InWord bits n) :
    value.convert settings target = .error ⟨value, target, .outOfRange⟩ := by
  have hnull : value.isNull = false := isNull_of_toInteger (by rw [h]; exact nofun)
  have hfitting : (value.toInteger >>= fitting bits) = .error .outOfRange := by
    rw [h]
    exact fitting_of_not_inWord hn
  rw [convert_of_ne hne hnull]
  cases target <;> cases hbits
  case byte => rw [convertTo, hfitting]; rfl
  case short => rw [convertTo, hfitting]; rfl
  case int => rw [convertTo, hfitting]; rfl
  case long => exact absurd (inWord_of_toInteger h) hn

/-- A conversion to an integer type that succeeds with the given integer. -/
def GivesInteger (outcome : Except (ConversionFailure σ) (Value σ)) (target : ValueType)
    (n : Int) : Prop :=
  ∃ there, outcome = .ok there ∧ there.type = target ∧ there.integer? = some n

/-- A value that gives an integer if it fits 64 bits is converted to an integer
type exactly if the integer fits the width of the type. -/
theorem convert_of_fitting (settings : ConversionSettings) (hbits : target.width? = some bits)
    (hne : value.type ≠ target) (h : value.toInteger = fitting 64 n) :
    (∀ m, GivesInteger (value.convert settings target) target m ↔ m = n ∧ InWord bits n) ∧
      (value.convert settings target = .error ⟨value, target, .outOfRange⟩ ↔ ¬InWord bits n) := by
  by_cases hn : InWord bits n
  · have hlong : value.toInteger = .ok n := by
      rw [h, fitting_of_inWord (hn.mono (ValueType.width?_le hbits))]
    obtain ⟨there, hthere, hinteger, htype⟩ :=
      exists_convert settings hlong hbits (fitsSigned_iff.mpr hn) hne
    rw [hthere]
    refine ⟨fun m => ⟨?_, ?_⟩, iff_of_false (fun hno => nomatch hno) (not_not_intro hn)⟩
    · rintro ⟨other, hother, -, hm⟩
      cases hother
      exact ⟨Option.some.inj (hm.symm.trans hinteger), hn⟩
    · rintro ⟨rfl, -⟩
      exact ⟨there, rfl, htype, hinteger⟩
  · have hout : value.convert settings target = .error ⟨value, target, .outOfRange⟩ := by
      by_cases hlong : InWord 64 n
      · exact convert_of_not_inWord settings hbits hne (h.trans (fitting_of_inWord hlong)) hn
      · rw [fitting_of_not_inWord hlong] at h
        exact convert_of_toInteger_error settings hbits hne
          (isNull_of_toInteger (by rw [h]; exact nofun)) h
    rw [hout]
    refine ⟨fun m => iff_of_false ?_ fun hm => hn hm.2, iff_of_true rfl hn⟩
    rintro ⟨there, hthere, -⟩
    cases hthere

end Targets

section Numbers

/-- The number that a numeric value denotes. Infinities and NaNs denote none. -/
def number? : Value σ → Option ℚ
  | byte n => some n.toInt
  | short n => some n.toInt
  | int n => some n.toInt
  | long n => some n.toInt
  | float x => x.value?
  | double x => x.value?
  | decimal d => some d.value
  | _ => none

/-- A floating point number that denotes no number. -/
def IsNotFinite : Value σ → Prop
  | float x => x.value? = none
  | double x => x.value? = none
  | _ => False

variable {value : Value σ} {x : ℚ}

/-- The number of a whole value is its integer. -/
theorem number?_of_integer? {n : Int} (h : value.integer? = some n) : value.number? = some ↑n := by
  cases value <;> cases h <;> rfl

/-- The integer of a numeric value is the whole part of its number, within 64
bits. -/
theorem toInteger_of_number? (h : value.number? = some x) :
    value.toInteger = fitting 64 (towardZero x) := by
  have hword : ∀ {bits : Nat}, value.type.width? = some bits →
      value.toInteger = fitting 64 (towardZero x) := fun hbits => by
    obtain ⟨n, hn, -⟩ := exists_integer hbits
    have htoInteger := toInteger_of_integer? hn
    cases h.symm.trans (number?_of_integer? hn)
    rw [towardZero_intCast, htoInteger, fitting_of_inWord (inWord_of_toInteger htoInteger)]
  have htruncated : ∀ {f : Format} {y : Binary f}, y.value? = some x →
      truncated y = fitting 64 (towardZero x) := fun hy => by
    rw [truncated, Binary.truncate?_eq, hy]
    rfl
  cases value
  case byte => exact hword rfl
  case short => exact hword rfl
  case int => exact hword rfl
  case long => exact hword rfl
  case float => exact htruncated h
  case double => exact htruncated h
  case decimal d =>
    cases h
    rw [toInteger, Decimal.toLong?_eq]
    by_cases hn : InWord 64 (towardZero d.value)
    · rw [if_pos hn, fitting_of_inWord hn]
      rfl
    · rw [if_neg hn, fitting_of_not_inWord hn]
      rfl
  all_goals cases h

/-- A value that is not finite is no integer. -/
theorem toInteger_of_isNotFinite (h : value.IsNotFinite) : value.toInteger = .error .notFinite := by
  have htruncated : ∀ {f : Format} {y : Binary f}, y.value? = none →
      truncated y = .error .notFinite := fun hy => by
    rw [truncated, Binary.truncate?_eq, hy]
    rfl
  cases value
  case float => exact htruncated h
  case double => exact htruncated h
  all_goals cases h

/-- The limits of a long as numbers of 64 bits. The upper limit is none of them
and is rounded to the first number beyond it. -/
theorem value?_ofInt_limits :
    (Binary.ofInt Int64.minValue.toInt : Double).value? = some (-2 ^ 63) ∧
      (Binary.ofInt Int64.maxValue.toInt : Double).value? = some (2 ^ 63) := by
  have hmin : (Binary.ofInt Int64.minValue.toInt : Double).view =
      .finite true 0x10000000000000 11 := by
    decide
  have hmax : (Binary.ofInt Int64.maxValue.toInt : Double).view =
      .finite false 0x10000000000000 11 := by
    decide
  rw [Binary.value?, Binary.value?, hmin, hmax, FloatView.value?, FloatView.value?]
  norm_num [Decimal.signed]

/-- The integer of a number of 64 bits whose whole part is compared with the
limits of a long in floating point, and then forced into the word. -/
def boundedWhole (x : Double) : Except Reason Int :=
  match x.whole.value? with
  | none => .error .notFinite
  | some q =>
    if x.whole.isBelow (.ofInt Int64.minValue.toInt) ||
        !x.whole.isBelow (.ofInt Int64.maxValue.toInt) then .error .outOfRange
    else .ok (max (-2 ^ 63) (min (2 ^ 63 - 1) (towardZero q)))

/-- Rounding the limits loses nothing, and no number is forced into the word. -/
theorem boundedWhole_eq (x : Double) : boundedWhole x = truncated x := by
  obtain ⟨hmin, hmax⟩ := value?_ofInt_limits
  rw [boundedWhole, truncated, Binary.truncate?_eq]
  simp only [Binary.isBelow, hmin, hmax, Binary.value?_whole isProper_double]
  cases x.value? with
  | none => rfl
  | some q =>
    have hbelow : decide ((towardZero q : ℚ) < -2 ^ 63) = decide (towardZero q < -2 ^ 63) :=
      decide_eq_decide.mpr (by exact_mod_cast Iff.rfl)
    have habove : decide ((towardZero q : ℚ) < 2 ^ 63) = decide (towardZero q < 2 ^ 63) :=
      decide_eq_decide.mpr (by exact_mod_cast Iff.rfl)
    simp only [Option.map_some, hbelow, habove, towardZero_intCast]
    by_cases hn : InWord 64 (towardZero q)
    · have hclamp : max (-2 ^ 63) (min (2 ^ 63 - 1) (towardZero q)) = towardZero q := by
        rw [InWord] at hn
        omega
      rw [fitting_of_inWord hn, if_neg, hclamp]
      rw [InWord] at hn
      simp
      omega
    · rw [fitting_of_not_inWord hn, if_pos]
      rw [InWord] at hn
      simp
      omega

/-- A numeric value is converted to another integer type exactly if its whole
part fits the width of the type, and then to the whole part. An infinity or a
NaN is not converted. Comparing in floating point with the rounded limits of a
long gives the same integers. -/
theorem whole_parts_convert (settings : ConversionSettings) {value : Value σ}
    {target : ValueType} {bits : Nat} (hbits : target.width? = some bits)
    (hne : value.type ≠ target) :
    (∀ x, value.number? = some x →
      (∀ n, GivesInteger (value.convert settings target) target n ↔
        n = towardZero x ∧ InWord bits (towardZero x)) ∧
      (value.convert settings target = .error ⟨value, target, .outOfRange⟩ ↔
        ¬InWord bits (towardZero x))) ∧
    (value.IsNotFinite → value.convert settings target = .error ⟨value, target, .notFinite⟩) ∧
    (∀ y, value = double y → value.toInteger = boundedWhole y) ∧
    (∀ y, value = float y → value.toInteger = boundedWhole (y.convert .double)) ∧
    Reason.outOfRange.message = "value out of range" ∧
    Reason.notFinite.message = "not a finite number" := by
  refine ⟨fun x hx => convert_of_fitting settings hbits hne (toInteger_of_number? hx), fun h => ?_,
    ?_, ?_, rfl, rfl⟩
  · have hreason := toInteger_of_isNotFinite h
    exact convert_of_toInteger_error settings hbits hne
      (isNull_of_toInteger (by rw [hreason]; exact nofun)) hreason
  · rintro y rfl
    rw [boundedWhole_eq, toInteger]
  · rintro y rfl
    rw [boundedWhole_eq, toInteger, truncated, truncated, Binary.truncate?_eq, Binary.truncate?_eq,
      Binary.value?_convert_double]

theorem whole_parts_convert_sample :
    GivesInteger ((double ⟨0xC060100000000000#64⟩ : Value ConversionSettings).convert {} .byte)
        .byte (-128) ∧
      (double ⟨0x43E0000000000000#64⟩ : Value ConversionSettings).convert {} .long =
        .error ⟨double ⟨0x43E0000000000000#64⟩, .long, .outOfRange⟩ ∧
      (float ⟨0x7FC00000#32⟩ : Value ConversionSettings).convert {} .int =
        .error ⟨float ⟨0x7FC00000#32⟩, .int, .notFinite⟩ := by
  have hhalf : (double ⟨0xC060100000000000#64⟩ : Value ConversionSettings).number? =
      some (-((257 : Nat) / (2 : Nat) : ℚ)) := by
    have hview : (⟨0xC060100000000000#64⟩ : Double).view = .finite true 0x10100000000000 (-45) := by
      decide
    norm_num [number?, Binary.value?, hview, FloatView.value?, Decimal.signed]
  have hlimit : (double ⟨0x43E0000000000000#64⟩ : Value ConversionSettings).number? =
      some ((2 ^ 63 : Int) : ℚ) := by
    have hview : (⟨0x43E0000000000000#64⟩ : Double).view = .finite false 0x10000000000000 11 := by
      decide
    norm_num [number?, Binary.value?, hview, FloatView.value?, Decimal.signed]
  refine ⟨?_, ?_, ?_⟩
  · obtain ⟨hfinite, -⟩ := whole_parts_convert (σ := ConversionSettings) {}
      (rfl : ValueType.byte.width? = some 8)
      (by decide : (double ⟨0xC060100000000000#64⟩ : Value ConversionSettings).type ≠ .byte)
    rw [(hfinite _ hhalf).1, towardZero_neg, towardZero_natDiv]
    decide
  · obtain ⟨hfinite, -⟩ := whole_parts_convert (σ := ConversionSettings) {}
      (rfl : ValueType.long.width? = some 64)
      (by decide : (double ⟨0x43E0000000000000#64⟩ : Value ConversionSettings).type ≠ .long)
    rw [(hfinite _ hlimit).2, towardZero_intCast]
    decide
  · obtain ⟨-, hnan, -⟩ := whole_parts_convert (σ := ConversionSettings) {}
      (rfl : ValueType.int.width? = some 32)
      (by decide : (float ⟨0x7FC00000#32⟩ : Value ConversionSettings).type ≠ .int)
    exact hnan rfl

end Numbers

section Strings

variable {s : Text} {target : ValueType} {bits : Nat}

/-- The integer of a literal, counted in words of 128 bits. Digits that overflow
them are out of range, and so is a number that does not fit 64 bits behind its
sign. -/
def wordInteger (t : Text) : Except Reason Int :=
  let (negative, unsigned) := cutSign t
  let (base, digits) := literalBase unsigned
  if digits ≠ [] ∧ digits.all (digitValue · < base) then
    match countDigits? (wordSize 127) base digits with
    | none => .error .outOfRange
    | some n => fitting 128 (Decimal.signed negative n) >>= fitting 64
  else .error .integerLiteral

/-- Counting in words of 128 bits tells the integers within 64 bits from all
others. -/
theorem wordInteger_eq (t : Text) :
    wordInteger t = (integerLiteral? t).elim (.error .integerLiteral) (fitting 64) := by
  rcases hcut : cutSign t with ⟨negative, unsigned⟩
  rcases hbase : literalBase unsigned with ⟨base, digits⟩
  obtain ⟨mark, hmark, -⟩ := exists_isMark unsigned
  rw [hbase] at hmark
  simp only [wordInteger, integerLiteral?_eq, unsignedLiteral?, hcut, hbase, natural?]
  split
  · rw [countDigits?_eq hmark.base_pos (by decide)]
    generalize ofDigits base digits = n
    have hsize : wordSize 127 = 2 ^ 127 := rfl
    have hsigned : (Decimal.signed negative n).natAbs = n := by
      rw [Decimal.signed]
      split <;> omega
    by_cases hn : n < wordSize 127
    · have hword : InWord 128 (Decimal.signed negative n) := by
        rw [InWord]
        omega
      rw [if_pos hn]
      simp only [fitting_of_inWord hword]
      rfl
    · have hlarge : ¬InWord 64 (Decimal.signed negative n) := by
        rw [InWord]
        omega
      rw [if_neg hn]
      exact (fitting_of_not_inWord hlarge).symm
  · rfl

/-- A text is read as an integer literal without the blanks around it. -/
theorem toInteger_string (s : Text) :
    (string s : Value σ).toInteger =
      (integerLiteral? (trim s)).elim (.error .integerLiteral) (fitting 64) := by
  rw [toInteger]
  cases integerLiteral? (trim s) <;> rfl

/-- A string is converted to an integer type exactly if it is an integer literal
between blanks whose integer fits the width of the type. A literal of a larger
integer is out of range, however many digits it has, and any other string is no
literal. The digits can be counted in words of 128 bits. -/
theorem integer_literals_convert (settings : ConversionSettings) (s : Text) {target : ValueType}
    {bits : Nat} (hbits : target.width? = some bits) :
    (∀ n, GivesInteger ((string s : Value σ).convert settings target) target n ↔
      SpellsInteger (trim s) n ∧ InWord bits n) ∧
    ((string s : Value σ).convert settings target = .error ⟨string s, target, .outOfRange⟩ ↔
      ∃ n, SpellsInteger (trim s) n ∧ ¬InWord bits n) ∧
    ((string s : Value σ).convert settings target = .error ⟨string s, target, .integerLiteral⟩ ↔
      ∀ n, ¬SpellsInteger (trim s) n) ∧
    (string s : Value σ).toInteger = wordInteger (trim s) ∧
    Reason.outOfRange.message = "value out of range" ∧
    Reason.integerLiteral.message = "not an integer literal" := by
  have hne : (string s : Value σ).type ≠ target := (ValueType.ne_of_width? hbits rfl).symm
  have hword : (string s : Value σ).toInteger = wordInteger (trim s) := by
    rw [wordInteger_eq, toInteger_string]
  cases hread : integerLiteral? (trim s) with
  | none =>
    have hnone : ∀ n, ¬SpellsInteger (trim s) n := fun n hn => by
      rw [←integerLiteral?_eq_some_iff, hread] at hn
      cases hn
    have herror : (string s : Value σ).convert settings target =
        .error ⟨string s, target, .integerLiteral⟩ :=
      convert_of_toInteger_error settings hbits hne rfl (by rw [toInteger_string, hread]; rfl)
    refine ⟨fun n => iff_of_false ?_ fun h => hnone n h.1, iff_of_false ?_ ?_,
      iff_of_true herror hnone, hword, rfl, rfl⟩
    · rintro ⟨there, hthere, -⟩
      cases herror.symm.trans hthere
    · intro hout
      cases herror.symm.trans hout
    · rintro ⟨n, hn, -⟩
      exact hnone n hn
  | some n =>
    have hspells : ∀ m, SpellsInteger (trim s) m ↔ m = n := fun m => by
      rw [←integerLiteral?_eq_some_iff, hread, Option.some.injEq, eq_comm]
    have hfitting : (string s : Value σ).toInteger = fitting 64 n := by
      rw [toInteger_string, hread]
      rfl
    obtain ⟨hgives, hout⟩ := convert_of_fitting settings hbits hne hfitting
    refine ⟨fun m => ?_, ?_, iff_of_false ?_ ?_, hword, rfl, rfl⟩
    · rw [hgives, hspells]
      exact and_congr_right fun hm => by rw [hm]
    · simp only [hout, hspells, exists_eq_left]
    · intro hliteral
      by_cases hn : InWord bits n
      · obtain ⟨there, hthere, -⟩ := (hgives n).mpr ⟨rfl, hn⟩
        cases hthere.symm.trans hliteral
      · cases (hout.mpr hn).symm.trans hliteral
    · exact fun hnone => hnone n ((hspells n).mpr rfl)

theorem integer_literals_convert_sample :
    GivesInteger ((string "\u2003-0X80\n".toList : Value ConversionSettings).convert {} .byte) .byte
        (-128) ∧
      (string "-9223372036854775809".toList : Value ConversionSettings).convert {} .long =
        .error ⟨string "-9223372036854775809".toList, .long, .outOfRange⟩ ∧
      (string "+#".toList : Value ConversionSettings).convert {} .int =
        .error ⟨string "+#".toList, .int, .integerLiteral⟩ := by
  refine ⟨?_, ?_, ?_⟩
  · obtain ⟨hgives, -⟩ := integer_literals_convert (σ := ConversionSettings) {}
      "\u2003-0X80\n".toList (rfl : ValueType.byte.width? = some 8)
    exact (hgives (-128)).mpr ⟨integerLiteral?_eq_some_iff.mp (by decide), by decide⟩
  · obtain ⟨-, hout, -⟩ := integer_literals_convert (σ := ConversionSettings) {}
      "-9223372036854775809".toList (rfl : ValueType.long.width? = some 64)
    exact hout.mpr ⟨-9223372036854775809, integerLiteral?_eq_some_iff.mp (by decide), by decide⟩
  · obtain ⟨-, -, hnone, -⟩ := integer_literals_convert (σ := ConversionSettings) {}
      "+#".toList (rfl : ValueType.int.width? = some 32)
    refine hnone.mpr fun n hn => ?_
    rw [←integerLiteral?_eq_some_iff] at hn
    cases hn

end Strings

end Value

end DataPipeline
