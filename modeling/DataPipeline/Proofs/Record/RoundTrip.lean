import DataPipeline.Proofs.Numeric.DecimalText
import DataPipeline.Record.DefaultConversion

/-!
# Conversions there and back

A value that is converted to its text, to a decimal or to a wider integer type
comes back when the result is converted to the type of the value. Texts come
back from their bytes, and exactly the byte arrays that are UTF-8 have a text
and come back from it. No date is involved, so the date pattern does not matter.
-/

namespace DataPipeline

open Numeric Text

/-- The width of an integer type in bits. -/
def ValueType.width? : ValueType → Option Nat
  | .byte => some 8
  | .short => some 16
  | .int => some 32
  | .long => some 64
  | _ => none

/-- No integer type is wider than a long. -/
theorem ValueType.width?_le {type : ValueType} {bits : Nat} (h : type.width? = some bits) :
    bits ≤ 64 := by
  cases type <;> cases h <;> decide

/-- A type with a width differs from one without. -/
theorem ValueType.ne_of_width? {type other : ValueType} {bits : Nat}
    (h : type.width? = some bits) (hother : other.width? = none) : type ≠ other := by
  rintro rfl
  cases h.symm.trans hother

/-- A string is made again of its UTF-8 form. -/
theorem fromUTF8?_toUTF8 (s : String) : String.fromUTF8? s.toUTF8 = some s := by
  have hvalid : s.toUTF8.IsValidUTF8 := s.isValidUTF8
  rw [String.fromUTF8?, dif_pos hvalid]
  rfl

namespace Value

variable {σ : Type} {settings : ConversionSettings}

/-- The integer that a value of an integer type holds. -/
def integer? : Value σ → Option Int
  | byte n => some n.toInt
  | short n => some n.toInt
  | int n => some n.toInt
  | long n => some n.toInt
  | _ => none

/-- A value converted to a type, and the result to the type of the value. -/
def thereAndBack (settings : ConversionSettings) (value : Value σ) (target : ValueType) :
    Except (ConversionFailure σ) (Value σ) := do
  let there ← value.convert settings target
  there.convert settings value.type

/-- A value of another type is converted as its type says. -/
theorem convert_of_ne {value : Value σ} {target : ValueType} (hne : value.type ≠ target)
    (hnull : value.isNull = false) :
    value.convert settings target =
      (value.convertTo settings target).mapError fun reason => ⟨value, target, reason⟩ := by
  rw [convert, if_neg]
  simp [hne, hnull]

/-- A value of another type is converted by the rule for its target. -/
theorem convert_of_convertTo {value there : Value σ} {target : ValueType}
    (hne : value.type ≠ target) (hnull : value.isNull = false)
    (h : value.convertTo settings target = .ok there) :
    value.convert settings target = .ok there := by
  rw [convert_of_ne hne hnull, h]
  rfl

/-- The way back starts from what the way there gives. -/
theorem thereAndBack_of_convert {value there : Value σ} {target : ValueType}
    (h : value.convert settings target = .ok there) :
    value.thereAndBack settings target = there.convert settings value.type := by
  rw [thereAndBack, h]
  rfl

section Integers

variable {value : Value σ} {n : Int}

/-- A whole value is read as its integer. -/
theorem toInteger_of_integer? (h : value.integer? = some n) : value.toInteger = .ok n := by
  cases value <;> cases h <;> rfl

/-- A whole value is read as the decimal of its integer. -/
theorem toDecimal_of_integer? (h : value.integer? = some n) :
    value.toDecimal = .ok (Decimal.ofInt n) := by
  cases value <;> cases h <;> rfl

/-- A whole value is written as its integer. -/
theorem toText_of_integer? (h : value.integer? = some n) (pattern : Text) :
    value.toText pattern = .ok (Text.ofInt n) := by
  cases value <;> cases h <;> rfl

/-- A value of an integer type holds an integer that fits its width. -/
theorem exists_integer {bits : Nat} (h : value.type.width? = some bits) :
    ∃ n, value.integer? = some n ∧ fitsSigned bits n = true := by
  have hfits : ∀ {bits : Nat} {n : Int}, -(wordSize (bits - 1) : Int) ≤ n →
      n < wordSize (bits - 1) → fitsSigned bits n = true := fun hle hlt =>
    (Bool.and_eq_true _ _).mpr ⟨decide_eq_true hle, decide_eq_true hlt⟩
  cases value <;> cases h
  case byte n => exact ⟨n.toInt, rfl, hfits n.le_toInt n.toInt_lt⟩
  case short n => exact ⟨n.toInt, rfl, hfits n.le_toInt n.toInt_lt⟩
  case int n => exact ⟨n.toInt, rfl, hfits n.le_toInt n.toInt_lt⟩
  case long n => exact ⟨n.toInt, rfl, hfits n.le_toInt n.toInt_lt⟩

/-- A value of an integer type is determined by its integer. -/
theorem eq_of_integer? {other : Value σ} (h : value.integer? = some n)
    (hother : other.integer? = some n) (htype : other.type = value.type) : other = value := by
  cases value <;> cases h <;> cases other <;> cases htype <;>
    simp only [integer?, Option.some.injEq] at hother
  case byte => rw [Int8.toInt_inj.mp hother]
  case short => rw [Int16.toInt_inj.mp hother]
  case int => rw [Int32.toInt_inj.mp hother]
  case long => rw [Int64.toInt_inj.mp hother]

/-- Whatever gives an integer is converted to every integer type that the integer
fits. -/
theorem exists_convert (settings : ConversionSettings) {source : Value σ} {target : ValueType}
    {bits : Nat} (hsource : source.toInteger = .ok n) (htarget : target.width? = some bits)
    (hfits : fitsSigned bits n = true) (hne : source.type ≠ target) :
    ∃ there, source.convert settings target = .ok there ∧ there.integer? = some n ∧
      there.type = target := by
  have hnull : source.isNull = false := by cases source <;> first | rfl | cases hsource
  have hfitting : (source.toInteger >>= fitting bits) = .ok n := by
    rw [hsource]
    exact if_pos hfits
  obtain ⟨hle, hlt⟩ := (Bool.and_eq_true _ _).mp hfits
  replace hle := of_decide_eq_true hle
  replace hlt := of_decide_eq_true hlt
  cases target <;> cases htarget
  case byte =>
    refine ⟨byte (.ofInt n), ?_, congrArg some (Int8.toInt_ofInt_of_le hle hlt), rfl⟩
    exact convert_of_convertTo hne hnull (by rw [convertTo, hfitting]; rfl)
  case short =>
    refine ⟨short (.ofInt n), ?_, congrArg some (Int16.toInt_ofInt_of_le hle hlt), rfl⟩
    exact convert_of_convertTo hne hnull (by rw [convertTo, hfitting]; rfl)
  case int =>
    refine ⟨int (.ofInt n), ?_, congrArg some (Int32.toInt_ofInt_of_le hle hlt), rfl⟩
    exact convert_of_convertTo hne hnull (by rw [convertTo, hfitting]; rfl)
  case long =>
    refine ⟨long (.ofInt n), ?_, congrArg some (Int64.toInt_ofInt_of_le hle hlt), rfl⟩
    exact convert_of_convertTo hne hnull (by rw [convertTo, hsource]; rfl)

/-- Whatever gives the integer of a value is converted to the value. -/
theorem convert_of_toInteger {source : Value σ} (h : value.integer? = some n)
    {bits : Nat} (hbits : value.type.width? = some bits)
    (hsource : source.toInteger = .ok n) (hne : source.type ≠ value.type) :
    source.convert settings value.type = .ok value := by
  obtain ⟨m, hm, hfits⟩ := exists_integer hbits
  cases h.symm.trans hm
  obtain ⟨back, hback, hinteger, htype⟩ := exists_convert settings hsource hbits hfits hne
  rw [hback, eq_of_integer? h hinteger htype]

/-- A value with a width is not null. -/
theorem isNull_eq_false {bits : Nat} (h : value.type.width? = some bits) :
    value.isNull = false := by
  cases value <;> first | rfl | cases h

/-- Through its text, also with blanks around it, an integer comes back. -/
theorem convert_string_of_integer (settings : ConversionSettings) {bits : Nat}
    (hbits : value.type.width? = some bits) :
    ∃ t, value.convert settings .string = .ok (string t) ∧
      ∀ before after, isAllBlank before = true → isAllBlank after = true →
        (string (before ++ t ++ after)).convert settings value.type = .ok value := by
  obtain ⟨n, hn, hfits⟩ := exists_integer hbits
  have hlong : fitting 64 n = .ok n := if_pos (fitsSigned_mono (ValueType.width?_le hbits) hfits)
  have hne : value.type ≠ .string := ValueType.ne_of_width? hbits rfl
  refine ⟨Text.ofInt n, ?_, fun before after hbefore hafter => ?_⟩
  · refine convert_of_convertTo hne (isNull_eq_false hbits) ?_
    rw [convertTo, toText_of_integer? hn]
    rfl
  · refine convert_of_toInteger hn hbits ?_ hne.symm
    rw [toInteger, trim_ofInt hbefore hafter, integerLiteral?_ofInt]
    exact hlong

/-- Through its decimal an integer comes back. -/
theorem thereAndBack_decimal {bits : Nat} (hbits : value.type.width? = some bits) :
    value.thereAndBack settings .decimal = .ok value := by
  obtain ⟨n, hn, hfits⟩ := exists_integer hbits
  have hne : value.type ≠ .decimal := ValueType.ne_of_width? hbits rfl
  have hthere : value.convert settings .decimal = .ok (decimal (.ofInt n)) := by
    refine convert_of_convertTo hne (isNull_eq_false hbits) ?_
    rw [convertTo, toDecimal_of_integer? hn]
    rfl
  rw [thereAndBack_of_convert hthere]
  refine convert_of_toInteger hn hbits ?_ hne.symm
  rw [toInteger, Decimal.toLong?_ofInt (fitsSigned_mono (ValueType.width?_le hbits) hfits)]
  rfl

/-- Through a wider integer type an integer comes back. -/
theorem thereAndBack_wider {bits more : Nat} (hbits : value.type.width? = some bits)
    {wider : ValueType} (hmore : wider.width? = some more) (hlt : bits < more) :
    value.thereAndBack settings wider = .ok value := by
  obtain ⟨n, hn, hfits⟩ := exists_integer hbits
  have hne : value.type ≠ wider := by
    rintro rfl
    cases hbits.symm.trans hmore
    exact Nat.lt_irrefl _ hlt
  obtain ⟨there, hthere, hinteger, htype⟩ := exists_convert settings
    (toInteger_of_integer? hn) hmore (fitsSigned_mono hlt.le hfits) hne
  rw [thereAndBack_of_convert hthere]
  refine convert_of_toInteger hn hbits (toInteger_of_integer? hinteger) ?_
  rw [htype]
  exact hne.symm

end Integers

section Texts

/-- A truth value comes back from its text. -/
theorem thereAndBack_bool (b : Bool) :
    (bool b : Value σ).thereAndBack settings .string = .ok (bool b) := by
  cases b <;> rfl

/-- A character comes back from its text, a blank included. -/
theorem thereAndBack_char (c : Char) :
    (char c : Value σ).thereAndBack settings .string = .ok (char c) := rfl

/-- A decimal comes back from its text as the same number. -/
theorem thereAndBack_text {d : Decimal} (h : fitsSigned 64 d.scale = true) :
    ∃ back, (decimal d : Value σ).thereAndBack settings .string = .ok back ∧
      (back == decimal d) = true := by
  obtain ⟨d', hread, hsame⟩ := Decimal.ofText?_text h
  have hthere : (decimal d : Value σ).convert settings .string = .ok (string d.text) := rfl
  refine ⟨decimal d', ?_, hsame⟩
  have hback : (string d.text : Value σ).convertTo settings .decimal = .ok (decimal d') := by
    rw [convertTo, toDecimal, hread]
    rfl
  rw [thereAndBack_of_convert hthere]
  exact convert_of_convertTo (ValueType.noConfusion ·) rfl hback

/-- A text comes back from its bytes. -/
theorem thereAndBack_bytes (t : Text) :
    (string t : Value σ).thereAndBack settings .bytes = .ok (string t) := by
  have hthere : (string t : Value σ).convert settings .bytes =
      .ok (bytes (String.ofList t).toUTF8) := rfl
  rw [thereAndBack_of_convert hthere]
  refine convert_of_convertTo (ValueType.noConfusion ·) rfl ?_
  rw [type, convertTo, toText, fromUTF8?_toUTF8, Option.elim_some, String.toList_ofList]
  rfl

/-- Byte arrays have a text exactly if they are UTF-8, and come back from it. -/
theorem convert_bytes (settings : ConversionSettings) (b : ByteArray) :
    ((∃ there, (bytes b : Value σ).convert settings .string = .ok there) ↔ b.IsValidUTF8) ∧
      ∀ there, (bytes b : Value σ).convert settings .string = .ok there →
        there.convert settings .bytes = .ok (bytes b) := by
  by_cases h : b.IsValidUTF8
  · have hthere : (bytes b : Value σ).convert settings .string =
        .ok (string (String.fromUTF8 b h).toList) := by
      refine convert_of_convertTo (ValueType.noConfusion ·) rfl ?_
      rw [convertTo, toText, String.fromUTF8?, dif_pos h]
      rfl
    refine ⟨iff_of_true ⟨_, hthere⟩ h, fun there hconvert => ?_⟩
    cases hthere.symm.trans hconvert
    refine convert_of_convertTo (ValueType.noConfusion ·) rfl ?_
    rw [convertTo, toBytes, String.ofList_toList]
    rfl
  · have hnone : (bytes b : Value σ).convert settings .string =
        .error ⟨bytes b, .string, .invalidUtf8⟩ := by
      rw [convert_of_ne (ValueType.noConfusion ·) rfl, convertTo, toText, String.fromUTF8?,
        dif_neg h]
      rfl
    refine ⟨iff_of_false ?_ h, ?_⟩
    · rintro ⟨there, hthere⟩
      cases hnone.symm.trans hthere
    · intro there hthere
      cases hnone.symm.trans hthere

end Texts

/-- Conversions return what they were given, under every date pattern. Through
its text, also with blanks around it, through a decimal and through every wider
type an integer comes back, and so does a boolean and a character through its
text. A decimal comes back as the same number; its scale is an integer of 64
bits. A text comes back from its bytes, and bytes have a text exactly if they
are UTF-8, and then come back from it. -/
theorem conversions_return (settings : ConversionSettings) :
    (∀ (value : Value σ) (bits : Nat), value.type.width? = some bits →
      value.thereAndBack settings .string = .ok value ∧
        value.thereAndBack settings .decimal = .ok value ∧
        (∀ wider more, wider.width? = some more → bits < more →
          value.thereAndBack settings wider = .ok value) ∧
        ∃ t, value.convert settings .string = .ok (string t) ∧
          ∀ before after, isAllBlank before = true → isAllBlank after = true →
            (string (before ++ t ++ after)).convert settings value.type = .ok value) ∧
    (∀ b, (bool b : Value σ).thereAndBack settings .string = .ok (bool b)) ∧
    (∀ c, (char c : Value σ).thereAndBack settings .string = .ok (char c)) ∧
    (∀ d : Decimal, fitsSigned 64 d.scale = true →
      ∃ back, (decimal d : Value σ).thereAndBack settings .string = .ok back ∧
        (back == decimal d) = true) ∧
    (∀ t, (string t : Value σ).thereAndBack settings .bytes = .ok (string t)) ∧
    ∀ b : ByteArray,
      ((∃ there, (bytes b : Value σ).convert settings .string = .ok there) ↔ b.IsValidUTF8) ∧
        (b.IsValidUTF8 → (bytes b : Value σ).thereAndBack settings .string = .ok (bytes b)) := by
  refine ⟨fun value bits hbits => ?_, thereAndBack_bool, thereAndBack_char,
    fun d hd => thereAndBack_text hd, thereAndBack_bytes, fun b => ?_⟩
  · obtain ⟨t, hthere, hback⟩ := convert_string_of_integer settings hbits
    refine ⟨?_, thereAndBack_decimal hbits, fun wider more hmore hlt =>
      thereAndBack_wider hbits hmore hlt, t, hthere, hback⟩
    rw [thereAndBack_of_convert hthere]
    simpa using hback [] [] rfl rfl
  · obtain ⟨hvalid, hback⟩ := convert_bytes settings b
    refine ⟨hvalid, fun h => ?_⟩
    obtain ⟨there, hthere⟩ := hvalid.mpr h
    rw [thereAndBack_of_convert hthere]
    exact hback there hthere

theorem conversions_return_sample :
    (long Int64.minValue : Value ConversionSettings).thereAndBack {} .string =
        .ok (long Int64.minValue) ∧
      (byte Int8.minValue : Value ConversionSettings).thereAndBack {} .short =
        .ok (byte Int8.minValue) ∧
      (string "\u2003-128\n".toList : Value ConversionSettings).convert {} .byte =
        .ok (byte Int8.minValue) ∧
      (∃ back, (decimal ⟨-120, -9223372036854775808⟩ : Value ConversionSettings).thereAndBack {}
        .string = .ok back ∧ (back == decimal ⟨-120, -9223372036854775808⟩) = true) ∧
      (bytes ⟨#[0xc3, 0xa9]⟩ : Value ConversionSettings).thereAndBack {} .string =
        .ok (bytes ⟨#[0xc3, 0xa9]⟩) := by
  obtain ⟨hinteger, -, -, hdecimal, -, hbytes⟩ := conversions_return (σ := ConversionSettings) {}
  obtain ⟨-, -, hwider, t, ht, hpadded⟩ := hinteger (byte Int8.minValue) 8 rfl
  have htext : t = "-128".toList := by
    cases ht
    rfl
  subst htext
  exact ⟨(hinteger (long Int64.minValue) 64 rfl).1, hwider .short 16 rfl (by decide),
    hpadded ['\u2003'] ['\n'] rfl rfl, hdecimal ⟨-120, -9223372036854775808⟩ (by decide),
    (hbytes ⟨#[0xc3, 0xa9]⟩).2 ⟨['é'], rfl⟩⟩

end Value

end DataPipeline
