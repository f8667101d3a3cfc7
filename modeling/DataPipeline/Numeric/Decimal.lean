import DataPipeline.Numeric.FloatLiteral
import DataPipeline.Numeric.FloatText
import DataPipeline.Numeric.Word

/-!
# Decimals of arbitrary precision

A decimal is an integer and the number of its places after the point, which
may be negative. Different pairs can denote the same number; equality of
numbers compares them without trailing zeros. Binary numbers convert exactly
to decimals, and decimals to a binary number near them.
-/

namespace DataPipeline.Numeric

open Text

/-- The number `unscaled * 10 ^ (-scale)`. -/
structure Decimal where
  /-- All digits, read as one integer. -/
  unscaled : Int
  /-- Number of places after the point. -/
  scale : Int
  deriving DecidableEq, Repr

namespace Decimal

/-- An integer as a decimal. -/
def ofInt (n : Int) : Decimal := ⟨n, 0⟩

/-- Number of zeros at the end of the digits of a number. -/
def trailingZeros (n : Nat) : Nat := ((Text.ofNat n).reverse.takeWhile (· = '0')).length

/-- The same number without trailing zeros in its digits; zero has scale
zero. -/
def normalize (d : Decimal) : Decimal :=
  if d.unscaled = 0 then ⟨0, 0⟩
  else
    let zeros := trailingZeros d.unscaled.natAbs
    ⟨d.unscaled.tdiv (Nat.pow 10 zeros), d.scale - zeros⟩

/-- Whether two decimals denote the same number. -/
def same (a b : Decimal) : Bool := a.normalize = b.normalize

/-- The text that two decimals share if they denote the same number: the digits
of the integer, without at most `scale` trailing zeros, or with zeros for a
negative scale. -/
def hashText (d : Decimal) : Text :=
  let digits := Text.ofInt d.unscaled
  if d.unscaled = 0 then digits
  else if 0 ≤ d.scale then
    digits.take (digits.length - min d.scale.toNat (trailingZeros d.unscaled.natAbs))
  else digits ++ List.replicate (-d.scale).toNat '0'

/-- The text of a decimal. Numbers with more than five zeros after the point
before their first digit are written with a negative exponent, and numbers
with more than fifteen zeros to append with a positive one. -/
def text (d : Decimal) : Text :=
  let digits : Scientific := ⟨d.unscaled.natAbs, if d.unscaled = 0 then 0 else -d.scale⟩
  let sign := if d.unscaled < 0 then ['-'] else []
  if (digitCount digits.digits : Int) + digits.exponent < -5 then sign ++ digits.exponential ['E']
  else if 15 < digits.exponent then
    sign ++ ofNat digits.digits ++ "e+".toList ++ Text.ofInt digits.exponent
  else sign ++ digits.positional

/-- An integer in decimal digits with an optional sign; `_` may stand between
and after digits. -/
def groupedInteger? (t : Text) : Option Int :=
  let (negative, digits) := cutSign t
  if digits.head? = some '_' then none
  else
    (natural? 10 (digits.filter (· ≠ '_'))).map fun n => if negative then -(n : Int) else (n : Int)

/-- The decimal of a literal: an integer with at most one point in it, and an
optional exponent. The scale must fit 64 bits. -/
def ofText? (t : Text) : Option Decimal := do
  let isMark (c : Char) : Bool := c = 'e' || c = 'E'
  let mantissa := t.takeWhile fun c => !isMark c
  let exponent ← match t.dropWhile fun c => !isMark c with
    | [] => some 0
    | _ :: rest => signedDigits? rest
  let whole := mantissa.takeWhile (· ≠ '.')
  let fraction := (mantissa.dropWhile (· ≠ '.')).drop 1
  let scale := ((fraction.filter (· ≠ '_')).length : Int) - exponent
  if fitsSigned 64 scale then
    return ⟨← groupedInteger? (whole ++ fraction), scale⟩
  else none

/-- The decimal equal to `± significand * 2 ^ exponent`. A power of two in the
denominator is first cancelled, unless the number is below the normal range of
the format, and then turned into a power of ten. -/
def ofScaled (f : Format) (negative : Bool) (significand : Nat) (exponent : Int) : Decimal :=
  let signed (n : Nat) : Int := if negative then -(n : Int) else (n : Int)
  if significand = 0 then ⟨0, 0⟩
  else if 0 ≤ exponent then ⟨signed (significand * Nat.pow 2 exponent.toNat), 0⟩
  else
    let denominator := Nat.pow 2 (-exponent).toNat
    let common := if significand < f.leading then 1 else significand.gcd denominator
    let places := (denominator / common).log2
    ⟨signed (significand / common * Nat.pow 5 places), places⟩

/-- The decimal equal to a finite binary number. -/
def ofBinary? {f : Format} (x : Binary f) : Option Decimal :=
  match x.view with
  | .finite negative significand exponent => some (ofScaled f negative significand exponent)
  | _ => none

/-- The decimal without its last digits: nineteen at a time are cut toward
zero as long as at least twenty-five stay. The digits are counted as one less
than those of the least power of two above twice the integer, which is the
number of digits or one less. -/
def leadingDigits (d : Decimal) : Decimal :=
  let count := digitCount (Nat.pow 2 (d.unscaled.natAbs.log2 + 2)) - 1
  let cut := (count - 25) / 19 * 19
  ⟨d.unscaled.tdiv (Nat.pow 10 cut), d.scale - cut⟩

/-- The binary number of 64 bits of a decimal. An integer goes to the nearest
one. Of any other decimal only the leading digits count: with places after the
point they go to the nearest number, and without to the rounded product of the
rounded integer and the rounded power of ten. A scale of more than 32 bits goes
to an infinity. -/
def toDouble (d : Decimal) : Double :=
  if d.unscaled = 0 || d.scale = 0 then Binary.ofInt d.unscaled
  else
    let ⟨digits, scale⟩ := d.leadingDigits
    let negative : Bool := d.unscaled < 0
    if scale ≤ 0 then (Binary.ofInt digits).mul ((Binary.ofInt 10).npow (-scale).toNat)
    else if fitsSigned 32 scale then Binary.ofDecimal negative digits.natAbs (-scale)
    else Binary.infinity negative

/-- The integer part toward zero, if it fits 64 bits. A power of ten that
alone exceeds the range, or the digits, is not computed. -/
def toLong? (d : Decimal) : Option Int :=
  let n :=
    if d.scale ≤ 0 then d.unscaled * Nat.pow 10 (min (-d.scale).toNat 19)
    else if digitCount d.unscaled.natAbs ≤ d.scale then 0
    else d.unscaled.tdiv (Nat.pow 10 d.scale.toNat)
  if fitsSigned 64 n then some n else none

end Decimal

end DataPipeline.Numeric
