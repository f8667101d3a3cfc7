import DataPipeline.Numeric.Binary
import DataPipeline.Text.Digits

/-!
# Literals of floating point numbers

A literal is an optional sign before decimal digits with at most one point and
an optional exponent, or before a name of infinity or NaN in letters of either
case. It denotes the nearest number of the format.
-/

namespace DataPipeline.Numeric

open Text

/-- What a literal denotes, apart from its sign. -/
inductive Magnitude
  | nan
  | infinite
  /-- The decimal `digits * 10 ^ exponent`. -/
  | decimal (digits : Nat) (exponent : Int)
  deriving DecidableEq, Repr

/-- A text without its sign, and whether the sign is `-`. -/
def cutSign : Text → Bool × Text
  | '-' :: rest => (true, rest)
  | '+' :: rest => (false, rest)
  | t => (false, t)

/-- An integer in decimal digits with an optional sign. -/
def signedDigits? (t : Text) : Option Int :=
  let (negative, digits) := cutSign t
  (natural? 10 digits).map fun n => if negative then -(n : Int) else (n : Int)

/-- The decimal of a literal without sign. -/
def decimalMagnitude? (t : Text) : Option Magnitude := do
  let whole := t.takeWhile Char.isDigit
  let afterWhole := t.drop whole.length
  let fraction := match afterWhole with
    | '.' :: rest => rest.takeWhile Char.isDigit
    | _ => []
  let afterFraction := match afterWhole with
    | '.' :: rest => rest.drop fraction.length
    | _ => afterWhole
  let exponent ← match afterFraction with
    | [] => some 0
    | mark :: rest => if mark = 'e' || mark = 'E' then signedDigits? rest else none
  if whole = [] ∧ fraction = [] then none
  else return .decimal (ofDigits 10 (whole ++ fraction)) (exponent - fraction.length)

/-- What a literal without sign denotes. -/
def magnitude? (t : Text) : Option Magnitude :=
  let lower := asciiLower t
  if lower = "nan".toList then some .nan
  else if lower = "inf".toList ∨ lower = "infinity".toList then some .infinite
  else decimalMagnitude? t

namespace Binary

variable {f : Format}

/-- The number nearest to `± digits * 10 ^ exponent`. Decimals that are too
large or too small for the format by their order alone are not computed. -/
def ofDecimal (negative : Bool) (digits : Nat) (exponent : Int) : Binary f :=
  if digits = 0 then ofMagnitude negative 0
  else if f.exponentLimit ≤ exponent then infinity negative
  else if (digitCount digits : Int) + exponent < f.minExponent then ofMagnitude negative 0
  else
    let (n, d) := scaleBy 10 exponent digits 1
    ofRatio negative n d

/-- The number of a literal. -/
def ofText? (t : Text) : Option (Binary f) :=
  let (negative, rest) := cutSign t
  (magnitude? rest).map fun
    | .nan => quietNaN negative
    | .infinite => infinity negative
    | .decimal digits exponent => ofDecimal negative digits exponent

end Binary

end DataPipeline.Numeric
