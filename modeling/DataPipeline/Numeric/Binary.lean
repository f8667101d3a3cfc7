import DataPipeline.Numeric.Ratio

/-!
# Binary floating point

A format has a number of significant bits and a number of exponent bits. A
number of a format is its bit pattern, and equality is equality of bits. The
view of a pattern is a NaN, an infinity or an integer significand times a
power of two. Rationals are rounded to the nearest number of a format, ties to
the even significand, in exact arithmetic of natural numbers. Rounded products
do not associate, so a power fixes the order of its products.
-/

namespace DataPipeline.Numeric

/-- A binary floating point format. -/
structure Format where
  /-- Number of significant bits, the leading one included. -/
  precision : Nat
  /-- Number of exponent bits. -/
  exponentBits : Nat
  deriving DecidableEq, Repr

namespace Format

/-- The format of 32 bits. -/
def single : Format := ⟨24, 8⟩

/-- The format of 64 bits. -/
def double : Format := ⟨53, 11⟩

/-- Number of bits of a pattern. -/
def width (f : Format) : Nat := f.precision + f.exponentBits

/-- The weight of the leading significant bit. -/
def leading (f : Format) : Nat := Nat.pow 2 (f.precision - 1)

/-- The weight of the sign bit. -/
def signWeight (f : Format) : Nat := Nat.pow 2 (f.width - 1)

/-- The exponent field of infinities and NaNs. -/
def topField (f : Format) : Nat := Nat.pow 2 f.exponentBits - 1

/-- The pattern of the positive infinity. -/
def infinityBits (f : Format) : Nat := f.topField * f.leading

/-- Every finite number is below two to this exponent. -/
def exponentLimit (f : Format) : Nat := Nat.pow 2 (f.exponentBits - 1)

/-- Every finite number is a multiple of two to this exponent. -/
def minExponent (f : Format) : Int := 3 - f.exponentLimit - f.precision

end Format

/-- A number of a binary format, given by its bits. -/
structure Binary (f : Format) where
  /-- The bit pattern: sign, exponent field and fraction. -/
  bits : BitVec f.width
  deriving DecidableEq, Repr

/-- A number of 32 bits. -/
abbrev Single := Binary .single

/-- A number of 64 bits. -/
abbrev Double := Binary .double

/-- What a bit pattern stands for. -/
inductive FloatView
  | nan (negative : Bool)
  | infinite (negative : Bool)
  /-- The number `± significand * 2 ^ exponent`. -/
  | finite (negative : Bool) (significand : Nat) (exponent : Int)
  deriving DecidableEq, Repr

namespace Binary

variable {f : Format}

/-- What a number stands for. -/
def view (x : Binary f) : FloatView :=
  let negative : Bool := f.signWeight ≤ x.bits.toNat
  let magnitude := x.bits.toNat % f.signWeight
  let field := magnitude / f.leading
  let fraction := magnitude % f.leading
  if field = f.topField then
    if fraction = 0 then .infinite negative else .nan negative
  else if field = 0 then .finite negative fraction f.minExponent
  else .finite negative (f.leading + fraction) (f.minExponent + field - 1)

/-- The number with the given sign and the given pattern below it. -/
def ofMagnitude (negative : Bool) (magnitude : Nat) : Binary f :=
  ⟨BitVec.ofNat _ ((if negative then f.signWeight else 0) + magnitude)⟩

/-- The infinity of a sign. -/
def infinity (negative : Bool) : Binary f := ofMagnitude negative f.infinityBits

/-- The quiet NaN of a sign. -/
def quietNaN (negative : Bool) : Binary f :=
  ofMagnitude negative (f.infinityBits + f.leading / 2)

/-- The pattern, without sign, of the number nearest to a quotient. Patterns
of one sign increase with the numbers they stand for, and a carry out of the
significand moves to the next exponent. -/
def roundMagnitude (f : Format) (num den : Nat) : Nat :=
  if num = 0 then 0
  else
    let exponent := max f.minExponent (floorLog2 num den - (f.precision - 1 : Nat))
    let (n, d) := scaleBy 2 (-exponent) num den
    min f.infinityBits ((exponent - f.minExponent).toNat * f.leading + roundHalfEven n d)

/-- The number nearest to a quotient, with a sign. Quotients beyond the
largest number become infinite. -/
def ofRatio (negative : Bool) (num den : Nat) : Binary f :=
  ofMagnitude negative (roundMagnitude f num den)

/-- The number nearest to `± significand * 2 ^ exponent`. -/
def ofScaled (negative : Bool) (significand : Nat) (exponent : Int) : Binary f :=
  let (n, d) := scaleBy 2 exponent significand 1
  ofRatio negative n d

/-- The number nearest to an integer. -/
def ofInt (n : Int) : Binary f := ofRatio (n < 0) n.natAbs 1

/-- The nearest number of another format. A NaN stays one of the same sign. -/
def convert (g : Format) (x : Binary f) : Binary g :=
  match x.view with
  | .nan negative => quietNaN negative
  | .infinite negative => infinity negative
  | .finite negative significand exponent => ofScaled negative significand exponent

/-- The number nearest to a product. An infinity times zero is a NaN. -/
def mul (x y : Binary f) : Binary f :=
  match x.view, y.view with
  | .finite s m a, .finite t n b => ofScaled (s != t) (m * n) (a + b)
  | .nan s, _ => quietNaN s
  | _, .nan t => quietNaN t
  | .infinite s, .infinite t => infinity (s != t)
  | .infinite s, .finite t n _ => if n = 0 then quietNaN false else infinity (s != t)
  | .finite s m _, .infinite t => if m = 0 then quietNaN false else infinity (s != t)

/-- A power with a natural exponent: the product of the repeated squares that
the binary digits of the exponent select, from the lowest digit on. Every
product and every square is rounded. -/
def npow (x : Binary f) (n : Nat) : Binary f :=
  let step (acc : Binary f × Binary f) (i : Nat) : Binary f × Binary f :=
    (if n.testBit i then acc.1.mul acc.2 else acc.1, acc.2.mul acc.2)
  ((List.range (n.log2 + 1)).foldl step (ofInt 1, x)).1

/-- Whether the number is neither an infinity nor a NaN. -/
def isFinite (x : Binary f) : Bool :=
  match x.view with
  | .finite .. => true
  | _ => false

/-- Whether the number is an infinity. -/
def isInfinite (x : Binary f) : Bool :=
  match x.view with
  | .infinite _ => true
  | _ => false

/-- The integer part of a finite number, toward zero. -/
def truncate? (x : Binary f) : Option Int :=
  match x.view with
  | .finite negative significand exponent =>
    let (n, d) := scaleBy 2 exponent significand 1
    some (if negative then -((n / d : Nat) : Int) else ((n / d : Nat) : Int))
  | _ => none

end Binary

end DataPipeline.Numeric
