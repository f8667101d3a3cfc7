/-!
# Quotients of natural numbers

A positive rational is a quotient of two natural numbers. Rounding to the
nearest integer sends a half to the even neighbour. The binary and the decimal
order of magnitude of a quotient are computed without approximation.
-/

namespace DataPipeline.Numeric

/-- The quotient rounded to the nearest integer, a half to the even one. -/
def roundHalfEven (num den : Nat) : Nat :=
  let q := num / den
  let r := num % den
  if 2 * r < den ∨ (2 * r = den ∧ q % 2 = 0) then q else q + 1

/-- The quotient multiplied by a power of a base. -/
def scaleBy (base : Nat) (exponent : Int) (num den : Nat) : Nat × Nat :=
  if 0 ≤ exponent then (num * Nat.pow base exponent.toNat, den)
  else (num, den * Nat.pow base (-exponent).toNat)

/-- The largest exponent `e` with `2 ^ e ≤ num / den`, for positive operands. -/
def floorLog2 (num den : Nat) : Int :=
  let guess : Int := (num.log2 : Int) - (den.log2 : Int)
  let (n, d) := scaleBy 2 (-guess) num den
  if d ≤ n then guess else guess - 1

end DataPipeline.Numeric
