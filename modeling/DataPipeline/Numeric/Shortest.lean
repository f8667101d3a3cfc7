import DataPipeline.Numeric.Binary
import DataPipeline.Text.Digits

/-!
# Shortest decimal digits

Every finite number of a binary format is the nearest one to a whole interval
of decimals. The shortest of these decimals is found by trying one digit, two
digits and so on: on each decimal grid only the two neighbours of the number
matter. Of two neighbours that both lie in the interval the nearer one is
taken, and on an exact tie the upper one.
-/

namespace DataPipeline.Numeric

/-- The decimal number `digits * 10 ^ exponent`. -/
structure Scientific where
  /-- The digits, read as one number. -/
  digits : Nat
  /-- The exponent of the last digit. -/
  exponent : Int
  deriving DecidableEq, Repr

/-- The smallest exponent `e` with `num / den < 10 ^ e`, for positive operands. -/
def decimalOrder (num den : Nat) : Int :=
  if den ≤ num then (Text.digitCount (num / den) : Int)
  else 1 - (Text.digitCount ((den - 1) / num) : Int)

/-- The decimals that round to one number, in units of a quarter of the
distance to its upper neighbour. -/
structure RoundingInterval where
  /-- The number itself. -/
  centre : Nat
  /-- The lower end. -/
  lower : Nat
  /-- The upper end. -/
  upper : Nat
  /-- Whether the ends round to the number too. -/
  closed : Bool
  /-- The exponent of two that the unit stands for. -/
  unit : Int
  deriving DecidableEq, Repr

/-- The interval of a positive number of a format. Below the least significand
the neighbours are twice as close. -/
def roundingInterval (f : Format) (significand : Nat) (exponent : Int) : RoundingInterval where
  centre := 4 * significand
  lower :=
    if significand = f.leading ∧ f.minExponent < exponent then 4 * significand - 1
    else 4 * significand - 2
  upper := 4 * significand + 2
  closed := significand % 2 = 0
  unit := exponent - 2

namespace RoundingInterval

/-- Whether a multiple of the grid lies in the interval, when one unit of the
interval is `num / den` grid units. -/
def contains (i : RoundingInterval) (num den candidate : Nat) : Bool :=
  if i.closed then i.lower * num ≤ candidate * den && candidate * den ≤ i.upper * num
  else i.lower * num < candidate * den && candidate * den < i.upper * num

/-- The nearer of the two neighbours on the grid of multiples of
`10 ^ exponent` that lie in the interval. -/
def onGrid? (i : RoundingInterval) (exponent : Int) : Option Scientific :=
  let (n, d) := scaleBy 2 i.unit 1 1
  let (num, den) := scaleBy 10 (-exponent) n d
  let below := i.centre * num / den
  let above := below + 1
  let belowFits := i.contains num den below
  let aboveFits := i.contains num den above
  let belowNearer := i.centre * num - below * den < above * den - i.centre * num
  if belowFits && (belowNearer || !aboveFits) then some ⟨below, exponent⟩
  else if aboveFits then some ⟨above, exponent⟩
  else none

end RoundingInterval

/-- The shortest decimal that rounds to a positive number of a format. As many
digits as the format has bits always suffice. -/
def shortest (f : Format) (significand : Nat) (exponent : Int) : Scientific :=
  let interval := roundingInterval f significand exponent
  let (num, den) := scaleBy 2 exponent significand 1
  let order := decimalOrder num den
  ((List.range f.precision).findSome? fun k => interval.onGrid? (order - (k + 1 : Nat))).getD
    ⟨significand, 0⟩

/-- The same decimal without trailing zeros in its digits. -/
def Scientific.trim (s : Scientific) : Scientific :=
  let zeros := ((Text.ofNat s.digits).reverse.takeWhile (· = '0')).length
  if s.digits = 0 then ⟨0, 0⟩ else ⟨s.digits / Nat.pow 10 zeros, s.exponent + zeros⟩

end DataPipeline.Numeric
