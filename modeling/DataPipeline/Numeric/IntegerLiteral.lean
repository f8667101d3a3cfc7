import DataPipeline.Text.Digits

/-!
# Integer literals

An integer literal is an optional sign, an optional mark of base sixteen and
at least one digit. It denotes an integer of any size.
-/

namespace DataPipeline.Numeric

open Text

/-- The base of an unsigned literal, and its digits. -/
def literalBase : Text → Nat × Text
  | '0' :: 'x' :: digits => (16, digits)
  | '0' :: 'X' :: digits => (16, digits)
  | '#' :: digits => (16, digits)
  | digits => (10, digits)

/-- The number of an unsigned literal. -/
def unsignedLiteral? (t : Text) : Option Nat :=
  let (base, digits) := literalBase t
  natural? base digits

/-- The integer of a literal. -/
def integerLiteral? : Text → Option Int
  | '-' :: t => (unsignedLiteral? t).map fun n => -(n : Int)
  | '+' :: t => (unsignedLiteral? t).map fun n => (n : Int)
  | t => (unsignedLiteral? t).map fun n => (n : Int)

end DataPipeline.Numeric
