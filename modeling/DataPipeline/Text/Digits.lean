import DataPipeline.Text.Basic

/-!
# Digits

Natural numbers and integers are written in decimal digits without leading
zeros. Numbers are read in any base up to sixteen, with letters of either case
for the digits above nine.
-/

namespace DataPipeline.Text

/-- The value of a digit; other characters count as sixteen. -/
def digitValue (c : Char) : Nat :=
  if c.isDigit then c.toNat - '0'.toNat
  else if 'a' ≤ c ∧ c ≤ 'f' then c.toNat - 'a'.toNat + 10
  else if 'A' ≤ c ∧ c ≤ 'F' then c.toNat - 'A'.toNat + 10
  else 16

/-- The number that digits of a base denote, the highest digit first. -/
def ofDigits (base : Nat) (digits : Text) : Nat :=
  digits.foldl (fun n c => n * base + digitValue c) 0

/-- The number of a nonempty text of digits in a base. -/
def natural? (base : Nat) (t : Text) : Option Nat :=
  if t ≠ [] ∧ t.all (fun c => digitValue c < base) then some (ofDigits base t) else none

/-- The decimal digits of a number. -/
def ofNat (n : Nat) : Text := Nat.toDigits 10 n

/-- The decimal digits of a number, with zeros in front up to a width. -/
def ofNatPadded (width n : Nat) : Text :=
  List.replicate (width - (ofNat n).length) '0' ++ ofNat n

/-- An integer in decimal digits, with a sign if it is negative. -/
def ofInt (n : Int) : Text := if n < 0 then '-' :: ofNat n.natAbs else ofNat n.natAbs

/-- Number of decimal digits of a number; zero has one. -/
def digitCount (n : Nat) : Nat := (ofNat n).length

end DataPipeline.Text
