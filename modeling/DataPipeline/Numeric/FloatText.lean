import DataPipeline.Numeric.Shortest

/-!
# Texts of floating point numbers

The plain text of a number has the shortest digits that read back to it,
always in positional notation. The annotated text shows that it is a
floating point number: it keeps `.0`, and it turns to an exponent for very
large and very small numbers.
-/

namespace DataPipeline.Numeric

/-- A decimal in positional notation. -/
def Scientific.positional (s : Scientific) : Text :=
  let digits := Text.ofNat s.digits
  if 0 ≤ s.exponent then digits ++ List.replicate s.exponent.toNat '0'
  else
    let places := (-s.exponent).toNat
    if places < digits.length then
      digits.take (digits.length - places) ++ '.' :: digits.drop (digits.length - places)
    else '0' :: '.' :: (List.replicate (places - digits.length) '0' ++ digits)

/-- A decimal with one digit before the point and an exponent after `mark`. -/
def Scientific.exponential (mark : Text) (s : Scientific) : Text :=
  let digits := Text.ofNat s.digits
  let fraction := if digits.length ≤ 1 then [] else '.' :: digits.drop 1
  digits.take 1 ++ fraction ++ mark ++ Text.ofInt (s.exponent + (digits.length : Int) - 1)

namespace Binary

variable {f : Format}

/-- The text of a number, whose finite magnitude is written by `write`. -/
def textBy (write : Scientific → Text) (x : Binary f) : Text :=
  match x.view with
  | .nan _ => "NaN".toList
  | .infinite negative => (if negative then ['-'] else []) ++ "inf".toList
  | .finite negative significand exponent =>
    (if negative then ['-'] else []) ++
      write (if significand = 0 then ⟨0, 0⟩ else (shortest f significand exponent).trim)

/-- The plain text of a number. -/
def text (x : Binary f) : Text := x.textBy Scientific.positional

/-- The annotated layout: positional from `10 ^ -4` up to `10 ^ 16`, with at
least one digit after the point, and with an exponent elsewhere. -/
def annotate (s : Scientific) : Text :=
  let order := s.exponent + (Text.digitCount s.digits : Int)
  if s.digits = 0 ∨ (-3 ≤ order ∧ order ≤ 16) then
    if 0 ≤ s.exponent then s.positional ++ ".0".toList else s.positional
  else s.exponential ['e']

/-- The annotated text of a number. -/
def annotated (x : Binary f) : Text := x.textBy annotate

end Binary

end DataPipeline.Numeric
