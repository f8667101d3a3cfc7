import DataPipeline.Proofs.Numeric.Positional

/-!
# Digits up to a width

A number that fits a width is written in exactly so many digits, with zeros in
front, and these digits denote it.
-/

namespace DataPipeline.Text

section Padded

variable {width n : Nat}

theorem isDigit_of_mem_ofNatPadded {c : Char} (h : c ∈ ofNatPadded width n) : c.isDigit = true := by
  rcases List.mem_append.mp h with h | h
  · exact isDigit_of_mem_zeros h
  · exact isDigit_of_mem_ofNat h

theorem ofNatPadded_ne_nil (width n : Nat) : ofNatPadded width n ≠ [] :=
  List.append_ne_nil_of_right_ne_nil _ (ofNat_ne_nil n)

/-- Zeros in front do not change the number. -/
theorem ofDigits_ofNatPadded (width n : Nat) : ofDigits 10 (ofNatPadded width n) = n := by
  rw [ofNatPadded, ofDigits_zeros_append, ofDigits_ofNat]

/-- A number that fits the width takes no other. -/
theorem length_ofNatPadded (hwidth : 0 < width) (h : n < 10 ^ width) :
    (ofNatPadded width n).length = width := by
  have hle : (ofNat n).length ≤ width := (Nat.length_toDigits_le_iff (by decide) hwidth).mpr h
  rw [ofNatPadded, List.length_append, List.length_replicate]
  omega

theorem natural?_ofNatPadded (width n : Nat) : natural? 10 (ofNatPadded width n) = some n := by
  rw [natural?_of_digits (fun _ => isDigit_of_mem_ofNatPadded) (ofNatPadded_ne_nil width n),
    ofDigits_ofNatPadded]

end Padded

end DataPipeline.Text
