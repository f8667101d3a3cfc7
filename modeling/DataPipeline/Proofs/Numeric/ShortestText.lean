import DataPipeline.Proofs.Numeric.DecimalLiteral
import DataPipeline.Proofs.Numeric.ShortestDigits

/-!
# The text of a number

The plain text of a finite number is a decimal literal of its shortest digits, which
are rounded to it. So the text is read in the same format as the number, bit by bit.
-/

namespace DataPipeline.Numeric

open Format Text

/-- A decimal in positional notation is a literal of the number that it denotes. -/
theorem Scientific.spellsDecimal (s : Scientific) (negative : Bool) :
    SpellsDecimal ((if negative then ['-'] else []) ++ s.positional) negative s.value := by
  obtain ⟨whole, fraction, hparts⟩ := s.exists_isPositional
  have hsign : IsSign (if negative then ['-'] else []) negative := by
    cases negative
    · exact .none
    · exact .minus
  have hfraction : IsFraction (if fraction = [] then [] else '.' :: fraction) fraction := by
    split
    · next hnil =>
      rw [hnil]
      exact .none
    · exact .point fraction
  have hspells := spellsDecimal_of_digits hsign hfraction
    (List.append_ne_nil_of_left_ne_nil hparts.whole_ne_nil _) hparts.isDigit .none
  rw [List.append_nil, ←hparts.text, zero_sub, hparts.value_eq] at hspells
  exact hspells

namespace Binary

variable {f : Format} {n : Nat}

/-- The digits that the text of a pattern shows. -/
def shownDigits (f : Format) (n : Nat) : Scientific :=
  if n = 0 then ⟨0, 0⟩
  else (shortest f (n - f.shift n * f.leading) (f.minExponent + f.shift n)).trim

/-- The text of a finite number shows the digits of its pattern behind its sign. -/
theorem text_ofPattern (hf : f.IsProper) (negative : Bool) (hfinite : n < f.infinityBits) :
    (ofPattern negative n : Binary f).text =
      (if negative then ['-'] else []) ++ (shownDigits f n).positional := by
  rw [text, textBy, view_ofPattern hf negative hfinite, shownDigits]
  dsimp only
  rcases Nat.eq_zero_or_pos n with rfl | hpos
  · rw [Nat.zero_sub, if_pos rfl]
  · rw [if_neg (f.significand_pos hpos).ne', if_neg hpos.ne']

/-- The digits that are shown are rounded to the number. -/
theorem roundsTo_shownDigits (hf : f.HasFraction) (n : Nat) :
    f.RoundsTo (shownDigits f n).value n := by
  rw [shownDigits]
  split
  · next hzero =>
    rw [hzero, Scientific.value, Nat.cast_zero, zero_mul, ←f.valueAt_zero]
    exact RoundsTo.valueAt f 0
  · next hne =>
    rw [Scientific.value_trim]
    exact (nearestOnGrid_shortest hf (Nat.pos_of_ne_zero hne)).rounds

/-- The text of a finite number is a decimal literal. -/
theorem spellsDecimal_text (hf : f.IsProper) (negative : Bool) (hfinite : n < f.infinityBits) :
    SpellsDecimal (ofPattern negative n : Binary f).text negative (shownDigits f n).value := by
  rw [text_ofPattern hf negative hfinite]
  exact (shownDigits f n).spellsDecimal negative

/-- A finite number is read back from its text in its own format. -/
theorem ofText?_text (hf : f.HasFraction) {x : Binary f} (h : x.isFinite = true) :
    ofText? x.text = some x := by
  obtain ⟨negative, n, hfinite, rfl⟩ := exists_ofPattern hf.toIsProper h
  obtain ⟨m, hround, hread⟩ := (spellsDecimal_text hf.toIsProper negative hfinite).read hf
  rw [hread, hround.unique (roundsTo_shownDigits hf n)]

end Binary

end DataPipeline.Numeric
