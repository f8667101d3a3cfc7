import DataPipeline.Calendar.Rfc3339
import DataPipeline.Proofs.Calendar.Clock
import DataPipeline.Proofs.Text.PaddedDigits

/-!
# Instants in the internet format

An instant with a year from 0 to 9999 is read back from its text with
milliseconds as the clock shows it, without the smaller parts of its second.
-/

namespace DataPipeline.Calendar

open Numeric Text

section Parts

variable {width n : Nat}

theorem fixedDigits?_ofNatPadded (hwidth : 0 < width) (h : n < 10 ^ width) (t : Text) :
    fixedDigits? width (ofNatPadded width n ++ t) = some (n, t) := by
  have hlength := length_ofNatPadded hwidth h
  have htake : (ofNatPadded width n ++ t).take width = ofNatPadded width n := by
    rw [List.take_left' hlength]
  have hdrop : (ofNatPadded width n ++ t).drop width = t := List.drop_left' hlength
  rw [fixedDigits?, htake, hdrop, if_pos hlength, natural?_ofNatPadded]
  rfl

/-- A part of two digits is read behind its separator. -/
theorem bind_twoDigits {α : Type} {choices : List Char} {c : Char} {t : Text}
    {next : Nat × Text → Option α} {a : α} (hc : choices.contains c = true) (hn : n < 100)
    (h : next (n, t) = some a) :
    ((cutOneOf? choices (c :: (ofNatPadded 2 n ++ t))).bind fun u =>
      (fixedDigits? 2 u).bind next) = some a := by
  rw [cutOneOf?, if_pos hc, Option.bind_some, fixedDigits?_ofNatPadded (by decide) hn,
    Option.bind_some, h]

/-- The digits behind a point are the leading digits of nine. -/
theorem cutFraction?_ofNatPadded {k : Nat} (hwidth : 0 < width) (hk : width + k = 9)
    (h : n < 10 ^ width) {t : Text} (ht : ∀ c ∈ t.head?, c.isDigit = false) :
    cutFraction? ('.' :: (ofNatPadded width n ++ t)) = some (n * 10 ^ k, t) := by
  have hlength := length_ofNatPadded hwidth h
  have hdigits : ∀ c ∈ ofNatPadded width n, c.isDigit = true := fun _ =>
    isDigit_of_mem_ofNatPadded
  obtain ⟨hfront, hrest⟩ := cut_digits hdigits ht
  have hnine : (ofNatPadded width n ++ List.replicate 9 '0').take 9 =
      ofNatPadded width n ++ List.replicate k '0' := by
    rw [List.take_append, hlength, List.take_of_length_le (by omega), List.take_replicate]
    congr 2
    omega
  rw [cutFraction?, hfront, hrest, if_neg (ofNatPadded_ne_nil width n), hnine,
    ofDigits_append_zeros, ofDigits_ofNatPadded]

end Parts

/-- No month has more than 31 days. -/
theorem Date.day_le (d : Date) : d.day ≤ 31 := by
  have hlength : monthLength d.year d.month ≤ 31 := by
    rw [monthLength]
    split_ifs <;> decide
  exact d.day_bounds.2.trans hlength

/-- An instant with a year of four digits is read back from its text up to
milliseconds, as the text shows it. -/
theorem ofRfc3339?_milliText {i : Instant} (hyear : 0 ≤ i.date.year ∧ i.date.year ≤ 9999) :
    Instant.ofRfc3339? i.milliText = some (i.asShown.cut 1000000) := by
  have hmonth := i.date.month_bounds
  have hday := i.date.day_le
  have hhour := i.time.hour_lt
  have hminute := i.time.minute_lt
  have hsecond := i.time.shownSecond_le
  have hnano : i.time.shownNano < 1000000000 := Nat.mod_lt _ (by decide)
  have htext : i.milliText = ofNatPadded 4 i.date.year.natAbs ++ '-' ::
      (ofNatPadded 2 i.date.month ++ '-' :: (ofNatPadded 2 i.date.day ++ 'T' ::
      (ofNatPadded 2 i.time.hour ++ ':' :: (ofNatPadded 2 i.time.minute ++ ':' ::
      (ofNatPadded 2 i.time.shownSecond ++ '.' ::
      (ofNatPadded 3 (i.time.shownNano / 1000000) ++ ['Z'])))))) := by
    simp [Instant.milliText, Instant.localText, Date.text, yearText, hyear, TimeOfDay.text,
      fractionText]
  have hfraction : cutFraction? ('.' :: (ofNatPadded 3 (i.time.shownNano / 1000000) ++ ['Z'])) =
      some (i.time.shownNano / 1000000 * 1000000, ['Z']) :=
    cutFraction?_ofNatPadded (by decide) (by decide : 3 + 6 = 9) (by omega) (by rintro c ⟨⟩; rfl)
  have htime : TimeOfDay.ofShown? i.time.hour i.time.minute i.time.shownSecond
      (i.time.shownNano / 1000000 * 1000000) = some (i.time.asShown.cut 1000000) := by
    obtain ⟨hsameHour, hsameMinute, hsameSecond, hsameNano⟩ := i.time.shown_asShown
    rw [TimeOfDay.ofShown?_eq_some_iff (by omega),
      TimeOfDay.shownSecond_cut (by decide : 1000000 * 1000 = 1000000000),
      TimeOfDay.shownNano_cut (by decide : 1000000 * 1000 = 1000000000), hsameNano]
    exact ⟨⟨hsameHour, hsameMinute, hsameSecond, rfl⟩, i.time.isCivil_asShown.cut 1000000⟩
  have hdate : Date.ofCivil? (i.date.year.natAbs : Int) i.date.month i.date.day = some i.date := by
    rw [Int.natAbs_of_nonneg hyear.1, Date.ofCivil?_self]
  rw [htext]
  refine Option.bind_eq_some_iff.mpr ⟨_, fixedDigits?_ofNatPadded (by decide) (by omega) _, ?_⟩
  refine bind_twoDigits rfl (by omega) ?_
  refine bind_twoDigits rfl (by omega) ?_
  refine bind_twoDigits rfl (by omega) ?_
  refine bind_twoDigits rfl (by omega) ?_
  refine bind_twoDigits rfl (by omega) ?_
  refine Option.bind_eq_some_iff.mpr ⟨_, hfraction, ?_⟩
  refine Option.bind_eq_some_iff.mpr ⟨0, rfl, ?_⟩
  refine Option.bind_eq_some_iff.mpr ⟨_, hdate, ?_⟩
  rw [TimeOfDay.ofShown?] at htime
  dsimp only
  split at htime
  case isTrue hleap =>
    rw [if_pos hleap]
    exact Option.bind_eq_some_iff.mpr ⟨_, htime, Instant.ofLocal?_zero (i.asShown.cut 1000000)⟩
  case isFalse hleap =>
    rw [if_neg hleap]
    exact Option.bind_eq_some_iff.mpr ⟨_, htime, Instant.ofLocal?_zero (i.asShown.cut 1000000)⟩

end DataPipeline.Calendar
