import DataPipeline.Proofs.DatePattern.WrittenInstant
import DataPipeline.Proofs.Record.RoundTrip

/-!
# Dates there and back

A date that is converted to its text comes back, up to what its pattern leaves
out. Its plain text, in the internet format, is not a date by the default
pattern, but is read as the same instant up to milliseconds. A leap second that
does not end its minute is lost on the way: the text shows the second that comes
next.
-/

namespace DataPipeline

open Calendar DatePattern Text

namespace Value

variable {σ : Type} {i j : Instant} {t pattern : Text}

/-- A date is converted by what its pattern writes and reads. -/
theorem thereAndBack_date (hformat : formatDate? pattern i = some t) (htrim : IsTrimmed t)
    (hparse : parseDate t pattern = .ok j) :
    (date i : Value σ).thereAndBack ⟨pattern⟩ .string = .ok (date j) := by
  have hthere : (date i : Value σ).convert ⟨pattern⟩ .string = .ok (string t) := by
    refine convert_of_convertTo (ValueType.noConfusion ·) rfl ?_
    rw [convertTo, toText, hformat]
    rfl
  rw [thereAndBack_of_convert hthere]
  refine convert_of_convertTo (ValueType.noConfusion ·) rfl ?_
  rw [type, convertTo, toInstant, trim_eq_self_iff.mpr htrim, hparse]
  rfl

/-- A text that goes on behind its date is no date. -/
theorem exists_parseDate_error (d : Date) (c : Char) (t : Text) :
    ∃ e, parseDate (d.text ++ c :: t) (patternText datePieces) = .error e := by
  cases hparse : parseDate (d.text ++ c :: t) (patternText datePieces) with
  | error e => exact ⟨e, rfl⟩
  | ok i =>
    obtain ⟨f, hread, -⟩ := parseDate_eq_ok_iff.mp hparse
    obtain ⟨found, hmatches, -⟩ := (readFields_pieces_eq_ok_iff (by decide)).mp hread
    have hfront : Matches datePieces (d.text ++ c :: t) (c :: t) _ := matches_date d (.done _)
    cases (hmatches.unique hfront).1

/-- Under the default pattern the internet format is read where it has a year of
four digits. -/
theorem convert_milliText (hyear : 0 ≤ i.date.year ∧ i.date.year ≤ 9999) :
    (string i.milliText : Value σ).convert {} .date = .ok (date (i.asShown.cut 1000000)) := by
  have htrim : IsTrimmed i.milliText := by
    have hone : IsTrimmed ['Z'] := by decide
    have htext : i.milliText =
        i.date.text ++ 'T' :: i.time.text (fractionText 3) ++ ['Z'] := rfl
    rw [htext]
    exact (isTrimmed_dateText i.date).append (dateText_ne_nil i.date) hone (List.cons_ne_nil _ _)
  obtain ⟨e, he⟩ := exists_parseDate_error i.date 'T' (i.time.text (fractionText 3) ++ ['Z'])
  have hparse : parseDate i.milliText "%Y-%m-%d".toList = .error e := by
    rw [←he]
    simp [Instant.milliText, Instant.localText]
    rfl
  refine convert_of_convertTo (ValueType.noConfusion ·) rfl ?_
  have hinstant : (string i.milliText : Value σ).toInstant "%Y-%m-%d".toList =
      .ok (i.asShown.cut 1000000) := by
    rw [toInstant, trim_eq_self_iff.mpr htrim, hparse]
    change ((Instant.ofRfc3339? i.milliText).elim _ _) = _
    rw [ofRfc3339?_milliText hyear]
    rfl
  rw [convertTo, hinstant]
  rfl

/-- A date and a time of day come back as the whole second that a clock shows. -/
theorem thereAndBack_moment (i : Instant) :
    (date i : Value σ).thereAndBack ⟨patternText (momentPieces ' ')⟩ .string =
      .ok (date (i.asShown.cut 1000000000)) := by
  have hformat : formatDate? (patternText (momentPieces ' ')) i =
      some (i.date.text ++ ' ' :: clockText i.time) := by
    rw [formatDate?_patternText, shown_momentPieces]
  have htrim : IsTrimmed (i.date.text ++ ' ' :: clockText i.time) := by
    have hwhole := (isTrimmed_dateText i.date).append (t := [' ']) (dateText_ne_nil i.date)
      (isTrimmed_clockText i.time) (clockText_ne_nil i.time)
    rwa [List.append_assoc] at hwhole
  exact thereAndBack_date hformat htrim (parseDate_momentText ' ' i)

/-- With its fraction and its offset an instant comes back whole, as a clock shows
it. -/
theorem thereAndBack_instant (i : Instant) :
    (date i : Value σ).thereAndBack ⟨patternText (momentPieces 'T') ++ fractionAndOffset⟩ .string =
      .ok (date i.asShown) := by
  have hformat : formatDate? (patternText (momentPieces 'T') ++ fractionAndOffset) i =
      some (i.date.text ++ 'T' :: (clockText i.time ++
        (fractionGroups i.time.shownNano ++ zeroOffset .plain))) := by
    rw [formatDate?_pieces, formatDate?_fractionAndOffset, shown_momentPieces, Option.map_some,
      List.append_assoc]
    rfl
  have htrim : IsTrimmed (i.date.text ++ 'T' :: (clockText i.time ++
      (fractionGroups i.time.shownNano ++ zeroOffset .plain))) := by
    have hoffset : IsTrimmed (zeroOffset .plain) := by decide
    have hwhole := (isTrimmed_dateText i.date).append
      (t := 'T' :: (clockText i.time ++ fractionGroups i.time.shownNano)) (dateText_ne_nil i.date)
      hoffset (by decide)
    simpa only [List.append_assoc, List.cons_append] using hwhole
  exact thereAndBack_date hformat htrim (parseDate_instantText 'T' i)

/-- Dates survive their texts. Through a date alone every instant comes back as
the start of its day. As the clock shows it, an instant comes back through date
and time of day as its whole second, a leap second included, and through date,
time of day, fraction and offset as itself; and its plain text, if it has a year
of four digits, is read under the default pattern as the instant without what is
smaller than a millisecond. The clock shows the instant itself exactly if a leap
second, where there is one, follows the last second of its minute. -/
theorem dates_return (i : Instant) :
    (date i : Value σ).thereAndBack ⟨"%Y-%m-%d".toList⟩ .string = .ok (date ⟨i.date, .midnight⟩) ∧
      (date i : Value σ).thereAndBack ⟨"%Y-%m-%d %H:%M:%S".toList⟩ .string =
        .ok (date (i.asShown.cut 1000000000)) ∧
      (date i : Value σ).thereAndBack ⟨"%Y-%m-%dT%H:%M:%S%.f%z".toList⟩ .string =
        .ok (date i.asShown) ∧
      (0 ≤ i.date.year ∧ i.date.year ≤ 9999 →
        (string (date i : Value σ).text : Value σ).convert {} .date =
          .ok (date (i.asShown.cut 1000000))) ∧
      (i.asShown = i ↔ (1000000000 ≤ i.time.nano → i.time.second = 59)) := by
  refine ⟨?_, thereAndBack_moment i, thereAndBack_instant i, convert_milliText,
    Instant.asShown_eq_self_iff⟩
  have hformat : formatDate? (patternText datePieces) i = some i.date.text := by
    rw [formatDate?_patternText, shown_datePieces]
  exact thereAndBack_date hformat (isTrimmed_dateText i.date) (parseDate_dateText i.date)

/-- An instant within the leap second at the end of 2016. -/
def leapInstant : Instant where
  date := ⟨2016, 12, 31, by decide, by decide, by decide⟩
  time := ⟨23, 59, 59, 1500000123, by decide, by decide, by decide, by decide⟩

theorem dates_return_sample :
    (date leapInstant : Value ConversionSettings).thereAndBack
        ⟨"%Y-%m-%dT%H:%M:%S%.f%z".toList⟩ .string = .ok (date leapInstant) ∧
      (string "2016-12-31T23:59:60.500Z".toList : Value ConversionSettings).convert {} .date =
        .ok (date (leapInstant.cut 1000000)) := by
  obtain ⟨-, -, hinstant, hplain, hshown⟩ := dates_return (σ := ConversionSettings) leapInstant
  have hsame : leapInstant.asShown = leapInstant := hshown.mpr fun _ => rfl
  rw [hsame] at hinstant hplain
  exact ⟨hinstant, hplain (by decide)⟩

/-- An instant within a leap second in the middle of a minute. -/
def strayLeapInstant : Instant where
  date := ⟨2014, 8, 17, by decide, by decide, by decide⟩
  time := ⟨9, 41, 30, 1500000000, by decide, by decide, by decide, by decide⟩

/-- A leap second in the middle of a minute does not come back. -/
theorem stray_leap_lost :
    (date strayLeapInstant : Value ConversionSettings).thereAndBack
        ⟨"%Y-%m-%d %H:%M:%S".toList⟩ .string ≠ .ok (date (strayLeapInstant.cut 1000000000)) ∧
      (date strayLeapInstant : Value ConversionSettings).thereAndBack
        ⟨"%Y-%m-%dT%H:%M:%S%.f%z".toList⟩ .string ≠ .ok (date strayLeapInstant) ∧
      (string (date strayLeapInstant : Value ConversionSettings).text :
          Value ConversionSettings).convert {} .date ≠
        .ok (date (strayLeapInstant.cut 1000000)) := by
  have hmoment := thereAndBack_moment (σ := ConversionSettings) strayLeapInstant
  have hinstant := thereAndBack_instant (σ := ConversionSettings) strayLeapInstant
  have hplain := convert_milliText (σ := ConversionSettings) (i := strayLeapInstant) (by decide)
  refine ⟨fun h => ?_, fun h => ?_, fun h => ?_⟩
  · have hsame : strayLeapInstant.asShown.cut 1000000000 = strayLeapInstant.cut 1000000000 :=
      date.inj (Except.ok.inj (hmoment.symm.trans h))
    exact absurd hsame (by decide)
  · have hsame : strayLeapInstant.asShown = strayLeapInstant :=
      date.inj (Except.ok.inj (hinstant.symm.trans h))
    exact absurd hsame (by decide)
  · have hsame : strayLeapInstant.asShown.cut 1000000 = strayLeapInstant.cut 1000000 :=
      date.inj (Except.ok.inj (hplain.symm.trans h))
    exact absurd hsame (by decide)

end Value

end DataPipeline
