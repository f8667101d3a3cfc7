import DataPipeline.Proofs.DatePattern.FoundInstant

/-!
# Dates by plain patterns

A plain pattern has year, month and day, and perhaps parts of a time of day,
but no offset. A text is a date by it exactly if it matches and its numbers are
those of the date and of the time of day. A time is only taken if the pattern
has both hour and minute: any other number of a time that was read is dropped.
-/

namespace DataPipeline.DatePattern

open Calendar Text

/-- A pattern of characters, the numbers of a date once each, and numbers of a
time of day at most once each. -/
structure PlainPattern where
  /-- What the pattern consists of. -/
  pieces : List Piece
  /-- No number comes twice. -/
  nodup : (patternFields pieces).Nodup
  /-- There is a year. -/
  year_mem : .year ∈ patternFields pieces
  /-- There is a month. -/
  month_mem : .month ∈ patternFields pieces
  /-- There is a day. -/
  day_mem : .day ∈ patternFields pieces

namespace PlainPattern

/-- How the pattern is written. -/
def text (p : PlainPattern) : Text := patternText p.pieces

/-- The pattern has a number. -/
def Has (p : PlainPattern) (field : CivilField) : Prop := field ∈ patternFields p.pieces

instance (p : PlainPattern) (field : CivilField) : Decidable (p.Has field) :=
  inferInstanceAs (Decidable (field ∈ patternFields p.pieces))

/-- The numbers that a plain pattern finds give an instant by the fields that the
pattern has. -/
theorem instant_of_matches (p : PlainPattern) {t : Text} {i : Instant} {found : Found}
    (hmatches : Matches p.pieces t [] found) (hadmitted : found.IsAdmitted) :
    (Fields.ofFound found).instant = .ok i ↔
      (found .year = some i.date.year ∧ found .month = some (i.date.month : Int) ∧
        found .day = some (i.date.day : Int)) ∧
        if p.Has .hour ∧ p.Has .minute then
          (found .hour = some (i.time.hour : Int) ∧ found .minute = some (i.time.minute : Int) ∧
            (found .second).getD 0 = i.time.shownSecond ∧ i.time.shownNano = 0) ∧ i.time.IsCivil
        else i.time = .midnight := by
  have hsome : ∀ field, (found field).isSome = true ↔ p.Has field := hmatches.isSome_iff
  rw [instant_of_isAdmitted hadmitted ((hsome .year).mpr p.year_mem)
    ((hsome .month).mpr p.month_mem) ((hsome .day).mpr p.day_mem)]
  simp only [hsome]

/-- A text gives a date by a plain pattern exactly if it matches and the date is
the one with the numbers that were found. These are fixed by the text. The time
of day is the one of the numbers that were found if the pattern has hour and
minute, with a second 60 as the leap second behind the second 59 and no second as
the second 0; otherwise it is the start of the day, whatever was found. -/
theorem parsed_date (p : PlainPattern) (t : Text) (i : Instant) :
    (parseDate t p.text = .ok i ↔
      ∃ found, Matches p.pieces t [] found ∧ found.IsAdmitted ∧
        (found .year = some i.date.year ∧ found .month = some (i.date.month : Int) ∧
          found .day = some (i.date.day : Int)) ∧
        if p.Has .hour ∧ p.Has .minute then
          (found .hour = some (i.time.hour : Int) ∧ found .minute = some (i.time.minute : Int) ∧
            (found .second).getD 0 = i.time.shownSecond ∧ i.time.shownNano = 0) ∧ i.time.IsCivil
        else i.time = .midnight) ∧
      ∀ found found', Matches p.pieces t [] found → Matches p.pieces t [] found' →
        found = found' := by
  refine ⟨?_, fun found found' h h' => (h.unique h').2⟩
  rw [parseDate_eq_ok_iff]
  simp only [text, readFields_pieces_eq_ok_iff p.nodup]
  constructor
  · rintro ⟨_, ⟨found, hmatches, hadmitted, rfl⟩, hinstant⟩
    exact ⟨found, hmatches, hadmitted, (p.instant_of_matches hmatches hadmitted).mp hinstant⟩
  · rintro ⟨found, hmatches, hadmitted, hinstant⟩
    exact ⟨_, ⟨found, hmatches, hadmitted, rfl⟩,
      (p.instant_of_matches hmatches hadmitted).mpr hinstant⟩

/-- A date and an hour without a minute. -/
def dateAndHour : PlainPattern where
  pieces := [.number .year, .char '-', .number .month, .char '-', .number .day, .char ' ',
    .number .hour]
  nodup := by decide
  year_mem := by decide
  month_mem := by decide
  day_mem := by decide

/-- An hour without a minute is read and then dropped. -/
theorem lone_hour_dropped :
    dateAndHour.text = "%Y-%m-%d %H".toList ∧
      ∃ found i, Matches dateAndHour.pieces "2013-06-14 08".toList [] found ∧
        found .hour = some 8 ∧ parseDate "2013-06-14 08".toList dateAndHour.text = .ok i ∧
        i.time = .midnight := by
  have hmatches : ∃ found, Matches dateAndHour.pieces "2013-06-14 08".toList [] found ∧
      found = Function.update (Function.update (Function.update (Function.update (fun _ => none)
        .hour (some 8)) .day (some 14)) .month (some 6)) .year (some 2013) := by
    refine ⟨_, .digits "2013".toList rfl (by decide) (List.all_eq_true.mp rfl) (.char rfl
      (.digits "06".toList rfl (by decide) (List.all_eq_true.mp rfl) (.char rfl
        (.digits "14".toList rfl (by decide) (List.all_eq_true.mp rfl) (.blank rfl
          (.digits "08".toList rfl (by decide) (List.all_eq_true.mp rfl) (.done []))))))), rfl⟩
  obtain ⟨found, hfound, rfl⟩ := hmatches
  have hadmitted := (((isAdmitted_none.update (by decide : CivilField.hour.Admits 8)).update
    (by decide : CivilField.day.Admits 14)).update (by decide : CivilField.month.Admits 6)).update
    (by decide : CivilField.year.Admits 2013)
  have hparse : parseDate "2013-06-14 08".toList dateAndHour.text =
      .ok ⟨⟨2013, 6, 14, by decide, by decide, by decide⟩, .midnight⟩ :=
    parseDate_eq_ok_iff.mpr ⟨_, (readFields_pieces_eq_ok_iff dateAndHour.nodup).mpr
      ⟨_, hfound, hadmitted, rfl⟩, (instant_of_isAdmitted hadmitted rfl rfl rfl).mpr
        ⟨⟨rfl, rfl, rfl⟩, rfl⟩⟩
  exact ⟨rfl, _, _, hfound, rfl, hparse, rfl⟩

end PlainPattern

end DataPipeline.DatePattern
