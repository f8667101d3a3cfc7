import DataPipeline.DatePattern.Rendering
import DataPipeline.Proofs.Calendar.InternetText
import DataPipeline.Proofs.DatePattern.PatternMatch

/-!
# Written dates match their pattern

An instant is written piece by piece as it is read. Its date and its time of
day are written in the same digits as in the internet format, a year outside 0
to 9999 with a sign, and these texts match the pieces that wrote them, whatever
follows them.
-/

namespace DataPipeline.DatePattern

open Calendar Text

/-- How a piece is written for an instant. -/
def Piece.shown (i : Instant) : Piece → Text
  | char c => [c]
  | number field => numberText i .zero field.number

section Rendering

variable {i : Instant}

/-- The texts of items for an instant, if all of them have one. -/
def itemsText? (i : Instant) (list : List Item) : Option Text :=
  (list.mapM (Item.text? i)).map List.flatten

/-- The texts of items stand one after the other, if all of them have one. -/
theorem itemsText?_cons (item : Item) (list : List Item) :
    itemsText? i (item :: list) =
      (item.text? i).bind fun t => (itemsText? i list).map (t ++ ·) := by
  rw [itemsText?, itemsText?, List.mapM_cons]
  cases item.text? i with
  | none => rfl
  | some t => cases list.mapM (Item.text? i) <;> rfl

/-- A run of characters is written as it is. -/
theorem itemsText?_runItem (c : Char) (run : Text) (list : List Item) :
    itemsText? i (runItem c run :: list) = (itemsText? i list).map (c :: run ++ ·) := by
  rw [itemsText?_cons, runItem]
  split <;> rfl

/-- A pattern writes its first piece and then the rest. -/
theorem formatDate?_piece (piece : Piece) (t : Text) :
    formatDate? (piece.text ++ t) i = (formatDate? t i).map (piece.shown i ++ ·) := by
  change itemsText? i (items (piece.text ++ t)) = (itemsText? i (items t)).map (piece.shown i ++ ·)
  cases piece with
  | number field =>
    rw [Piece.text, List.cons_append, List.cons_append, List.nil_append, items_letter,
      itemsText?_cons]
    rfl
  | char c =>
    rw [Piece.text, Piece.shown]
    split
    case isTrue hc =>
      subst hc
      rw [List.cons_append, List.cons_append, List.nil_append, items_percent, itemsText?_runItem]
    case isFalse hc =>
      rw [List.cons_append, List.nil_append]
      rcases items_char hc t with hitems | ⟨d, run, rest, hd, ht, hitems⟩
      · rw [hitems, itemsText?_runItem]
      · rw [hitems, ht, itemsText?_runItem, itemsText?_runItem, Option.map_map]
        rfl

/-- A pattern that begins with pieces writes them one after the other. -/
theorem formatDate?_pieces (pieces : List Piece) (t : Text) :
    formatDate? (patternText pieces ++ t) i =
      (formatDate? t i).map (pieces.flatMap (Piece.shown i) ++ ·) := by
  induction pieces with
  | nil => simp [patternText]
  | cons piece pieces ih =>
    rw [patternText_cons_append, formatDate?_piece, ih, Option.map_map]
    simp [Function.comp_def]

/-- A pattern of pieces writes all of them. -/
theorem formatDate?_patternText (pieces : List Piece) :
    formatDate? (patternText pieces) i = some (pieces.flatMap (Piece.shown i)) := by
  have hnil : formatDate? [] i = some [] := by
    rw [formatDate?, items_nil]
    rfl
  have hformat := formatDate?_pieces (i := i) pieces []
  rwa [List.append_nil, hnil, Option.map_some, List.append_nil] at hformat

end Rendering

/-- Year, month and day with hyphens between them. -/
def datePieces : List Piece :=
  [.number .year, .char '-', .number .month, .char '-', .number .day]

/-- Hour, minute and second with colons between them. -/
def clockPieces : List Piece :=
  [.number .hour, .char ':', .number .minute, .char ':', .number .second]

/-- Two places filled with zeros are two digits. -/
theorem twoPlaces_zero {n : Nat} (h : n < 100) : twoPlaces .zero n = ofNatPadded 2 n := by
  have hall : ∀ n < 100, twoPlaces .zero n = ofNatPadded 2 n := by decide
  exact hall n h

/-- A year filled with zeros is the year of the internet format. -/
theorem paddedYear_zero (y : Int) : paddedYear .zero y = yearText y := by
  have hmissing : ∀ k, 4 + 1 - (1 + k) = 4 - k := by omega
  by_cases hneg : y < 0
  · have hout : ¬(0 ≤ y ∧ y ≤ 9999) := by omega
    simp [paddedYear, paddedNumber, yearText, ofNatPadded, hneg, hout, hmissing]
  · by_cases hlarge : 9999 < y
    · have hout : ¬(0 ≤ y ∧ y ≤ 9999) := by omega
      simp [paddedYear, paddedNumber, yearText, ofNatPadded, hneg, hlarge, hout, hmissing]
    · have hin : 0 ≤ y ∧ y ≤ 9999 := by omega
      simp [paddedYear, paddedNumber, yearText, ofNatPadded, hneg, hlarge, hin]

/-- Hour, minute and the second that a clock shows. -/
def clockText (t : TimeOfDay) : Text :=
  ofNatPadded 2 t.hour ++ ':' :: ofNatPadded 2 t.minute ++ ':' :: ofNatPadded 2 t.shownSecond

/-- Written numbers hold no blanks. -/
theorem isBlank_of_mem_ofNatPadded {width n : Nat} {c : Char} (h : c ∈ ofNatPadded width n) :
    isBlank c = false := isBlank_of_isDigit (isDigit_of_mem_ofNatPadded h)

/-- A written year has no blanks around it. -/
theorem isTrimmed_yearText (y : Int) : IsTrimmed (yearText y) := by
  refine isTrimmed_of_forall fun c hc => ?_
  rw [yearText] at hc
  split at hc
  case isTrue => exact isBlank_of_mem_ofNatPadded hc
  case isFalse =>
    rcases List.mem_cons.mp hc with rfl | hc
    · split <;> rfl
    · exact isBlank_of_mem_ofNatPadded hc

/-- A written year is not empty. -/
theorem yearText_ne_nil (y : Int) : yearText y ≠ [] := by
  rw [yearText]
  split
  · exact ofNatPadded_ne_nil _ _
  · exact List.cons_ne_nil _ _

/-- A written number has no blanks around it. -/
theorem isTrimmed_ofNatPadded (width n : Nat) : IsTrimmed (ofNatPadded width n) :=
  isTrimmed_of_forall fun _ => isBlank_of_mem_ofNatPadded

/-- A written date has no blanks around it. -/
theorem isTrimmed_dateText (d : Date) : IsTrimmed d.text := by
  have htext : d.text =
      yearText d.year ++ '-' :: (ofNatPadded 2 d.month ++ ['-']) ++ ofNatPadded 2 d.day := by
    simp [Date.text]
  rw [htext]
  exact (isTrimmed_yearText d.year).append (yearText_ne_nil d.year)
    (isTrimmed_ofNatPadded 2 d.day) (ofNatPadded_ne_nil 2 d.day)

/-- A written time of day has no blanks around it. -/
theorem isTrimmed_clockText (t : TimeOfDay) : IsTrimmed (clockText t) := by
  have htext : clockText t = ofNatPadded 2 t.hour ++ ':' :: (ofNatPadded 2 t.minute ++ [':']) ++
      ofNatPadded 2 t.shownSecond := by
    simp [clockText]
  rw [htext]
  exact (isTrimmed_ofNatPadded 2 t.hour).append (ofNatPadded_ne_nil 2 t.hour)
    (isTrimmed_ofNatPadded 2 t.shownSecond) (ofNatPadded_ne_nil 2 t.shownSecond)

/-- A written date is not empty. -/
theorem dateText_ne_nil (d : Date) : d.text ≠ [] := by
  rw [Date.text]
  exact List.append_ne_nil_of_right_ne_nil _ (List.cons_ne_nil _ _)

/-- A written time of day is not empty. -/
theorem clockText_ne_nil (t : TimeOfDay) : clockText t ≠ [] := by
  rw [clockText]
  exact List.append_ne_nil_of_right_ne_nil _ (List.cons_ne_nil _ _)

/-- The pieces of a date write it as in the internet format. -/
theorem shown_datePieces (i : Instant) : datePieces.flatMap (Piece.shown i) = i.date.text := by
  have hmonth := i.date.month_bounds
  have hday := i.date.day_le
  simp [datePieces, Piece.shown, CivilField.number, numberText, paddedYear_zero,
    twoPlaces_zero (show i.date.month < 100 by omega),
    twoPlaces_zero (show i.date.day < 100 by omega), Date.text]

/-- The pieces of a time of day write it as in the internet format. -/
theorem shown_clockPieces (i : Instant) :
    clockPieces.flatMap (Piece.shown i) = clockText i.time := by
  have hhour := i.time.hour_lt
  have hminute := i.time.minute_lt
  have hsecond := i.time.shownSecond_le
  simp [clockPieces, Piece.shown, CivilField.number, numberText,
    twoPlaces_zero (show i.time.hour < 100 by omega),
    twoPlaces_zero (show i.time.minute < 100 by omega),
    twoPlaces_zero (show i.time.shownSecond < 100 by omega), clockText]

/-- The numbers of a date, and those that were found besides. -/
def Found.withDate (found : Found) (d : Date) : Found :=
  Function.update (Function.update (Function.update found .day (some (d.day : Int)))
    .month (some (d.month : Int))) .year (some d.year)

/-- The numbers of a time of day, and those that were found besides. -/
def Found.withClock (found : Found) (t : TimeOfDay) : Found :=
  Function.update (Function.update (Function.update found .second (some (t.shownSecond : Int)))
    .minute (some (t.minute : Int))) .hour (some (t.hour : Int))

/-- The numbers of a date are admitted by their fields. -/
theorem Found.IsAdmitted.withDate {found : Found} (h : found.IsAdmitted) (d : Date) :
    (found.withDate d).IsAdmitted := by
  have hmonth := d.month_bounds
  have hday := d.day_bounds
  have hlast := d.day_le
  have hyear := d.year_bounds
  simp only [firstYear, lastYear] at hyear
  refine ((h.update ?_).update ?_).update ?_ <;>
    simp only [CivilField.Admits, CivilField.least, CivilField.greatest] <;> omega

/-- The numbers that a clock shows are admitted by their fields. -/
theorem Found.IsAdmitted.withClock {found : Found} (h : found.IsAdmitted) (t : TimeOfDay) :
    (found.withClock t).IsAdmitted := by
  have hhour := t.hour_lt
  have hminute := t.minute_lt
  have hsecond := t.shownSecond_le
  refine ((h.update ?_).update ?_).update ?_ <;>
    simp only [CivilField.Admits, CivilField.least, CivilField.greatest] <;> omega

section Matching

variable {pieces : List Piece} {field : CivilField} {t rest : Text} {found : Found}

/-- Two digits match a number of two places. -/
theorem Matches.twoDigits {n : Nat} (hwidth : numberWidth field.number = some 2) (hn : n < 100)
    (tail : Matches pieces t rest found) :
    Matches (.number field :: pieces) (ofNatPadded 2 n ++ t) rest
      (Function.update found field (some (n : Int))) := by
  have hlength : (ofNatPadded 2 n).length = 2 := length_ofNatPadded (by decide) hn
  have hmatches : Matches (.number field :: pieces) (ofNatPadded 2 n ++ t) rest _ :=
    tail.digits (ofNatPadded 2 n) (by rw [hwidth, hlength]) (ofNatPadded_ne_nil 2 n) fun _ =>
      isDigit_of_mem_ofNatPadded
  rwa [ofDigits_ofNatPadded] at hmatches

/-- A written year is read as far as it goes if no digit follows. -/
theorem isNumeral_yearText (y : Int) (ht : ∀ c ∈ t.head?, c.isDigit = false) :
    IsNumeral .year t (yearText y) y := by
  have hdigits : ∀ c ∈ ofNatPadded 4 y.natAbs, c.isDigit = true := fun _ =>
    isDigit_of_mem_ofNatPadded
  have hvalue := ofDigits_ofNatPadded 4 y.natAbs
  have hrun : IsRun none (ofNatPadded 4 y.natAbs) t :=
    ⟨ofNatPadded_ne_nil 4 _, hdigits, nofun, .inr ht⟩
  rw [yearText]
  split
  case isTrue hin =>
    have hlength : (ofNatPadded 4 y.natAbs).length = 4 :=
      length_ofNatPadded (by decide) (by omega)
    have hfour : IsRun (some 4) (ofNatPadded 4 y.natAbs) t := by
      refine ⟨ofNatPadded_ne_nil 4 _, hdigits, fun n hn => ?_, .inl (congrArg some hlength.symm)⟩
      cases hn
      exact hlength.le
    have hnumeral : IsNumeral .year t (ofNatPadded 4 y.natAbs) _ := .plain hfour
    rwa [hvalue, Int.natAbs_of_nonneg hin.1] at hnumeral
  case isFalse hout =>
    split
    case isTrue hneg =>
      have hnumeral : IsNumeral .year t ('-' :: ofNatPadded 4 y.natAbs) _ := .minus rfl hrun
      rwa [hvalue, Int.ofNat_natAbs_of_nonpos hneg.le, Int.neg_neg] at hnumeral
    case isFalse hpos =>
      have hnumeral : IsNumeral .year t ('+' :: ofNatPadded 4 y.natAbs) _ := .plus rfl hrun
      rwa [hvalue, Int.natAbs_of_nonneg (Int.not_lt.mp hpos)] at hnumeral

/-- A written date matches the pieces of a date. -/
theorem matches_date (d : Date) (tail : Matches pieces t rest found) :
    Matches (datePieces ++ pieces) (d.text ++ t) rest (found.withDate d) := by
  have hmonth := d.month_bounds
  have hday := d.day_le
  have htext : d.text ++ t =
      yearText d.year ++ '-' :: (ofNatPadded 2 d.month ++ '-' :: (ofNatPadded 2 d.day ++ t)) := by
    simp [Date.text]
  have hyear := isNumeral_yearText (t := '-' :: (ofNatPadded 2 d.month ++ '-' ::
    (ofNatPadded 2 d.day ++ t))) d.year (by rintro c ⟨⟩; rfl)
  rw [htext]
  exact .number (rfl : isAllBlank [] = true) hyear (.char rfl (.twoDigits rfl (by omega)
    (.char rfl (.twoDigits rfl (by omega) tail))))

/-- A written time of day matches the pieces of a time. -/
theorem matches_clock (u : TimeOfDay) (tail : Matches pieces t rest found) :
    Matches (clockPieces ++ pieces) (clockText u ++ t) rest (found.withClock u) := by
  have hhour := u.hour_lt
  have hminute := u.minute_lt
  have hsecond := u.shownSecond_le
  have htext : clockText u ++ t = ofNatPadded 2 u.hour ++ ':' :: (ofNatPadded 2 u.minute ++ ':' ::
      (ofNatPadded 2 u.shownSecond ++ t)) := by
    simp [clockText]
  rw [htext]
  exact .twoDigits rfl (by omega) (.char rfl (.twoDigits rfl (by omega) (.char rfl
    (.twoDigits rfl (by omega) tail))))

end Matching

end DataPipeline.DatePattern
