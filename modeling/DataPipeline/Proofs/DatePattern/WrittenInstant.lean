import DataPipeline.Proofs.DatePattern.FoundInstant
import DataPipeline.Proofs.DatePattern.RenderedText

/-!
# Written instants are read back

What a pattern writes of an instant it also reads: a date alone gives the start
of the day, date and clock the whole second with a leap second kept apart, and
date, clock, fraction and offset the instant itself, each as the clock shows it.
The fraction is written in groups of three digits and read as the leading digits
of nine.
-/

namespace DataPipeline.DatePattern

open Calendar Numeric Text

/-- Date and clock with one character between them. -/
def momentPieces (separator : Char) : List Piece := datePieces ++ .char separator :: clockPieces

/-- Fraction and offset. -/
def fractionAndOffset : Text := "%.f%z".toList

theorem items_fractionAndOffset : items fractionAndOffset = [.fraction, .offset .plain] := by
  have hfraction : ∀ t, items ('%' :: '.' :: 'f' :: t) = .fraction :: items t := by
    intro t
    rw [items, if_pos rfl]
    rfl
  have hoffset : ∀ t, items ('%' :: 'z' :: t) = .offset .plain :: items t := by
    intro t
    rw [items, if_pos rfl]
    rfl
  exact (hfraction ['%', 'z']).trans (by rw [hoffset, items_nil])

theorem shown_momentPieces (separator : Char) (i : Instant) :
    (momentPieces separator).flatMap (Piece.shown i) =
      i.date.text ++ separator :: clockText i.time := by
  rw [momentPieces, List.flatMap_append, shown_datePieces, List.flatMap_cons, shown_clockPieces]
  rfl

/-- Fraction and offset are written as in the internet format with `+0000`. -/
theorem formatDate?_fractionAndOffset (i : Instant) :
    formatDate? fractionAndOffset i =
      some (fractionGroups i.time.shownNano ++ zeroOffset .plain) := by
  rw [formatDate?, items_fractionAndOffset]
  rfl

section Fraction

variable {found : Found} {nano : Nat}

/-- Digits of a fraction are the leading ones of nine. -/
theorem takeFraction_ofNatPadded {width m : Nat} {rest : Text} (hpos : 0 < width)
    (hle : width ≤ 9) (hm : m < 10 ^ width) (hrest : ∀ c ∈ rest.head?, c.isDigit = false) :
    takeFraction (ofNatPadded width m ++ rest) = .ok (m * 10 ^ (9 - width), rest) := by
  have hlength := length_ofNatPadded hpos hm
  have hrun : IsRun (some 9) (ofNatPadded width m) rest := by
    refine ⟨ofNatPadded_ne_nil width m, fun _ => isDigit_of_mem_ofNatPadded, fun n hn => ?_,
      .inr hrest⟩
    cases hn
    rwa [hlength]
  have hfits : fitsSigned 64 (m : Int) = true := by
    have hlarge : 10 ^ width ≤ 10 ^ 9 := Nat.pow_le_pow_right (by decide) hle
    exact fitsSigned_natCast (by omega)
  have htake : takeNumber (some 9) (ofNatPadded width m ++ rest) = .ok (m, rest) :=
    takeNumber_eq_ok_iff.mpr ⟨_, hrun, rfl, (ofDigits_ofNatPadded width m).symm, hfits⟩
  have hdrop : rest.dropWhile Char.isDigit = rest :=
    (cut_digits (List.forall_mem_nil _) hrest).2
  rw [takeFraction, htake]
  change Except.ok (m * 10 ^ (9 - ((ofNatPadded width m ++ rest).length - rest.length)),
    rest.dropWhile Char.isDigit) = _
  rw [hdrop, List.length_append, hlength, Nat.add_sub_cancel]

/-- A fraction is read in the groups in which it is written. -/
theorem takeItem_fraction (hnano : nano < 1000000000) :
    takeItem (.ofFound found, fractionGroups nano ++ zeroOffset .plain) .fraction =
      .ok (.ofClock found (if nano = 0 then none else some nano) none, zeroOffset .plain) := by
  -- However many digits are written, the ones that are missing are zeros.
  have htext : ∀ {width k}, 0 < width → width + k = 9 → nano % 10 ^ k = 0 →
      takeItem (.ofFound found, fractionText width nano ++ zeroOffset .plain) .fraction =
        .ok (.ofClock found (some nano) none, zeroOffset .plain) := by
    intro width k hpos hsum hmod
    have hk : 9 - width = k := by omega
    have hlead : nano / 10 ^ k < 10 ^ width := by
      refine Nat.div_lt_of_lt_mul ?_
      rw [←Nat.pow_add, show k + width = 9 by omega]
      exact hnano
    have htake : takeFraction (ofNatPadded width (nano / 10 ^ k) ++ zeroOffset .plain) =
        .ok (nano, zeroOffset .plain) := by
      rw [takeFraction_ofNatPadded hpos (by omega) hlead (by rintro c ⟨⟩; rfl), hk,
        Nat.div_mul_cancel (Nat.dvd_of_mod_eq_zero hmod)]
    have hput : (Fields.ofFound found).putNanosecond nano =
        .ok (.ofClock found (some nano) none) := by
      have hbounded : bounded 0 999999999 nano = .ok nano := if_pos (by omega)
      rw [Fields.putNanosecond, hbounded]
      rfl
    change (takeFraction (ofNatPadded width (nano / 10 ^ (9 - width)) ++ zeroOffset .plain) >>=
      fun taken => (Fields.ofFound found).putNanosecond taken.1 >>= fun f => pure (f, taken.2)) = _
    rw [hk, htake]
    change ((Fields.ofFound found).putNanosecond nano >>= fun f => pure (f, zeroOffset .plain)) = _
    rw [hput]
    rfl
  rw [fractionGroups]
  split_ifs with hzero hmilli hmicro
  · rfl
  · exact htext (by decide) (by decide : 3 + 6 = 9) hmilli
  · exact htext (by decide) (by decide : 6 + 3 = 9) hmicro
  · exact htext (by decide) (by decide : 9 + 0 = 9) (Nat.mod_one nano)

/-- Fraction and offset are read up to the end of the text. -/
theorem foldlM_fractionAndOffset (hnano : nano < 1000000000) :
    (items fractionAndOffset).foldlM takeAnyItem
        (.ofFound found, fractionGroups nano ++ zeroOffset .plain) =
      .ok (.ofClock found (if nano = 0 then none else some nano) (some 0), []) := by
  have hfraction :
      takeAnyItem (.ofFound found, fractionGroups nano ++ zeroOffset .plain) .fraction =
        .ok (.ofClock found (if nano = 0 then none else some nano) none, zeroOffset .plain) :=
    takeItem_fraction hnano
  rw [items_fractionAndOffset, List.foldlM_cons, hfraction]
  rfl

end Fraction

section Reading

/-- What is found in a written date gives the start of the day. -/
theorem parseDate_dateText (d : Date) :
    parseDate d.text (patternText datePieces) = .ok ⟨d, .midnight⟩ := by
  have hmatches : Matches datePieces d.text [] (Found.withDate (fun _ => none) d) := by
    simpa using matches_date d (.done [])
  have hadmitted := isAdmitted_none.withDate d
  refine parseDate_eq_ok_iff.mpr ⟨_, (readFields_pieces_eq_ok_iff (by decide)).mpr
    ⟨_, hmatches, hadmitted, rfl⟩, ?_⟩
  exact (instant_of_isAdmitted hadmitted rfl rfl rfl).mpr ⟨⟨rfl, rfl, rfl⟩, rfl⟩

/-- What is found in a written date and time of day. -/
def Found.moment (i : Instant) : Found := (Found.withClock (fun _ => none) i.time).withDate i.date

theorem isAdmitted_moment (i : Instant) : (Found.moment i).IsAdmitted :=
  (isAdmitted_none.withClock i.time).withDate i.date

/-- A written date and time of day match with any character between them. -/
theorem matches_moment (separator : Char) (i : Instant) (t : Text) :
    Matches (momentPieces separator) (i.date.text ++ separator :: (clockText i.time ++ t)) t
      (Found.moment i) := by
  have hclock : Matches clockPieces (clockText i.time ++ t) t
      (Found.withClock (fun _ => none) i.time) := by
    simpa using matches_clock i.time (.done t)
  refine matches_date i.date ?_
  cases hblank : isBlank separator with
  | false => exact .char hblank hclock
  | true =>
    refine .blank hblank ?_
    have htrim := (isTrimmed_clockText i.time).trimStart_append (u := t) (clockText_ne_nil i.time)
    rwa [trimStart, List.dropWhile_cons_of_pos hblank, ←trimStart, htrim]

theorem nodup_momentPieces (separator : Char) :
    (patternFields (momentPieces separator)).Nodup := by
  change ([.year, .month, .day, .hour, .minute, .second] : List CivilField).Nodup
  decide

/-- A date and a clock give the whole second. -/
theorem parseDate_momentText (separator : Char) (i : Instant) :
    parseDate (i.date.text ++ separator :: clockText i.time)
      (patternText (momentPieces separator)) = .ok (i.asShown.cut 1000000000) := by
  have hmatches := matches_moment separator i []
  rw [List.append_nil] at hmatches
  refine parseDate_eq_ok_iff.mpr ⟨_,
    (readFields_pieces_eq_ok_iff (nodup_momentPieces separator)).mpr
      ⟨_, hmatches, isAdmitted_moment i, rfl⟩, ?_⟩
  refine (instant_of_isAdmitted (isAdmitted_moment i) rfl rfl rfl).mpr ⟨⟨rfl, rfl, rfl⟩, ?_⟩
  rw [if_pos ⟨rfl, rfl⟩]
  obtain ⟨hhour, hminute, hsecond, -⟩ := i.time.shown_asShown
  have hunit : 1000000000 * 1 = 1000000000 := rfl
  have hwhole : i.time.asShown.shownNano / 1000000000 * 1000000000 = 0 := by
    rw [TimeOfDay.shownNano, Nat.mod_div_self, Nat.zero_mul]
  refine ⟨⟨congrArg (fun n : Nat => some (n : Int)) hhour.symm,
    congrArg (fun n : Nat => some (n : Int)) hminute.symm, ?_,
    (TimeOfDay.shownNano_cut hunit i.time.asShown).trans hwhole⟩,
    i.time.isCivil_asShown.cut 1000000000⟩
  exact congrArg Nat.cast
    (hsecond.symm.trans (TimeOfDay.shownSecond_cut hunit i.time.asShown).symm)

/-- Fields with universal time as their offset give their date and time. -/
theorem instant_ofClock_zero {found : Found} {nano : Option Nat} {i : Instant}
    (hdate : (Fields.ofClock found nano (some 0)).date = .ok i.date)
    (htime : (Fields.ofClock found nano (some 0)).time = .ok i.time) :
    (Fields.ofClock found nano (some 0)).instant = .ok i := by
  have hzoned : (Fields.ofClock found nano (some 0)).zonedInstant = .ok i := by
    have hmoment : (Fields.ofClock found nano (some 0)).dateAndTime 0 = .ok (i.date, i.time) := by
      have hnone : (Fields.ofClock found nano (some 0)).timestamp = none := rfl
      rw [Fields.dateAndTime, hdate, htime, hnone]
    change ((Fields.ofClock found nano (some 0)).dateAndTime 0 >>= fun moment =>
      (Instant.ofLocal? moment.1 moment.2 0).elim (.error .impossible) .ok) = _
    rw [hmoment]
    exact elim_eq_ok_iff.mpr (Instant.ofLocal?_zero i)
  rw [Fields.instant, hzoned]

/-- Date, clock, fraction and offset give the instant as the clock shows it. -/
theorem parseDate_instantText (separator : Char) (i : Instant) :
    parseDate (i.date.text ++ separator :: (clockText i.time ++
        (fractionGroups i.time.shownNano ++ zeroOffset .plain)))
      (patternText (momentPieces separator) ++ fractionAndOffset) = .ok i.asShown := by
  have hnano : i.time.shownNano < 1000000000 := Nat.mod_lt _ (by decide)
  have hhour : (i.time.hour : Int) ≤ 23 := by
    have hlt := i.time.hour_lt
    omega
  have hread : readFields (items (patternText (momentPieces separator) ++ fractionAndOffset))
      (i.date.text ++ separator :: (clockText i.time ++
        (fractionGroups i.time.shownNano ++ zeroOffset .plain))) =
      .ok (.ofClock (Found.moment i)
        (if i.time.shownNano = 0 then none else some i.time.shownNano) (some 0)) := by
    change ((items (patternText (momentPieces separator) ++ fractionAndOffset)).foldlM takeAnyItem
      (.ofFound fun _ => none, _) >>= fun s => if s.2 = [] then .ok s.1 else .error .tooLong) = _
    rw [(foldlM_pieces_eq_ok_iff (nodup_momentPieces separator) fun _ _ => rfl).mpr
      ⟨_, _, matches_moment separator i _, isAdmitted_moment i, by
        simpa only [Option.or_none] using foldlM_fractionAndOffset hnano⟩]
    rfl
  refine parseDate_eq_ok_iff.mpr ⟨_, hread, instant_ofClock_zero ?_ ?_⟩
  · exact (date_ofClock rfl rfl rfl).trans (elim_eq_ok_iff.mpr (Date.ofCivil?_self i.date))
  · obtain ⟨hsameHour, hsameMinute, hsameSecond, hsameNano⟩ := i.time.shown_asShown
    refine (time_ofClock rfl rfl hhour (.inr rfl)).trans (elim_eq_ok_iff.mpr ?_)
    have hgetD : (if i.time.shownNano = 0 then none else some i.time.shownNano).getD 0 =
        i.time.shownNano := by
      split
      case isTrue hzero => exact hzero.symm
      case isFalse => rfl
    rw [hgetD]
    exact (TimeOfDay.ofShown?_eq_some_iff hnano).mpr
      ⟨⟨hsameHour, hsameMinute, hsameSecond, hsameNano⟩, i.time.isCivil_asShown⟩

end Reading

end DataPipeline.DatePattern
