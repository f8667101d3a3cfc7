import DataPipeline.DatePattern.Parsing
import DataPipeline.Proofs.Calendar.Clock
import DataPipeline.Proofs.DatePattern.PatternMatch

/-!
# Instants of what was found

Year, month and day together are a date if there is such a date. Hour and
minute together are a time of day, with the second and the nanoseconds if there
are any; with only one of them there is none. Fields without an offset give the
date at that time, and a date without a time gives the start of the day.
-/

namespace DataPipeline.DatePattern

open Calendar Text

/-- The fields that hold what was found, nanoseconds and an offset. -/
def Fields.ofClock (found : Found) (nano : Option Nat) (offset : Option Int) : Fields :=
  { Fields.ofFound found with nanosecond := nano, offset := offset }

section Clock

variable {found : Found} {nano : Option Nat} {offset : Option Int}

theorem ofClock_none (found : Found) : Fields.ofClock found none none = .ofFound found := rfl

/-- A date is found from year, month and day, and no other field speaks against
it. -/
theorem date_ofClock {y m d : Int} (hyear : found .year = some y) (hmonth : found .month = some m)
    (hday : found .day = some d) :
    (Fields.ofClock found nano offset).date =
      (Date.ofCivil? y m.toNat d.toNat).elim (.error .outOfRange) .ok := by
  have hweek : ∀ x, (Fields.ofClock found nano offset).fitsIsoWeek x = true := by
    intro x
    simp [Fields.fitsIsoWeek, Fields.ofClock, Fields.ofFound, agrees, fitsYearParts]
  have hordinal : ∀ x, (Fields.ofClock found nano offset).fitsOrdinal x = true := by
    intro x
    simp [Fields.fitsOrdinal, Fields.ofClock, Fields.ofFound, agrees]
  have hquarter : ∀ x : Date, agrees (Fields.ofClock found nano offset).quarter x.quarter = true :=
    fun x => decide_eq_true rfl
  have hdate : (Fields.ofClock found nano offset).date =
      Fields.verified (Date.ofCivil? y m.toNat d.toNat) fun x =>
        (Fields.ofClock found nano offset).fitsIsoWeek x &&
          (Fields.ofClock found nano offset).fitsOrdinal x &&
          agrees (Fields.ofClock found nano offset).quarter x.quarter := by
    rw [Fields.date]
    simp only [Fields.ofClock, Fields.ofFound, hyear, hmonth, hday]
    rfl
  rw [hdate]
  cases Date.ofCivil? y m.toNat d.toNat with
  | none => rfl
  | some x =>
    rw [Fields.verified, hweek, hordinal, hquarter]
    rfl

/-- Hour and minute give a time of day, with the second and the nanoseconds if
they were found. -/
theorem time_ofClock {h m : Int} (hhour : found .hour = some h) (hminute : found .minute = some m)
    (hh : h ≤ 23) (hsecond : nano = none ∨ (found .second).isSome = true) :
    (Fields.ofClock found nano offset).time =
      (TimeOfDay.ofShown? h.toNat m.toNat ((found .second).getD 0).toNat (nano.getD 0)).elim
        (.error .outOfRange) .ok := by
  have hwhole : (if decide (12 ≤ h.toNat) = true then h.toNat % 12 + 12 else h.toNat % 12) =
      h.toNat := by
    simp only [decide_eq_true_eq]
    split <;> omega
  rw [Fields.time]
  simp only [Fields.ofClock, Fields.ofFound, hhour, hminute, Option.map_some, hwhole]
  cases hs : found .second with
  | none =>
    have hnone : nano = none := hsecond.resolve_right (by rw [hs]; exact Bool.false_ne_true)
    rw [hnone, if_neg fun hboth => Bool.false_ne_true hboth.2]
    simp only [Option.map_none, Option.getD_none, Int.toNat_zero, Nat.zero_add]
    rfl
  | some s =>
    rw [if_neg fun hboth => Bool.false_ne_true hboth.1]
    simp only [Option.map_some, Option.getD_some, TimeOfDay.ofShown?]
    generalize s.toNat = shown
    by_cases hleap : shown = 60
    · rw [hleap]
      rfl
    · rw [if_neg hleap]
      split
      case h_1 heq => exact absurd (Option.some.inj heq) hleap
      case h_2 heq => rw [←Option.some.inj heq, Nat.zero_add]
      case h_3 heq => cases heq

/-- Without hour or minute there is no time of day. -/
theorem time_ofClock_of_none (h : found .hour = none ∨ found .minute = none) :
    (Fields.ofClock found nano offset).time = .error .notEnough := by
  rw [Fields.time]
  rcases h with h | h
  · simp only [Fields.ofClock, Fields.ofFound, h]
    rfl
  · simp only [Fields.ofClock, Fields.ofFound, h]
    cases found .hour <;> rfl

end Clock

theorem ofCivil?_eq_some_iff {y : Int} {m d : Nat} {x : Date} :
    Date.ofCivil? y m d = some x ↔ x.year = y ∧ x.month = m ∧ x.day = d := by
  constructor
  · intro h
    rw [Date.ofCivil?] at h
    split at h
    · cases h
      exact ⟨rfl, rfl, rfl⟩
    · cases h
  · rintro ⟨rfl, rfl, rfl⟩
    exact Date.ofCivil?_self x

/-- A text gives an instant exactly if it gives fields that do. -/
theorem parseDate_eq_ok_iff {t pattern : Text} {i : Instant} :
    parseDate t pattern = .ok i ↔
      ∃ f, readFields (items pattern) t = .ok f ∧ f.instant = .ok i := by
  rw [←Except.bind_eq_ok_iff, parseDate]
  cases readFields (items pattern) t >>= Fields.instant <;> simp

theorem elim_eq_ok_iff {α : Type} {e : DateError} {outcome : Option α} {a : α} :
    outcome.elim (.error e) .ok = (.ok a : Except DateError α) ↔ outcome = some a := by
  cases outcome <;> simp

section Instants

variable {found : Found} {i : Instant}

/-- Without an offset the date decides, and the time if there is one. -/
theorem instant_ofFound_eq_ok_iff :
    (Fields.ofFound found).instant = .ok i ↔
      (Fields.ofFound found).date = .ok i.date ∧
        ((Fields.ofFound found).time = .ok i.time ∨
          (∃ e, (Fields.ofFound found).time = .error e) ∧ i.time = .midnight) := by
  have hzoned : (Fields.ofFound found).zonedInstant = .error .notEnough := rfl
  have hplain : (Fields.ofFound found).plainInstant =
      (Fields.ofFound found).date >>= fun d =>
        (Fields.ofFound found).time >>= fun t => .ok ⟨d, t⟩ := by
    have hnone : (Fields.ofFound found).timestamp = none := rfl
    rw [Fields.plainInstant, Fields.dateAndTime, hnone]
    cases (Fields.ofFound found).date <;> cases (Fields.ofFound found).time <;> rfl
  have hmidnight : (Fields.ofFound found).midnight =
      (Fields.ofFound found).date >>= fun d => .ok ⟨d, .midnight⟩ := rfl
  rw [Fields.instant, hzoned, hplain, hmidnight]
  obtain ⟨date, time⟩ := i
  cases (Fields.ofFound found).date with
  | error e => simp [bind, Except.bind]
  | ok d =>
    cases (Fields.ofFound found).time with
    | error e => simp [bind, Except.bind, eq_comm]
    | ok t => simp [bind, Except.bind]

/-- The numbers of a date that its fields admit give a date exactly if they are
those of the date. -/
theorem date_eq_ok_iff (hadmitted : found.IsAdmitted) (hyear : (found .year).isSome = true)
    (hmonth : (found .month).isSome = true) (hday : (found .day).isSome = true) {x : Date} :
    (Fields.ofFound found).date = .ok x ↔
      found .year = some x.year ∧ found .month = some (x.month : Int) ∧
        found .day = some (x.day : Int) := by
  obtain ⟨y, hy⟩ := Option.isSome_iff_exists.mp hyear
  obtain ⟨m, hm⟩ := Option.isSome_iff_exists.mp hmonth
  obtain ⟨d, hd⟩ := Option.isSome_iff_exists.mp hday
  have hm_pos : 1 ≤ m := (hadmitted .month m hm).1
  have hd_pos : 1 ≤ d := (hadmitted .day d hd).1
  rw [←ofClock_none, date_ofClock hy hm hd, elim_eq_ok_iff, ofCivil?_eq_some_iff, hy, hm, hd]
  simp only [Option.some.injEq]
  omega

/-- The numbers of a time that its fields admit give a time of day exactly if a
clock shows them at that time and a leap second ends its minute. -/
theorem time_eq_ok_iff (hadmitted : found.IsAdmitted) (hhour : (found .hour).isSome = true)
    (hminute : (found .minute).isSome = true) {t : TimeOfDay} :
    (Fields.ofFound found).time = .ok t ↔
      (found .hour = some (t.hour : Int) ∧ found .minute = some (t.minute : Int) ∧
        (found .second).getD 0 = t.shownSecond ∧ t.shownNano = 0) ∧ t.IsCivil := by
  obtain ⟨h, hh⟩ := Option.isSome_iff_exists.mp hhour
  obtain ⟨m, hm⟩ := Option.isSome_iff_exists.mp hminute
  obtain ⟨hh_nonneg, hh_le⟩ : 0 ≤ h ∧ h ≤ 23 := hadmitted .hour h hh
  have hm_nonneg : 0 ≤ m := (hadmitted .minute m hm).1
  have hs_nonneg : 0 ≤ (found .second).getD 0 := by
    cases hs : found .second with
    | none => exact Int.le_refl 0
    | some s => exact (hadmitted .second s hs).1
  rw [←ofClock_none, time_ofClock hh hm hh_le (.inl rfl), elim_eq_ok_iff,
    TimeOfDay.ofShown?_eq_some_iff (by decide), hh, hm]
  refine and_congr_left fun _ => ?_
  simp only [Option.some.injEq, Option.getD_none]
  omega

/-- Numbers that their fields admit give a time of day if hour and minute are
among them. -/
theorem exists_time (hadmitted : found.IsAdmitted) (hhour : (found .hour).isSome = true)
    (hminute : (found .minute).isSome = true) : ∃ t, (Fields.ofFound found).time = .ok t := by
  obtain ⟨h, hh⟩ := Option.isSome_iff_exists.mp hhour
  obtain ⟨m, hm⟩ := Option.isSome_iff_exists.mp hminute
  obtain ⟨hh_nonneg, hh_le⟩ : 0 ≤ h ∧ h ≤ 23 := hadmitted .hour h hh
  obtain ⟨hm_nonneg, hm_le⟩ : 0 ≤ m ∧ m ≤ 59 := hadmitted .minute m hm
  have hs_le : (found .second).getD 0 ≤ 60 := by
    cases hs : found .second with
    | none => exact Int.le_of_lt (by decide)
    | some s => exact (hadmitted .second s hs).2
  obtain ⟨t, ht⟩ := Option.isSome_iff_exists.mp (TimeOfDay.isSome_ofShown?
    (by omega : h.toNat < 24) (by omega : m.toNat < 60)
    (by omega : ((found .second).getD 0).toNat ≤ 60) (by decide : 0 < 1000000000))
  refine ⟨t, ?_⟩
  rw [←ofClock_none, time_ofClock hh hm hh_le (.inl rfl), Option.getD_none, ht]
  rfl

/-- The instant that numbers give that their fields admit: their date, at their
time if hour and minute are among them and else at the start of the day. -/
theorem instant_of_isAdmitted (hadmitted : found.IsAdmitted)
    (hyear : (found .year).isSome = true) (hmonth : (found .month).isSome = true)
    (hday : (found .day).isSome = true) :
    (Fields.ofFound found).instant = .ok i ↔
      (found .year = some i.date.year ∧ found .month = some (i.date.month : Int) ∧
        found .day = some (i.date.day : Int)) ∧
        if (found .hour).isSome = true ∧ (found .minute).isSome = true then
          (found .hour = some (i.time.hour : Int) ∧ found .minute = some (i.time.minute : Int) ∧
            (found .second).getD 0 = i.time.shownSecond ∧ i.time.shownNano = 0) ∧ i.time.IsCivil
        else i.time = .midnight := by
  rw [instant_ofFound_eq_ok_iff, date_eq_ok_iff hadmitted hyear hmonth hday]
  refine and_congr_right fun _ => ?_
  split
  case isTrue hboth =>
    obtain ⟨t, ht⟩ := exists_time hadmitted hboth.1 hboth.2
    rw [←time_eq_ok_iff hadmitted hboth.1 hboth.2]
    refine or_iff_left fun ⟨⟨e, he⟩, _⟩ => ?_
    cases ht.symm.trans he
  case isFalse hmissing =>
    have hnone : found .hour = none ∨ found .minute = none := by
      rwa [not_and_or, Option.not_isSome_iff_eq_none, Option.not_isSome_iff_eq_none] at hmissing
    have htime : (Fields.ofFound found).time = .error .notEnough := time_ofClock_of_none hnone
    rw [htime]
    simp

end Instants

end DataPipeline.DatePattern
