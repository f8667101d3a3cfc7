import DataPipeline.Calendar.Instant

/-!
# What a clock shows

A clock shows the hour, the minute, the second, which is 60 during the leap
second of a minute, and the nanoseconds of that second. A leap second behind
another second looks like the second that comes next, and apart from this a
time of day is determined by what its clock shows. Cutting off the smaller parts
of a second leaves a leap second a leap second.
-/

namespace DataPipeline.Calendar

namespace TimeOfDay

/-- The time of day at which a clock shows the given parts, if there is one. -/
def ofShown? (hour minute second nano : Nat) : Option TimeOfDay :=
  if second = 60 then ofParts? hour minute 59 (1000000000 + nano)
  else ofParts? hour minute second nano

/-- Parts give the time of day that has them, if a leap second ends its minute. -/
theorem ofParts?_eq_some_iff {hour minute second nano : Nat} {t : TimeOfDay} :
    ofParts? hour minute second nano = some t ↔
      (t.hour = hour ∧ t.minute = minute ∧ t.second = second ∧ t.nano = nano) ∧ t.IsCivil := by
  constructor
  · intro h
    rw [ofParts?] at h
    split at h
    case isTrue hparts =>
      cases h
      exact ⟨⟨rfl, rfl, rfl, rfl⟩, hparts.2.2.2.2⟩
    case isFalse => cases h
  · rintro ⟨⟨rfl, rfl, rfl, rfl⟩, hcivil⟩
    exact ofParts?_self hcivil

/-- A time of day whose leap second ends its minute is the one at which a clock
shows its parts. -/
theorem ofShown?_eq_some_iff {hour minute second nano : Nat} {t : TimeOfDay}
    (hnano : nano < 1000000000) :
    ofShown? hour minute second nano = some t ↔
      (t.hour = hour ∧ t.minute = minute ∧ t.shownSecond = second ∧ t.shownNano = nano) ∧
        t.IsCivil := by
  have hsecond := t.second_lt
  have hlt := t.nano_lt
  rw [ofShown?, shownSecond, shownNano, IsCivil]
  split
  · rw [ofParts?_eq_some_iff, IsCivil]
    omega
  · rw [ofParts?_eq_some_iff, IsCivil]
    omega

theorem ofShown?_self {t : TimeOfDay} (h : t.IsCivil) :
    ofShown? t.hour t.minute t.shownSecond t.shownNano = some t :=
  (ofShown?_eq_some_iff (Nat.mod_lt _ (by decide))).mpr ⟨⟨rfl, rfl, rfl, rfl⟩, h⟩

/-- A time of day stands at its own second of the day. -/
theorem moveTo_secondOfDay (t : TimeOfDay) : t.moveTo t.secondOfDay = t := by
  rcases t with ⟨hour, minute, second, nano, hhour, hminute, hsecond, hnano⟩
  rw [secondOfDay, moveTo, mk.injEq]
  refine ⟨?_, ?_, ?_, rfl⟩
  all_goals
    dsimp only
    omega

/-- The time of day for which the display of a clock is taken. A leap second that
does not end its minute is taken for the second that comes next. -/
def asShown (t : TimeOfDay) : TimeOfDay :=
  if h : 1000000000 ≤ t.nano ∧ t.second ≠ 59 then
    { t with
      second := t.second + 1
      nano := t.nano - 1000000000
      second_lt := by
        have hsecond := t.second_lt
        omega
      nano_lt := Nat.lt_of_le_of_lt (Nat.sub_le _ _) t.nano_lt }
  else t

/-- Only a leap second that does not end its minute is taken for another second. -/
theorem asShown_eq_self_iff {t : TimeOfDay} : t.asShown = t ↔ t.IsCivil := by
  rw [asShown, IsCivil]
  split
  case isTrue h =>
    refine iff_of_false (fun heq => ?_) fun hcivil => h.2 (hcivil h.1)
    have hsecond : t.second + 1 = t.second := congrArg TimeOfDay.second heq
    omega
  case isFalse h =>
    exact iff_of_true rfl fun hleap => Decidable.not_not.mp fun hno => h ⟨hleap, hno⟩

theorem isCivil_asShown (t : TimeOfDay) : t.asShown.IsCivil := by
  have hlt := t.nano_lt
  rw [asShown]
  split
  case isTrue h =>
    change 1000000000 ≤ t.nano - 1000000000 → t.second + 1 = 59
    omega
  case isFalse h => exact fun hleap => Decidable.not_not.mp fun hno => h ⟨hleap, hno⟩

/-- What a clock is taken for shows the same. -/
theorem shown_asShown (t : TimeOfDay) :
    t.asShown.hour = t.hour ∧ t.asShown.minute = t.minute ∧
      t.asShown.shownSecond = t.shownSecond ∧ t.asShown.shownNano = t.shownNano := by
  rw [asShown]
  split
  case isTrue h =>
    refine ⟨rfl, rfl, ?_, ?_⟩
    · change t.second + 1 + (t.nano - 1000000000) / 1000000000 = t.second + t.nano / 1000000000
      omega
    · change (t.nano - 1000000000) % 1000000000 = t.nano % 1000000000
      omega
  case isFalse => exact ⟨rfl, rfl, rfl, rfl⟩

theorem shownSecond_le (t : TimeOfDay) : t.shownSecond ≤ 60 := by
  have hsecond := t.second_lt
  have hlt := t.nano_lt
  rw [shownSecond]
  omega

/-- A clock can show every second of the day and a leap second in every minute. -/
theorem isSome_ofShown? {hour minute second nano : Nat} (hhour : hour < 24) (hminute : minute < 60)
    (hsecond : second ≤ 60) (hnano : nano < 1000000000) :
    (ofShown? hour minute second nano).isSome = true := by
  rw [ofShown?]
  split
  · rw [ofParts?, dif_pos (by omega)]
    rfl
  · rw [ofParts?, dif_pos (by omega)]
    rfl

/-- The time of day with its nanoseconds cut down to a multiple of a unit. -/
def cut (unit : Nat) (t : TimeOfDay) : TimeOfDay where
  hour := t.hour
  minute := t.minute
  second := t.second
  nano := t.nano / unit * unit
  hour_lt := t.hour_lt
  minute_lt := t.minute_lt
  second_lt := t.second_lt
  nano_lt := Nat.lt_of_le_of_lt (Nat.div_mul_le_self t.nano unit) t.nano_lt

/-- Cutting parts of a second off does not move a leap second. -/
theorem IsCivil.cut {t : TimeOfDay} (h : t.IsCivil) (unit : Nat) : (t.cut unit).IsCivil :=
  fun hleap => h (Nat.le_trans hleap (Nat.div_mul_le_self t.nano unit))

section Cut

variable {unit k : Nat}

/-- A unit of which a second consists cuts nothing off the second. -/
theorem shownSecond_cut (hunit : unit * k = 1000000000) (t : TimeOfDay) :
    (t.cut unit).shownSecond = t.shownSecond := by
  have hpos : 0 < unit := Nat.pos_of_ne_zero fun h => by
    rw [h, Nat.zero_mul] at hunit
    cases hunit
  change t.second + t.nano / unit * unit / 1000000000 = t.second + t.nano / 1000000000
  rw [←hunit, Nat.mul_comm (t.nano / unit), Nat.mul_div_mul_left _ _ hpos, Nat.div_div_eq_div_mul]

/-- A unit of which a second consists cuts the nanoseconds that a clock shows. -/
theorem shownNano_cut (hunit : unit * k = 1000000000) (t : TimeOfDay) :
    (t.cut unit).shownNano = t.shownNano / unit * unit := by
  change t.nano / unit * unit % 1000000000 = t.nano % 1000000000 / unit * unit
  rw [←hunit, Nat.mod_mul_right_div_self, Nat.mul_comm (t.nano / unit), Nat.mul_mod_mul_left,
    Nat.mul_comm]

end Cut

end TimeOfDay

namespace Instant

/-- The instant with its nanoseconds cut down to a multiple of a unit. -/
def cut (unit : Nat) (i : Instant) : Instant := ⟨i.date, i.time.cut unit⟩

/-- The instant for which the display of a clock is taken. -/
def asShown (i : Instant) : Instant := ⟨i.date, i.time.asShown⟩

theorem asShown_eq_self_iff {i : Instant} : i.asShown = i ↔ i.time.IsCivil := by
  rw [←TimeOfDay.asShown_eq_self_iff]
  exact ⟨congrArg Instant.time, congrArg (Instant.mk i.date)⟩

/-- A clock of universal time shows the instant itself. -/
theorem ofLocal?_zero (i : Instant) : ofLocal? i.date i.time 0 = some i := by
  have hhour := i.time.hour_lt
  have hminute := i.time.minute_lt
  have hsecond := i.time.second_lt
  have hday : i.time.secondOfDay < 86400 := by
    rw [TimeOfDay.secondOfDay]
    omega
  have hdate : i.date.addDays? (((i.time.secondOfDay : Int) - 0) / 86400) = some i.date :=
    if_pos (by omega)
  have htime : i.time.moveTo (((i.time.secondOfDay : Int) - 0) % 86400).toNat = i.time := by
    rw [show (((i.time.secondOfDay : Int) - 0) % 86400).toNat = i.time.secondOfDay by omega,
      TimeOfDay.moveTo_secondOfDay]
  rw [ofLocal?, hdate, htime]
  rfl

end Instant

end DataPipeline.Calendar
