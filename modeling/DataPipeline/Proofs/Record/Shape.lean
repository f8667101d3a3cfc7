import DataPipeline.Record.Build
import Mathlib.Data.List.Nodup

/-!
# The shape of records

The fields of a record have nonempty and distinct names, and none of them lacks
a value. They are checked one after the other, so the error that is reported
for other fields is that of the first one that offends. A record is valid when
its fields have this shape and so have, at every depth, the fields of the
records that it holds.
-/

namespace DataPipeline

variable {σ : Type}

/-- The shape that the fields of every record have. -/
structure WellShaped (fields : List (Text × Value σ)) : Prop where
  /-- Every field has a name. -/
  named : [] ∉ fields.map Prod.fst
  /-- No two fields share their name. -/
  distinct : (fields.map Prod.fst).Nodup
  /-- Every field has a value. -/
  present : .null ∉ fields.map Prod.snd

/-- How a field can offend when fields with the given names stand before it: by
an empty name, else by a name that stands before it, else by an absent value. -/
inductive Offends (earlier : List Text) : Text × Value σ → ShapeError → Prop
  | emptyName (value : Value σ) : Offends earlier ([], value) .emptyName
  | duplicateName (name : Text) (value : Value σ) (nonempty : name ≠ [])
      (known : name ∈ earlier) : Offends earlier (name, value) (.duplicateName name)
  | nullValue (name : Text) (nonempty : name ≠ []) (fresh : name ∉ earlier) :
      Offends earlier (name, .null) (.nullValue name)

/-- Only the null value is null. -/
theorem Value.isNull_iff {v : Value σ} : v.isNull = true ↔ v = .null := by
  cases v <;> simp [Value.isNull]

/-- A value gives a record exactly if it is one. -/
theorem Value.record?_eq_some_iff {v : Value σ} {inner : Record σ} :
    v.record? = some inner ↔ v = .record inner := by
  cases v <;> simp [Value.record?]

/-- Only the set of the earlier names matters. -/
theorem Offends.congr {earlier others : List Text} {field : Text × Value σ} {e : ShapeError}
    (hnames : ∀ name, name ∈ earlier ↔ name ∈ others) (h : Offends earlier field e) :
    Offends others field e := by
  cases h with
  | emptyName value => exact .emptyName value
  | duplicateName name value nonempty known =>
    exact .duplicateName name value nonempty ((hnames name).mp known)
  | nullValue name nonempty fresh =>
    exact .nullValue name nonempty fun h => fresh ((hnames name).mpr h)

section Check

variable {seen : List Text} {fields : List (Text × Value σ)} {e : ShapeError}

/-- The first fault is that of the first field, or the first one behind it. -/
theorem firstFault_cons (seen : List Text) (name : Text) (value : Value σ)
    (fields : List (Text × Value σ)) :
    (∃ e, Offends seen (name, value) e ∧ firstFault seen ((name, value) :: fields) = some e) ∨
      name ≠ [] ∧ name ∉ seen ∧ value ≠ .null ∧
        firstFault seen ((name, value) :: fields) = firstFault (name :: seen) fields := by
  rw [firstFault]
  by_cases hempty : name = []
  · subst hempty
    exact .inl ⟨_, .emptyName value, by rw [if_pos rfl]⟩
  rw [if_neg hempty]
  by_cases hseen : name ∈ seen
  · exact .inl ⟨_, .duplicateName name value hempty hseen, by rw [if_pos hseen]⟩
  rw [if_neg hseen]
  by_cases hnull : value.isNull = true
  · have hvalue := Value.isNull_iff.mp hnull
    subst hvalue
    exact .inl ⟨_, .nullValue name hempty hseen, by rw [if_pos hnull]⟩
  · have hvalue : value ≠ .null := fun h => hnull (Value.isNull_iff.mpr h)
    exact .inr ⟨hempty, hseen, hvalue, by rw [if_neg hnull]⟩

/-- A field that offends is what the check stops at. -/
theorem firstFault_cons_of_offends {field : Text × Value σ} (h : Offends seen field e) :
    firstFault seen (field :: fields) = some e := by
  cases h with
  | emptyName value => rw [firstFault, if_pos rfl]
  | duplicateName name value nonempty known =>
    rw [firstFault, if_neg nonempty, if_pos known]
  | nullValue name nonempty fresh =>
    rw [firstFault, if_neg nonempty, if_neg fresh, if_pos (Value.isNull_iff.mpr rfl)]

/-- Fields are well shaped if the first one does not offend and the others are. -/
theorem wellShaped_cons_iff {name : Text} {value : Value σ} :
    WellShaped ((name, value) :: fields) ↔
      (name ≠ [] ∧ name ∉ fields.map Prod.fst ∧ value ≠ .null) ∧ WellShaped fields := by
  constructor
  · rintro ⟨hnamed, hdistinct, hpresent⟩
    rw [List.map_cons, List.mem_cons, not_or] at hnamed hpresent
    rw [List.map_cons, List.nodup_cons] at hdistinct
    exact ⟨⟨Ne.symm hnamed.1, hdistinct.1, Ne.symm hpresent.1⟩, hnamed.2, hdistinct.2, hpresent.2⟩
  · rintro ⟨⟨hne, hnew, hvalue⟩, hnamed, hdistinct, hpresent⟩
    refine ⟨?_, List.nodup_cons.mpr ⟨hnew, hdistinct⟩, ?_⟩
    · rw [List.map_cons, List.mem_cons, not_or]
      exact ⟨Ne.symm hne, hnamed⟩
    · rw [List.map_cons, List.mem_cons, not_or]
      exact ⟨Ne.symm hvalue, hpresent⟩

/-- The check finds nothing exactly when the fields are well shaped and have
other names than those before them. -/
theorem firstFault_eq_none_iff :
    firstFault seen fields = none ↔
      WellShaped fields ∧ ∀ name ∈ fields.map Prod.fst, name ∉ seen := by
  induction fields generalizing seen with
  | nil =>
    have hnil : WellShaped ([] : List (Text × Value σ)) := ⟨by simp, by simp, by simp⟩
    simp [firstFault, hnil]
  | cons field fields ih =>
    obtain ⟨name, value⟩ := field
    rw [wellShaped_cons_iff]
    rcases firstFault_cons seen name value fields with
      ⟨e, hoffends, he⟩ | ⟨hne, hseen, hvalue, hnext⟩
    · rw [he]
      refine iff_of_false (by simp) fun ⟨⟨⟨hne, _, hvalue⟩, _⟩, hfresh⟩ => ?_
      cases hoffends with
      | emptyName => exact hne rfl
      | duplicateName _ _ _ known => exact hfresh name List.mem_cons_self known
      | nullValue => exact hvalue rfl
    · rw [hnext, ih]
      constructor
      · rintro ⟨hshape, hfresh⟩
        have hnew : name ∉ fields.map Prod.fst := fun h => hfresh name h List.mem_cons_self
        refine ⟨⟨⟨hne, hnew, hvalue⟩, hshape⟩, fun other hother => ?_⟩
        rcases List.mem_cons.mp hother with rfl | hother
        · exact hseen
        · exact fun h => hfresh other hother (List.mem_cons_of_mem name h)
      · rintro ⟨⟨⟨-, hnew, -⟩, hshape⟩, hfresh⟩
        refine ⟨hshape, fun other hother hmem => ?_⟩
        rcases List.mem_cons.mp hmem with rfl | hmem
        · exact hnew hother
        · exact hfresh other (List.mem_cons_of_mem name hother) hmem

/-- The check goes on behind fields in which it finds nothing. -/
theorem firstFault_append {front back : List (Text × Value σ)} (h : firstFault seen front = none) :
    firstFault seen (front ++ back) = firstFault ((front.map Prod.fst).reverse ++ seen) back := by
  induction front generalizing seen with
  | nil => rfl
  | cons field front ih =>
    obtain ⟨name, value⟩ := field
    rcases firstFault_cons seen name value front with ⟨e, -, he⟩ | ⟨hne, hseen, hvalue, hnext⟩
    · rw [he] at h
      cases h
    · rw [hnext] at h
      have hnull : ¬value.isNull = true := fun hn => hvalue (Value.isNull_iff.mp hn)
      rw [List.cons_append, firstFault, if_neg hne, if_neg hseen, if_neg hnull, ih h, List.map_cons,
        List.reverse_cons, List.append_assoc]
      rfl

/-- What the check finds is the fault of a field behind fields in which it finds
nothing. -/
theorem exists_offends_of_firstFault (h : firstFault seen fields = some e) :
    ∃ front field back, fields = front ++ field :: back ∧ firstFault seen front = none ∧
      Offends (front.map Prod.fst ++ seen) field e := by
  induction fields generalizing seen with
  | nil => cases h
  | cons field fields ih =>
    obtain ⟨name, value⟩ := field
    rcases firstFault_cons seen name value fields with
      ⟨e', hoffends, he⟩ | ⟨hne, hseen, hvalue, hnext⟩
    · rw [he, Option.some.injEq] at h
      subst h
      exact ⟨[], _, fields, rfl, rfl, hoffends⟩
    · rw [hnext] at h
      obtain ⟨front, field, back, hfields, hfront, hoffends⟩ := ih h
      have hnull : ¬value.isNull = true := fun hn => hvalue (Value.isNull_iff.mp hn)
      refine ⟨(name, value) :: front, field, back, by rw [hfields]; rfl, ?_, ?_⟩
      · rw [firstFault, if_neg hne, if_neg hseen, if_neg hnull, hfront]
      · exact hoffends.congr fun other => by simp [or_left_comm]

/-- The check reports the first field that offends behind those before it. -/
theorem firstFault_eq_some_iff :
    firstFault [] fields = some e ↔
      ∃ front field back, fields = front ++ field :: back ∧ WellShaped front ∧
        Offends (front.map Prod.fst) field e := by
  constructor
  · intro h
    obtain ⟨front, field, back, hfields, hfront, hoffends⟩ := exists_offends_of_firstFault h
    rw [List.append_nil] at hoffends
    exact ⟨front, field, back, hfields, (firstFault_eq_none_iff.mp hfront).1, hoffends⟩
  · rintro ⟨front, field, back, hfields, hfront, hoffends⟩
    have hnone : firstFault [] front = none :=
      firstFault_eq_none_iff.mpr ⟨hfront, fun _ _ => List.not_mem_nil⟩
    rw [hfields, firstFault_append hnone]
    exact firstFault_cons_of_offends (hoffends.congr fun name => by simp)

end Check

namespace Record

variable {fields : List (Text × Value σ)} {names : List Text} {values : List (Value σ)}
  {stamp : Stamp} {service : σ} {r : Record σ} {e : ShapeError}

/-- A record is made of fields exactly if they are well shaped. -/
theorem ofFields_eq_ok_iff :
    ofFields fields stamp service = .ok r ↔ WellShaped fields ∧ r = ⟨fields, stamp, service⟩ := by
  rw [ofFields]
  cases hfault : firstFault [] fields with
  | some e =>
    have hbad : ¬WellShaped fields := by
      intro h
      rw [firstFault_eq_none_iff.mpr ⟨h, fun _ _ => List.not_mem_nil⟩] at hfault
      cases hfault
    simp [hbad]
  | none =>
    have hgood := (firstFault_eq_none_iff.mp hfault).1
    simp [hgood, eq_comm]

/-- The error of a record is that of the first field that offends. -/
theorem ofFields_eq_error_iff :
    ofFields fields stamp service = .error e ↔
      ∃ front field back, fields = front ++ field :: back ∧ WellShaped front ∧
        Offends (front.map Prod.fst) field e := by
  rw [←firstFault_eq_some_iff, ofFields]
  cases firstFault [] fields <;> simp

/-- Parallel names and values pair up to well shaped fields exactly when the
names are nonempty and distinct and all values are present. -/
theorem wellShaped_zip_iff (h : names.length = values.length) :
    WellShaped (names.zip values) ↔ [] ∉ names ∧ names.Nodup ∧ .null ∉ values := by
  have hnames : (names.zip values).map Prod.fst = names := List.map_fst_zip (Nat.le_of_eq h)
  have hvalues : (names.zip values).map Prod.snd = values := List.map_snd_zip (Nat.le_of_eq h.symm)
  constructor
  · rintro ⟨hnamed, hdistinct, hpresent⟩
    rw [hnames] at hnamed hdistinct
    rw [hvalues] at hpresent
    exact ⟨hnamed, hdistinct, hpresent⟩
  · rintro ⟨hnamed, hdistinct, hpresent⟩
    exact ⟨by rwa [hnames], by rwa [hnames], by rwa [hvalues]⟩

/-- A record is made of two lists exactly if they fit and nothing in them
offends. -/
theorem ofLists_eq_ok_iff :
    ofLists names values stamp service = .ok r ↔
      (names.length = values.length ∧ [] ∉ names ∧ names.Nodup ∧ .null ∉ values) ∧
        r = ⟨names.zip values, stamp, service⟩ := by
  rw [ofLists]
  by_cases h : names.length = values.length
  · rw [if_pos h, ofFields_eq_ok_iff, wellShaped_zip_iff h]
    simp [h]
  · simp [h]

/-- Lists are refused for their lengths, or else for the first field that
offends. -/
theorem ofLists_eq_error_iff :
    ofLists names values stamp service = .error e ↔
      names.length ≠ values.length ∧ e = .sizeMismatch names.length values.length ∨
        names.length = values.length ∧ ∃ front field back,
          names.zip values = front ++ field :: back ∧ WellShaped front ∧
            Offends (front.map Prod.fst) field e := by
  rw [ofLists]
  by_cases h : names.length = values.length
  · rw [if_pos h, ofFields_eq_error_iff]
    simp [h]
  · simp [h, eq_comm]

/-- A record with well shaped fields that holds valid records only. -/
inductive Valid : Record σ → Prop
  | intro {r : Record σ} (shape : WellShaped r.fields)
      (nested : ∀ inner, .record inner ∈ r.values → Valid inner) : Valid r

namespace Valid

/-- The fields of a valid record are well shaped. -/
theorem shape (h : r.Valid) : WellShaped r.fields := by
  cases h with
  | intro shape nested => exact shape

/-- A record within a valid one is valid. -/
theorem nested (h : r.Valid) {inner : Record σ} (hinner : .record inner ∈ r.values) :
    inner.Valid := by
  cases h with
  | intro shape nested => exact nested inner hinner

end Valid

end Record

/-- A value that a valid record can hold: it is present and, if it is a record,
it is a valid one. -/
structure Value.Storable (v : Value σ) : Prop where
  /-- The value is not absent. -/
  present : v ≠ .null
  /-- A record is valid. -/
  valid : ∀ inner, v = .record inner → inner.Valid

namespace Record

variable {fields : List (Text × Value σ)} {r : Record σ} {name : Text} {v : Value σ}

/-- A record is valid exactly when its names are nonempty and distinct and its
values storable. -/
theorem valid_iff :
    r.Valid ↔ [] ∉ r.names ∧ r.names.Nodup ∧ ∀ v ∈ r.values, v.Storable := by
  constructor
  · intro h
    refine ⟨h.shape.named, h.shape.distinct, fun v hv => ⟨?_, ?_⟩⟩
    · rintro rfl
      exact h.shape.present hv
    · rintro inner rfl
      exact h.nested hv
  · rintro ⟨hnamed, hdistinct, hstorable⟩
    refine .intro ⟨hnamed, hdistinct, fun hnull => ?_⟩ fun inner hinner => ?_
    · exact (hstorable _ hnull).present rfl
    · exact (hstorable _ hinner).valid inner rfl

/-- A record without fields is valid. -/
theorem valid_of_fields_eq_nil (h : r.fields = []) : r.Valid := by
  rw [valid_iff, names, values, h]
  simp

/-- A value that is found under a name is a field of that name. -/
theorem mem_fields_of_value? (h : r.value? name = some v) : (name, v) ∈ r.fields := by
  obtain ⟨front, back, hfields, -⟩ := List.lookup_eq_some_iff.mp h
  rw [hfields]
  exact List.mem_append_right front List.mem_cons_self

/-- A value that is found under a name is one of the values. -/
theorem mem_values_of_value? (h : r.value? name = some v) : v ∈ r.values :=
  List.mem_map_of_mem (mem_fields_of_value? h)

/-- A name has a value exactly when it is the name of a field. -/
theorem value?_eq_none_iff : r.value? name = none ↔ name ∉ r.names := by
  rw [value?, List.lookup_eq_none_iff, names, List.mem_map]
  constructor
  · rintro h ⟨field, hfield, rfl⟩
    exact absurd (h field hfield) (by simp)
  · intro h field hfield
    rw [bne_iff_ne]
    rintro rfl
    exact h ⟨field, hfield, rfl⟩

/-- In a record with distinct names a field is found by its name. -/
theorem value?_eq_some_iff (h : r.names.Nodup) : r.value? name = some v ↔ (name, v) ∈ r.fields := by
  refine ⟨mem_fields_of_value?, fun hmem => ?_⟩
  obtain ⟨front, back, hfields⟩ := List.append_of_mem hmem
  refine List.lookup_eq_some_iff.mpr ⟨front, back, hfields, fun field hfield => ?_⟩
  rw [names, hfields, List.map_append, List.map_cons, List.nodup_append] at h
  have hne := h.2.2 field.1 (List.mem_map_of_mem hfield) name List.mem_cons_self
  simpa [bne_iff_ne] using hne.symm

/-- The values of a valid record can be stored. -/
theorem Valid.storable (h : r.Valid) (hv : v ∈ r.values) : v.Storable := (valid_iff.mp h).2.2 v hv

end Record

end DataPipeline
