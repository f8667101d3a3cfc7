import DataPipeline.Proofs.Json.Writing

/-!
# Fields of a record in any order

A record is read from an object that has some of its fields in any order, each at
most once, among any members with other keys. What is read depends on the fields
alone.
-/

namespace DataPipeline.Json

/-- A key that is a text. -/
abbrev IsTextKey (key : Option Text) : Prop := key.isSome = true

/-- The members of the fields that have a value. -/
def fieldMembers (fields : List (Text × Option Json)) : List (Option Text × Json) :=
  fields.filterMap fun (name, value) => value.map fun v => (some name, v)

/-- An object has these fields of a record, in any order and each once, and apart
from them only members with other keys, which are admitted ones. A field that the
object does not have is without a value. -/
inductive HasFields (admits : Option Text → Prop) (fields : List (Text × Option Json)) : Json → Prop
  | object {others members : List (Option Text × Json)}
      (otherKeys : ∀ m ∈ others, admits m.1 ∧ ∀ field ∈ fields, m.1 ≠ some field.1)
      (order : members.Perm (fieldMembers fields ++ others)) :
      HasFields admits fields (.object members)

variable {fields : List (Text × Option Json)} {name : Text} {value : Option Json}

theorem fieldMembers_cons (field : Text × Option Json) (fields : List (Text × Option Json)) :
    fieldMembers (field :: fields) =
      (field.2.map fun v => (some field.1, v)).toList ++ fieldMembers fields := by
  obtain ⟨name, value⟩ := field
  cases value <;> rfl

/-- The keys of the members are names of fields. -/
theorem key_of_mem_fieldMembers {m : Option Text × Json} (h : m ∈ fieldMembers fields) :
    ∃ field ∈ fields, m.1 = some field.1 := by
  obtain ⟨⟨name, value⟩, hfield, hm⟩ := List.mem_filterMap.mp h
  obtain ⟨v, -, rfl⟩ := Option.map_eq_some_iff.mp hm
  exact ⟨_, hfield, rfl⟩

/-- Each field has at most one member. -/
theorem filter_fieldMembers (hnodup : (fields.map Prod.fst).Nodup) (h : (name, value) ∈ fields) :
    (fieldMembers fields).filter (fun (key, _) => key = some name) =
      (value.map fun v => (some name, v)).toList := by
  induction fields with
  | nil => exact absurd h List.not_mem_nil
  | cons field fields ih =>
    rw [List.map_cons, List.nodup_cons] at hnodup
    rw [fieldMembers_cons, List.filter_append]
    rcases List.mem_cons.mp h with rfl | h
    · have hrest : (fieldMembers fields).filter (fun (key, _) => key = some name) = [] := by
        refine List.filter_eq_nil_iff.mpr fun m hm hkey => hnodup.1 ?_
        obtain ⟨field, hfield, hname⟩ := key_of_mem_fieldMembers hm
        have hsame : field.1 = name := by simpa [hname] using hkey
        exact List.mem_map.mpr ⟨field, hfield, hsame⟩
      cases value <;> simp [hrest]
    · have hne : field.1 ≠ name := by
        rintro rfl
        exact hnodup.1 (List.mem_map.mpr ⟨_, h, rfl⟩)
      have hhead : (field.2.map fun v => (some field.1, v)).toList.filter
          (fun (key, _) => key = some name) = [] := by
        cases field.2 <;> simp [hne]
      rw [hhead, List.nil_append, ih hnodup.2 h]

/-- A field of a record is found wherever it stands. -/
theorem member?_of_perm {others members : List (Option Text × Json)}
    (hnodup : (fields.map Prod.fst).Nodup)
    (hothers : ∀ m ∈ others, ∀ field ∈ fields, m.1 ≠ some field.1)
    (hperm : members.Perm (fieldMembers fields ++ others)) (h : (name, value) ∈ fields) :
    member? members name = some value := by
  have hnone : others.filter (fun (key, _) => key = some name) = [] :=
    List.filter_eq_nil_iff.mpr fun m hm hkey => hothers m hm _ h (of_decide_eq_true hkey)
  -- The members with this key are the same in any order, and there is one at most.
  have hfilter := hperm.filter (fun (key, _) => key = some name)
  rw [List.filter_append, filter_fieldMembers hnodup h, hnone, List.append_nil] at hfilter
  rw [member?]
  cases value with
  | none => rw [hfilter.eq_nil]
  | some v => rw [List.perm_singleton.mp hfilter]

theorem HasFields.isTextKey {members : List (Option Text × Json)}
    (h : HasFields IsTextKey fields (.object members)) : ∀ m ∈ members, IsTextKey m.1 := by
  cases h with
  | object otherKeys order =>
    intro m hm
    rcases List.mem_append.mp (order.mem_iff.mp hm) with hm | hm
    · obtain ⟨field, -, hkey⟩ := key_of_mem_fieldMembers hm
      rw [hkey]
      rfl
    · exact (otherKeys m hm).1

/-- A record is read as the fields that an object has. -/
theorem HasFields.fields?_eq {j : Json} (h : HasFields IsTextKey fields j)
    (hnodup : (fields.map Prod.fst).Nodup) :
    j.fields? (fields.map Prod.fst) = some (fields.map Prod.snd) := by
  cases h with
  | @object others members otherKeys order =>
    have hkeys := (HasFields.object otherKeys order).isTextKey
    have hany : (members.any fun (key, _) => key.isNone) = false := by
      simpa [Option.isSome_iff_ne_none] using hkeys
    rw [fields?, if_neg (by rw [hany]; exact Bool.false_ne_true)]
    exact mapM_map_eq_some_map fun field hfield =>
      member?_of_perm hnodup (fun m hm => (otherKeys m hm).2) order hfield

/-- An object with a key that is no text is not read as a record. -/
theorem HasFields.texts_or_refused {j : Json} (h : HasFields (fun _ => True) fields j) :
    HasFields IsTextKey fields j ∨ ∀ names, j.fields? names = none := by
  cases h with
  | @object others members otherKeys order =>
    by_cases htexts : ∀ m ∈ others, m.1.isSome = true
    · exact .inl (.object (fun m hm => ⟨htexts m hm, (otherKeys m hm).2⟩) order)
    · obtain ⟨⟨key, value⟩, hm, hkey⟩ : ∃ m ∈ others, ¬m.1.isSome = true := by
        simpa using htexts
      have hany : (members.any fun (key, _) => key.isNone) = true :=
        List.any_eq_true.mpr ⟨_, order.mem_iff.mpr (List.mem_append_right _ hm),
          by simpa using hkey⟩
      exact .inr fun names => by rw [fields?, if_pos hany]

/-- A record has its fields. -/
theorem hasFields_record (admits : Option Text → Prop) (members : List (Text × Json)) :
    HasFields admits (members.map fun (name, value) => (name, some value)) (record members) := by
  refine @HasFields.object _ _ [] _ (List.forall_mem_nil _) ?_
  rw [fieldMembers, List.filterMap_map, List.append_nil]
  exact .of_eq (congrFun List.filterMap_eq_map.symm members)

theorem HasFields.fields?_zip {names : List Text} {values : List (Option Json)} {j : Json}
    (h : HasFields IsTextKey (names.zip values) j) (hnodup : names.Nodup)
    (hlength : names.length = values.length) : j.fields? names = some values := by
  have hnames : (names.zip values).map Prod.fst = names := List.map_fst_zip hlength.le
  have hvalues : (names.zip values).map Prod.snd = values := List.map_snd_zip hlength.ge
  have hfields := h.fields?_eq (by rwa [hnames])
  rwa [hnames, hvalues] at hfields

end DataPipeline.Json
