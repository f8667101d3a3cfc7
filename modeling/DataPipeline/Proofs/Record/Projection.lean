import DataPipeline.Proofs.Record.SelectionText
import DataPipeline.Proofs.Record.Shape
import DataPipeline.Record.Access

/-!
# Projections

A projection takes one path after the other and adds at most one field for
each: the value that the path resolves to, under the text of the path. What it
holds under a name is therefore what the first path with this text and a value
resolves to. In a valid record paths resolve to storable values only, so every
selection that can be read gives a valid record.
-/

namespace DataPipeline

namespace Record

variable {σ : Type} {r : Record σ}

section Resolution

variable {names : List Text} {v : Value σ} {p : FieldPath}

/-- A path of several names goes on in the record that the first one names. -/
theorem descend_cons_cons (r : Record σ) (first second : Text) (names : List Text) :
    r.descend (first :: second :: names) =
      ((r.value? first).bind Value.record?).bind fun nested =>
        nested.descend (second :: names) := by
  rw [descend]
  · cases r.value? first with
    | none => rfl
    | some v => cases v <;> rfl
  · intro h
    cases h

/-- A path goes down through records only. -/
theorem descend_cons_cons_eq_some_iff {first second : Text} :
    r.descend (first :: second :: names) = some v ↔
      ∃ nested, r.value? first = some (.record nested) ∧
        nested.descend (second :: names) = some v := by
  rw [descend_cons_cons, Option.bind_eq_some_iff]
  refine exists_congr fun nested => and_congr_left fun _ => ?_
  rw [Option.bind_eq_some_iff]
  simp only [Value.record?_eq_some_iff, exists_eq_right]

/-- A valid record holds storable values at every depth. -/
theorem storable_of_descend (valid : r.Valid) (h : r.descend names = some v) : v.Storable := by
  induction names generalizing r with
  | nil => cases h
  | cons first names ih =>
    cases names with
    | nil => exact valid.storable (mem_values_of_value? h)
    | cons second names =>
      obtain ⟨nested, hnested, hrest⟩ := descend_cons_cons_eq_some_iff.mp h
      exact ih (valid.nested (mem_values_of_value? hnested)) hrest

/-- What a path leads to can be stored. -/
theorem storable_of_resolve (valid : r.Valid) (h : r.resolve p = some v) : v.Storable := by
  rcases Option.or_eq_some_iff.mp h with hliteral | ⟨-, hdescend⟩
  · exact valid.storable (mem_values_of_value? hliteral)
  · exact storable_of_descend valid hdescend

end Resolution

section Fields

variable {taken : List (Text × Value σ)} {p : FieldPath} {paths : List FieldPath}
  {field : Text × Value σ}

/-- The field that a path adds to those taken before, if it adds one. -/
def newFields (r : Record σ) (taken : List (Text × Value σ)) (p : FieldPath) :
    List (Text × Value σ) :=
  if p.text ∈ taken.map Prod.fst then [] else ((r.resolve p).map fun v => (p.text, v)).toList

/-- A path adds a field if it leads to something and its name is free. -/
theorem mem_newFields_iff :
    field ∈ r.newFields taken p ↔
      p.text ∉ taken.map Prod.fst ∧ field.1 = p.text ∧ r.resolve p = some field.2 := by
  obtain ⟨name, v⟩ := field
  rw [newFields]
  by_cases h : p.text ∈ taken.map Prod.fst
  · simp [h]
  · rw [if_neg h, Option.mem_toList, Option.map_eq_some_iff]
    constructor
    · rintro ⟨v', hv, heq⟩
      cases heq
      exact ⟨h, rfl, hv⟩
    · rintro ⟨-, hname, hv⟩
      exact ⟨v, hv, Prod.ext hname.symm rfl⟩

/-- A projection adds the fields of its paths one after the other. -/
theorem projectFields_cons (r : Record σ) (taken : List (Text × Value σ)) (p : FieldPath)
    (paths : List FieldPath) :
    r.projectFields taken (p :: paths) = r.projectFields (taken ++ r.newFields taken p) paths := by
  rw [projectFields, newFields]
  split
  · rw [List.append_nil]
  · cases r.resolve p with
    | none => exact congrArg (r.projectFields · paths) (List.append_nil taken).symm
    | some v => rfl

/-- The projection onto one path has the field of this path, if it has a value. -/
theorem projectFields_singleton (r : Record σ) (p : FieldPath) :
    r.projectFields [] [p] = ((r.resolve p).map fun v => (p.text, v)).toList := by
  have hnone : p.text ∉ ([] : List (Text × Value σ)).map Prod.fst := List.not_mem_nil
  rw [projectFields_cons, newFields, if_neg hnone]
  rfl

/-- Every field of a projection was taken before or comes from a path. -/
theorem mem_projectFields (h : field ∈ r.projectFields taken paths) :
    field ∈ taken ∨ ∃ p ∈ paths, field.1 = p.text ∧ r.resolve p = some field.2 := by
  induction paths generalizing taken with
  | nil => exact .inl h
  | cons p paths ih =>
    rw [projectFields_cons] at h
    rcases ih h with htaken | ⟨q, hq, hfield⟩
    · rcases List.mem_append.mp htaken with htaken | hnew
      · exact .inl htaken
      · exact .inr ⟨p, List.mem_cons_self, (mem_newFields_iff.mp hnew).2⟩
    · exact .inr ⟨q, List.mem_cons_of_mem p hq, hfield⟩

/-- A new field does not repeat a name. -/
theorem nodup_newFields (h : (taken.map Prod.fst).Nodup) :
    ((taken ++ r.newFields taken p).map Prod.fst).Nodup := by
  rw [newFields]
  by_cases htaken : p.text ∈ taken.map Prod.fst
  · rwa [if_pos htaken, List.append_nil]
  · rw [if_neg htaken, List.map_append, List.nodup_append]
    refine ⟨h, ?_, ?_⟩
    · cases r.resolve p <;> simp
    · intro name hname other hother
      obtain ⟨v, -, rfl⟩ : ∃ v, r.resolve p = some v ∧ p.text = other := by
        cases hv : r.resolve p with
        | none => simp [hv] at hother
        | some v => exact ⟨v, rfl, by simpa [hv, eq_comm] using hother⟩
      rintro rfl
      exact htaken hname

/-- The names of a projection are distinct. -/
theorem nodup_projectFields (h : (taken.map Prod.fst).Nodup) :
    ((r.projectFields taken paths).map Prod.fst).Nodup := by
  induction paths generalizing taken with
  | nil => exact h
  | cons p paths ih =>
    rw [projectFields_cons]
    exact ih (nodup_newFields h)

/-- A name is looked up in what was taken and then in the new field. -/
theorem lookup_newFields (r : Record σ) (taken : List (Text × Value σ)) (p : FieldPath)
    (name : Text) :
    (taken ++ r.newFields taken p).lookup name =
      (taken.lookup name).or (if p.text = name then r.resolve p else none) := by
  rw [List.lookup_append, newFields]
  by_cases htaken : p.text ∈ taken.map Prod.fst
  · rw [if_pos htaken, List.lookup_nil]
    by_cases hname : p.text = name
    · have hsome : (taken.lookup name).isSome = true := by
        obtain ⟨field, hfield, heq⟩ := List.mem_map.mp htaken
        rw [List.lookup_isSome_iff]
        exact ⟨field, hfield, by rw [heq, hname, beq_self_eq_true]⟩
      obtain ⟨v, hv⟩ := Option.isSome_iff_exists.mp hsome
      rw [hv, Option.some_or, Option.some_or]
    · rw [if_neg hname]
  · rw [if_neg htaken]
    congr 1
    cases r.resolve p with
    | none => simp
    | some v =>
      rw [Option.map_some, Option.toList_some, List.lookup_cons, List.lookup_nil]
      by_cases hname : p.text = name
      · rw [if_pos hname, hname, beq_self_eq_true]
      · rw [if_neg hname, beq_false_of_ne (Ne.symm hname)]

/-- Under a name a projection holds what the first path with this text and a
value resolves to. -/
theorem lookup_projectFields (r : Record σ) (taken : List (Text × Value σ))
    (paths : List FieldPath) (name : Text) :
    (r.projectFields taken paths).lookup name =
      (taken.lookup name).or ((paths.filter fun p => p.text = name).findSome? r.resolve) := by
  induction paths generalizing taken with
  | nil => simp [projectFields]
  | cons p paths ih =>
    rw [projectFields_cons, ih, lookup_newFields, Option.or_assoc]
    congr 1
    by_cases hname : p.text = name
    · rw [if_pos hname, List.filter_cons_of_pos (by simpa using hname), List.findSome?_cons]
      cases r.resolve p <;> rfl
    · rw [if_neg hname, List.filter_cons_of_neg (by simpa using hname), Option.none_or]

/-- Paths that can be read have different texts, so a projection onto such paths
holds under a name what the path with this text resolves to. -/
theorem lookup_projectFields_eq_some_iff (h : ∀ p ∈ paths, p.WellFormed) {name : Text}
    {v : Value σ} :
    (r.projectFields [] paths).lookup name = some v ↔
      ∃ p ∈ paths, p.text = name ∧ r.resolve p = some v := by
  rw [lookup_projectFields, List.lookup_nil, Option.none_or]
  constructor
  · intro hfirst
    obtain ⟨p, hp, hv⟩ := List.exists_of_findSome?_eq_some hfirst
    obtain ⟨hmem, hname⟩ := List.mem_filter.mp hp
    exact ⟨p, hmem, of_decide_eq_true hname, hv⟩
  · rintro ⟨p, hp, rfl, hv⟩
    have hsome : ((paths.filter fun q => q.text = p.text).findSome? r.resolve).isSome = true := by
      rw [List.findSome?_isSome_iff]
      exact ⟨p, List.mem_filter.mpr ⟨hp, decide_eq_true rfl⟩, by rw [hv, Option.isSome_some]⟩
    obtain ⟨w, hw⟩ := Option.isSome_iff_exists.mp hsome
    obtain ⟨q, hq, hresolve⟩ := List.exists_of_findSome?_eq_some hw
    obtain ⟨hmem, hname⟩ := List.mem_filter.mp hq
    -- The first match has the text of the given path and is therefore this path.
    have hsame : q = p := FieldPath.text_injective (h q hmem) (h p hp) (of_decide_eq_true hname)
    rw [hw, ←hresolve, hsame, hv]

/-- Leaving out what is named like one of some names or like one more. -/
theorem filter_notMem_concat {α : Type} (name : α → Text) (xs : List α) (names : List Text)
    (last : Text) :
    (xs.filter fun x => name x ∉ names ++ [last]) =
      (xs.filter fun x => name x ∉ names).filter fun x => name x ≠ last := by
  rw [List.filter_filter]
  refine List.filter_congr fun x _ => ?_
  rw [Bool.eq_iff_iff]
  simp [not_or, and_comm]

/-- The names of a projection are the texts of its paths with a value, in order
and without repeats. -/
theorem names_projectFields (r : Record σ) (taken : List (Text × Value σ))
    (paths : List FieldPath) :
    (r.projectFields taken paths).map Prod.fst =
      taken.map Prod.fst ++ (((paths.filter fun p => (r.resolve p).isSome).map
        FieldPath.text).removeAll (taken.map Prod.fst)).eraseDups := by
  induction paths generalizing taken with
  | nil => simp [projectFields, List.removeAll]
  | cons p paths ih =>
    rw [projectFields_cons, ih, newFields]
    cases hv : r.resolve p with
    | none => simp [hv]
    | some v =>
      rw [List.filter_cons_of_pos (by simp [hv]), List.map_cons]
      by_cases htaken : p.text ∈ taken.map Prod.fst
      · rw [if_pos htaken, List.append_nil, List.cons_removeAll,
          if_neg (by simpa using List.mem_map.mp htaken)]
      · have hlater (names : List Text) :
            names.removeAll (taken.map Prod.fst ++ [p.text]) =
              (names.removeAll (taken.map Prod.fst)).filter fun name => !name == p.text := by
          simpa [List.removeAll, beq_eq_decide] using
            filter_notMem_concat id names (taken.map Prod.fst) p.text
        rw [if_neg htaken, List.cons_removeAll, if_pos (by simpa using htaken),
          List.eraseDups_cons, Option.map_some, Option.toList_some, List.map_append,
          List.map_singleton, hlater, List.append_assoc, List.singleton_append]

/-- Records that resolve paths alike have equal projections onto them. -/
theorem projectFields_congr {other : Record σ} (h : ∀ p ∈ paths, r.resolve p = other.resolve p) :
    r.projectFields taken paths = other.projectFields taken paths := by
  induction paths generalizing taken with
  | nil => rfl
  | cons p paths ih =>
    have hnew : r.newFields taken p = other.newFields taken p := by
      rw [newFields, newFields, h p List.mem_cons_self]
    rw [projectFields_cons, projectFields_cons, hnew]
    exact ih fun q hq => h q (List.mem_cons_of_mem p hq)

end Fields

section Selections

variable {selection : Selection} {expression : Text} {stamp : Stamp} {s : Record σ}

/-- What is selected from a valid record are the fields of a valid record. -/
theorem valid_selectFields (valid : r.Valid) (paths : ∀ p ∈ selection.paths, p.WellFormed)
    (stamp : Stamp) : Valid ⟨r.selectFields selection, stamp, r.service⟩ := by
  cases selection with
  | all => exact .intro valid.shape fun inner => valid.nested
  | path p =>
    rw [selectFields]
    split
    · next nested hnested =>
      have hvalid := (storable_of_resolve valid hnested).valid nested rfl
      exact .intro hvalid.shape fun inner => hvalid.nested
    · exact valid_of_fields_eq_nil rfl
  | project ps =>
    refine valid_iff.mpr ⟨?_, nodup_projectFields List.nodup_nil, ?_⟩
    · intro hempty
      obtain ⟨field, hfield, hnil⟩ := List.mem_map.mp hempty
      rcases mem_projectFields hfield with hnone | ⟨p, hp, hname, -⟩
      · cases hnone
      · exact FieldPath.text_ne_nil (paths p hp) (hname.symm.trans hnil)
    · intro v hv
      obtain ⟨field, hfield, rfl⟩ := List.mem_map.mp hv
      rcases mem_projectFields hfield with hnone | ⟨p, -, -, hresolve⟩
      · cases hnone
      · exact storable_of_resolve valid hresolve

/-- Nothing that is selected from a valid record is misshapen. -/
theorem apply_of_valid (valid : r.Valid) (paths : ∀ p ∈ selection.paths, p.WellFormed)
    (stamp : Stamp) :
    r.apply selection stamp = .ok ⟨r.selectFields selection, stamp, r.service⟩ :=
  ofFields_eq_ok_iff.mpr ⟨(valid_selectFields valid paths stamp).shape, rfl⟩

/-- An expression that is read selects its fields. -/
theorem select_of_parse (valid : r.Valid) (h : Selection.parse expression = .ok selection)
    (stamp : Stamp) :
    r.select expression stamp = .ok ⟨r.selectFields selection, stamp, r.service⟩ := by
  rw [select, h]
  dsimp only
  rw [apply_of_valid valid (Selection.wellFormed_of_parse h)]
  rfl

/-- What is selected from a valid record is a valid record. -/
theorem Valid.select (valid : r.Valid) (h : r.select expression stamp = .ok s) : s.Valid := by
  cases hparse : Selection.parse expression with
  | error fault =>
    rw [Record.select, hparse] at h
    cases h
  | ok selection =>
    rw [select_of_parse valid hparse] at h
    cases h
    exact valid_selectFields valid (Selection.wellFormed_of_parse hparse) stamp

end Selections

end Record

end DataPipeline
