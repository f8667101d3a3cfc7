import DataPipeline.Proofs.Record.Reprojection

/-!
# What projections hold

A field named like a path hides what the path leads to through the records
below. Apart from that a path resolves by its names alone, so a relation on
the fields of the records on its way says what it resolves to. A projection
takes the paths of its list in turn. As it only looks at the names that it has
already, its fields are those of the projections onto the single paths, one
after the other and without repeated names. A path without a value adds
nothing to this list, wherever it stands.
-/

namespace DataPipeline

variable {σ : Type}

namespace Record

/-- What lies below a record along some names: under the last name a field of
the record that the names before it lead to. -/
inductive Below : Record σ → List Text → Value σ → Prop
  | field {r : Record σ} {name : Text} {v : Value σ} (held : (name, v) ∈ r.fields) :
      Below r [name] v
  | nested {r inner : Record σ} {name : Text} {names : List Text} {v : Value σ}
      (held : (name, .record inner) ∈ r.fields) (below : Below inner names v) :
      Below r (name :: names) v

/-- What a path leads to in a record. -/
inductive Leads (r : Record σ) (p : FieldPath) : Value σ → Prop
  /-- A field has the text of the path as its name. -/
  | field {v : Value σ} (held : (p.text, v) ∈ r.fields) : Leads r p v
  /-- No field has, and the value lies below the record along the path. -/
  | below {v : Value σ} (unnamed : p.text ∉ r.names) (below : Below r p.segments v) : Leads r p v

section Resolution

variable {r : Record σ} {p : FieldPath} {names : List Text} {v : Value σ}

theorem Below.ne_nil (h : Below r names v) : names ≠ [] := by
  cases h <;> exact List.cons_ne_nil _ _

/-- In a valid record names descend to what lies below it along them. -/
theorem descend_eq_some_iff_below (valid : r.Valid) :
    r.descend names = some v ↔ r.Below names v := by
  induction names generalizing r with
  | nil => exact iff_of_false (fun h => by cases h) fun h => h.ne_nil rfl
  | cons first names ih =>
    have hfield {w : Value σ} : r.value? first = some w ↔ (first, w) ∈ r.fields :=
      value?_eq_some_iff valid.shape.distinct
    cases names with
    | nil =>
      refine hfield.trans ⟨.field, fun h => ?_⟩
      cases h with
      | field held => exact held
      | nested held below => exact absurd rfl below.ne_nil
    | cons second names =>
      rw [descend_cons_cons_eq_some_iff]
      constructor
      · rintro ⟨inner, hinner, hrest⟩
        have hvalid := valid.nested (mem_values_of_value? hinner)
        exact .nested (hfield.mp hinner) ((ih hvalid).mp hrest)
      · intro h
        cases h with
        | nested held below =>
          have hvalid := valid.nested (mem_values_of_value? (hfield.mpr held))
          exact ⟨_, hfield.mpr held, (ih hvalid).mpr below⟩

/-- In a valid record a path resolves to what it leads to. -/
theorem resolve_eq_some_iff_leads (valid : r.Valid) : r.resolve p = some v ↔ r.Leads p v := by
  rw [resolve, Option.or_eq_some_iff, value?_eq_some_iff valid.shape.distinct,
    value?_eq_none_iff, descend_eq_some_iff_below valid]
  constructor
  · rintro (hheld | ⟨hunnamed, hbelow⟩)
    · exact .field hheld
    · exact .below hunnamed hbelow
  · intro h
    cases h with
    | field held => exact .inl held
    | below unnamed below => exact .inr ⟨unnamed, below⟩

theorem resolve_eq_none_iff_leads (valid : r.Valid) :
    r.resolve p = none ↔ ∀ v, ¬r.Leads p v := by
  rw [Option.eq_none_iff_forall_ne_some]
  exact forall_congr' fun v => not_congr (resolve_eq_some_iff_leads valid)

end Resolution

end Record

/-- The first field of each name. -/
def firstByName (fields : List (Text × Value σ)) : List (Text × Value σ) :=
  fields.eraseDupsBy fun field earlier => field.1 == earlier.1

theorem firstByName_cons (field : Text × Value σ) (fields : List (Text × Value σ)) :
    firstByName (field :: fields) =
      field :: firstByName (fields.filter fun other => other.1 ≠ field.1) := by
  simp [firstByName, List.eraseDupsBy_cons]

namespace Record

section Merge

variable {r : Record σ} {paths : List FieldPath}

/-- A projection adds to the fields taken before those of the projections onto
its single paths whose names are new. -/
theorem projectFields_eq_append (r : Record σ) (taken : List (Text × Value σ))
    (paths : List FieldPath) :
    r.projectFields taken paths =
      taken ++ firstByName ((paths.flatMap fun p => r.projectFields [] [p]).filter fun field =>
        field.1 ∉ taken.map Prod.fst) := by
  induction paths generalizing taken with
  | nil => simp [projectFields, firstByName]
  | cons p paths ih =>
    rw [projectFields_cons, ih, newFields, List.flatMap_cons, projectFields_singleton,
      List.filter_append]
    cases r.resolve p with
    | none =>
      rw [Option.map_none, Option.toList_none, ite_self, List.append_nil, List.filter_nil,
        List.nil_append]
    | some v =>
      rw [Option.map_some, Option.toList_some]
      by_cases htaken : p.text ∈ taken.map Prod.fst
      · rw [if_pos htaken, List.append_nil, List.filter_cons_of_neg (by simpa using htaken),
          List.filter_nil, List.nil_append]
      · -- The new field stands first, so it is the one of its name that is kept.
        rw [if_neg htaken, List.filter_cons_of_pos (by simpa using htaken), List.filter_nil,
          List.singleton_append, firstByName_cons, List.map_append, List.map_singleton,
          filter_notMem_concat Prod.fst, List.append_assoc, List.singleton_append]

/-- A projection merges the projections onto its single paths. -/
theorem projectFields_eq_firstByName (r : Record σ) (paths : List FieldPath) :
    r.projectFields [] paths = firstByName (paths.flatMap fun p => r.projectFields [] [p]) := by
  rw [projectFields_eq_append, List.nil_append, List.filter_eq_self.mpr]
  exact fun _ _ => decide_eq_true List.not_mem_nil

/-- A path without a value can be left out. -/
theorem projectFields_of_unresolved {front back : List FieldPath} {q : FieldPath}
    (h : r.resolve q = none) :
    r.projectFields [] (front ++ q :: back) = r.projectFields [] (front ++ back) := by
  have hnil : r.projectFields [] [q] = [] := by
    rw [projectFields_singleton, h]
    rfl
  rw [projectFields_eq_firstByName, projectFields_eq_firstByName, List.flatMap_append,
    List.flatMap_cons, hnil, List.nil_append, List.flatMap_append]

end Merge

end Record

/-- What projections of a valid record hold. The names are the texts of the paths
that resolve, in order and without repeats, and under each of them stands what
the path leads to. The fields are those of the projections onto the single
paths, merged by their names, and paths that lead nowhere can be left out. The
selection of everything gives an equal record. -/
theorem projection_merges {r : Record σ} (valid : r.Valid) {paths : List FieldPath}
    (hpaths : ∀ p ∈ paths, p.WellFormed) (stamp : Stamp) (stamps : FieldPath → Stamp) :
    ∃ (s all : Record σ) (single : FieldPath → Record σ),
      r.apply (.project paths) stamp = .ok s ∧ r.apply .all stamp = .ok all ∧
      (∀ p ∈ paths, r.apply (.project [p]) (stamps p) = .ok (single p)) ∧
      s.names = ((paths.filter fun p => (r.resolve p).isSome).map FieldPath.text).eraseDups ∧
      (∀ p v, r.resolve p = some v ↔ r.Leads p v) ∧
      (∀ name v, (name, v) ∈ s.fields ↔ ∃ p ∈ paths, p.text = name ∧ r.Leads p v) ∧
      s.fields = firstByName (paths.flatMap fun p => (single p).fields) ∧
      (∀ front q back, paths = front ++ q :: back → (∀ v, ¬r.Leads q v) →
        ∃ t, r.apply (.project (front ++ back)) stamp = .ok t ∧ t.fields = s.fields) ∧
      s.service = r.service ∧ (all == r) = true := by
  have hall : r.apply .all stamp = .ok ⟨r.fields, stamp, r.service⟩ := by
    have hnone : ∀ p ∈ Selection.all.paths, p.WellFormed := List.forall_mem_nil _
    exact Record.apply_of_valid valid hnone stamp
  refine ⟨r.projected paths stamp, ⟨r.fields, stamp, r.service⟩,
    fun p => r.projected [p] (stamps p), Record.apply_project valid hpaths stamp, hall, ?_, ?_, ?_,
    ?_, ?_, ?_, rfl, Record.beq_of_fields_eq rfl⟩
  · intro p hp
    exact Record.apply_project valid (List.forall_mem_singleton.mpr (hpaths p hp)) (stamps p)
  · have hnames := Record.names_projectFields r [] paths
    rwa [List.map_nil, List.removeAll_nil, List.nil_append] at hnames
  · exact fun p v => Record.resolve_eq_some_iff_leads valid
  · intro name v
    have hdistinct : (r.projected paths stamp).names.Nodup :=
      Record.nodup_projectFields List.nodup_nil
    rw [←Record.value?_eq_some_iff hdistinct, Record.value?, Record.projected,
      Record.lookup_projectFields_eq_some_iff hpaths]
    simp only [Record.resolve_eq_some_iff_leads valid]
  · exact Record.projectFields_eq_firstByName r paths
  · rintro front q back rfl hnowhere
    have hothers : ∀ p ∈ front ++ back, p.WellFormed := by
      intro p hp
      refine hpaths p ?_
      rcases List.mem_append.mp hp with hp | hp
      · exact List.mem_append_left _ hp
      · exact List.mem_append_right _ (List.mem_cons_of_mem q hp)
    have hnone := (Record.resolve_eq_none_iff_leads valid).mpr hnowhere
    exact ⟨_, Record.apply_project valid hothers stamp,
      (Record.projectFields_of_unresolved hnone).symm⟩

/-- A record with two inner ones, one of which is hidden from a path by a name
that reads like it. -/
def personSample : Record Nat :=
  ⟨[("age".toList, .int 36),
    ("address".toList, .record ⟨[("city".toList, .string "Oslo".toList)], ⟨1, 0⟩, 7⟩),
    ("user.name".toList, .string "outer".toList),
    ("user".toList, .record ⟨[("name".toList, .string "inner".toList)], ⟨2, 0⟩, 8⟩)], ⟨3, 0⟩, 9⟩

/-- A repeated path and one that leads nowhere stand between paths to a field of
an inner record and to one whose name has a dot. -/
theorem projection_merges_sample :
    let age : FieldPath := ⟨["age".toList]⟩
    let city : FieldPath := ⟨["address".toList, "city".toList]⟩
    let missing : FieldPath := ⟨["missing".toList]⟩
    let user : FieldPath := ⟨["user".toList, "name".toList]⟩
    let paths := [age, city, missing, user, age]
    personSample.Valid ∧ (∀ p ∈ paths, p.WellFormed) ∧ (∀ v, ¬personSample.Leads missing v) ∧
      ∃ s t : Record Nat, personSample.apply (.project paths) ⟨4, 0⟩ = .ok s ∧
        personSample.apply (.project [age, city, user, age]) ⟨4, 0⟩ = .ok t ∧
        s.names = ["age".toList, "address.city".toList, "user.name".toList] ∧
        ("address.city".toList, .string "Oslo".toList) ∈ s.fields ∧
        ("user.name".toList, .string "outer".toList) ∈ s.fields ∧ t.fields = s.fields := by
  intro age city missing user paths
  have hvalid : personSample.Valid := by
    refine .intro ⟨by decide, by decide, by simp [personSample]⟩ fun inner hinner => ?_
    have hinner : inner = ⟨[("city".toList, .string "Oslo".toList)], ⟨1, 0⟩, 7⟩ ∨
        inner = ⟨[("name".toList, .string "inner".toList)], ⟨2, 0⟩, 8⟩ := by
      simpa [personSample, Record.values] using hinner
    rcases hinner with rfl | rfl
    · exact .intro ⟨by decide, by decide, by simp⟩ fun inner hinner => by
        simp [Record.values] at hinner
    · exact .intro ⟨by decide, by decide, by simp⟩ fun inner hinner => by
        simp [Record.values] at hinner
  have hpaths : ∀ p ∈ paths, p.WellFormed := by
    have hage : age.WellFormed := ⟨by decide, by decide, by decide, by decide⟩
    have hcity : city.WellFormed := ⟨by decide, by decide, by decide, by decide⟩
    have hmissing : missing.WellFormed := ⟨by decide, by decide, by decide, by decide⟩
    have huser : user.WellFormed := ⟨by decide, by decide, by decide, by decide⟩
    simp [paths, hage, hcity, hmissing, huser]
  have hnowhere : ∀ v, ¬personSample.Leads missing v :=
    (Record.resolve_eq_none_iff_leads hvalid).mp rfl
  have hcity : personSample.Leads city (.string "Oslo".toList) :=
    .below (by decide) (.nested (List.mem_cons_of_mem _ List.mem_cons_self)
      (.field List.mem_cons_self))
  have huser : personSample.Leads user (.string "outer".toList) :=
    .field (List.mem_cons_of_mem _ (List.mem_cons_of_mem _ List.mem_cons_self))
  obtain ⟨s, all, single, hs, -, -, hnames, -, hfields, -, hdropped, -, -⟩ :=
    projection_merges hvalid hpaths ⟨4, 0⟩ fun _ => ⟨5, 0⟩
  obtain ⟨t, ht, hsame⟩ := hdropped [age, city] missing [user, age] rfl hnowhere
  exact ⟨hvalid, hpaths, hnowhere, s, t, hs, ht, hnames,
    (hfields _ _).mpr ⟨city, List.mem_cons_of_mem _ List.mem_cons_self, rfl, hcity⟩,
    (hfields _ _).mpr ⟨user, by simp [paths], rfl, huser⟩, hsame⟩

end DataPipeline
