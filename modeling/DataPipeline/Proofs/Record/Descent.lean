import DataPipeline.Proofs.Record.Reprojection

/-!
# Descending step by step

A path that no field is named like descends through nested records, and so does
a program that selects its names one after the other: each selection gives the
record that the name holds, with the conversion service that it is selected
through, and the record without fields as soon as a name is missing or holds
something else. The selection of a path gives the record that the projection
onto this path holds.
-/

namespace DataPipeline

variable {σ : Type}

/-- The fields of a value: those of the record that it is, and none otherwise. -/
def Value.innerFields : Value σ → List (Text × Value σ)
  | .record r => r.fields
  | _ => []

/-- The fields of what a path leads to, and none if it leads nowhere. -/
def fieldsOf (found : Option (Value σ)) : List (Text × Value σ) := found.elim [] Value.innerFields

namespace Record

/-- The records that single names select one after the other, each with the
stamp of its selection. -/
def selectSteps (r : Record σ) (steps : List (Text × Stamp)) : Except ShapeError (Record σ) :=
  steps.foldlM (fun s step => s.apply (.path ⟨[step.1]⟩) step.2) r

section Fields

variable {r s : Record σ} {p : FieldPath} {names : List Text}

/-- A path selects the fields of what it resolves to. -/
theorem selectFields_path (r : Record σ) (p : FieldPath) :
    r.selectFields (.path p) = fieldsOf (r.resolve p) := by
  rw [selectFields]
  cases r.resolve p with
  | none => rfl
  | some v => cases v <;> rfl

/-- What is no record has no fields. -/
theorem fieldsOf_eq_nil {found : Option (Value σ)} (h : ∀ inner, found ≠ some (.record inner)) :
    fieldsOf found = [] := by
  cases found with
  | none => rfl
  | some v => cases v <;> first | rfl | exact absurd rfl (h _)

/-- What a path descends to depends on the fields alone. -/
theorem descend_congr (h : r.fields = s.fields) : r.descend names = s.descend names := by
  have hvalue (name : Text) : r.value? name = s.value? name := by rw [value?, h, value?]
  cases names with
  | nil => rfl
  | cons first names =>
    cases names with
    | nil => exact hvalue first
    | cons second names => rw [descend_cons_cons, descend_cons_cons, hvalue]

/-- Nothing is found in a record without fields. -/
theorem descend_of_fields_eq_nil (h : r.fields = []) : r.descend names = none := by
  have hvalue (name : Text) : r.value? name = none := by
    rw [value?, h]
    rfl
  cases names with
  | nil => rfl
  | cons first names =>
    cases names with
    | nil => exact hvalue first
    | cons second names =>
      rw [descend_cons_cons, hvalue]
      rfl

/-- In the record that a name selects the other names descend to what all of
them descend to. -/
theorem descend_selected {first second : Text} (stamp : Stamp) (service : σ) :
    descend ⟨fieldsOf (r.value? first), stamp, service⟩ (second :: names) =
      r.descend (first :: second :: names) := by
  rw [descend_cons_cons]
  cases hparent : (r.value? first).bind Value.record? with
  | none =>
    refine descend_of_fields_eq_nil (fieldsOf_eq_nil fun inner hinner => ?_)
    rw [hinner] at hparent
    cases hparent
  | some nested =>
    have hsome : r.value? first = some (.record nested) := by
      obtain ⟨v, hv, hrecord⟩ := Option.bind_eq_some_iff.mp hparent
      rw [hv, Value.record?_eq_some_iff.mp hrecord]
    have hfields : fieldsOf (r.value? first) = nested.fields := by
      rw [hsome]
      rfl
    exact descend_congr hfields

/-- Nothing is found below a name that holds no record. -/
theorem fieldsOf_descend_eq_nil {name : Text}
    (h : ∀ inner, r.value? name ≠ some (.record inner)) :
    fieldsOf (r.descend (name :: names)) = [] := by
  have hfields : fieldsOf (r.value? name) = [] := fieldsOf_eq_nil h
  cases names with
  | nil => exact hfields
  | cons second names =>
    rw [←descend_selected r.stamp r.service, descend_of_fields_eq_nil hfields]
    rfl

end Fields

section Steps

variable {r s : Record σ} {p : FieldPath} {name : Text} {stamp : Stamp}
  {step : Text × Stamp} {steps : List (Text × Stamp)}

/-- A single name of a well-formed path is one. -/
theorem wellFormed_singleton (hp : p.WellFormed) (hname : name ∈ p.segments) :
    FieldPath.WellFormed ⟨[name]⟩ where
  nonempty := List.cons_ne_nil _ _
  named h := hp.named (List.mem_singleton.mp h ▸ hname)
  trimmed s hs := hp.trimmed s (List.mem_singleton.mp hs ▸ hname)
  dotless s hs := hp.dotless s (List.mem_singleton.mp hs ▸ hname)

/-- A path selects the fields of what it leads to. -/
theorem apply_path (valid : r.Valid) (hp : p.WellFormed) (stamp : Stamp) :
    r.apply (.path p) stamp = .ok ⟨fieldsOf (r.resolve p), stamp, r.service⟩ := by
  have hpaths : ∀ q ∈ (Selection.path p).paths, q.WellFormed := List.forall_mem_singleton.mpr hp
  rw [apply_of_valid valid hpaths, selectFields_path]

/-- One step selects the fields of what its name holds. -/
theorem apply_name (valid : r.Valid) (hname : FieldPath.WellFormed ⟨[name]⟩) (stamp : Stamp) :
    r.apply (.path ⟨[name]⟩) stamp = .ok ⟨fieldsOf (r.value? name), stamp, r.service⟩ := by
  rw [apply_path valid hname, resolve_singleton]

/-- What a path selects from a valid record is valid. -/
theorem Valid.apply (valid : r.Valid) (hp : p.WellFormed)
    (h : r.apply (.path p) stamp = .ok s) : s.Valid := by
  have hpaths : ∀ q ∈ (Selection.path p).paths, q.WellFormed := List.forall_mem_singleton.mpr hp
  rw [apply_of_valid valid hpaths] at h
  cases h
  exact valid_selectFields valid hpaths stamp

/-- What is selected in steps from a valid record is valid. -/
theorem Valid.selectSteps (valid : r.Valid)
    (hnames : ∀ step ∈ steps, FieldPath.WellFormed ⟨[step.1]⟩) (h : r.selectSteps steps = .ok s) :
    s.Valid := by
  induction steps generalizing r with
  | nil =>
    cases h
    exact valid
  | cons step steps ih =>
    rw [Record.selectSteps, List.foldlM_cons] at h
    obtain ⟨first, hfirst, hrest⟩ := Except.bind_eq_ok_iff.mp h
    exact ih (valid.apply (hnames step List.mem_cons_self) hfirst)
      (fun step hstep => hnames step (List.mem_cons_of_mem _ hstep)) hrest

/-- All steps together select the fields of what their names descend to, with
the service of the record that the first one selects from. -/
theorem selectSteps_cons (valid : r.Valid)
    (hnames : ∀ s ∈ step :: steps, FieldPath.WellFormed ⟨[s.1]⟩) :
    ∃ last, r.selectSteps (step :: steps) = .ok last ∧ last.service = r.service ∧
      last.fields = fieldsOf (r.descend (step.1 :: steps.map Prod.fst)) := by
  induction steps generalizing r step with
  | nil =>
    have hstep := hnames step List.mem_cons_self
    refine ⟨⟨fieldsOf (r.value? step.1), step.2, r.service⟩, ?_, rfl, rfl⟩
    rw [selectSteps, List.foldlM_cons, apply_name valid hstep]
    rfl
  | cons next steps ih =>
    have hstep := hnames step List.mem_cons_self
    have happly := apply_name valid hstep step.2
    obtain ⟨last, hlast, hservice, hfields⟩ := ih (valid.apply hstep happly)
      fun s hs => hnames s (List.mem_cons_of_mem step hs)
    refine ⟨last, ?_, hservice, ?_⟩
    · rw [selectSteps, List.foldlM_cons, happly]
      exact hlast
    · rw [hfields, descend_selected, List.map_cons]

/-- The steps of a well-formed path are well formed. -/
theorem wellFormed_of_steps (hp : p.WellFormed) (hsteps : steps.map Prod.fst = p.segments) :
    ∀ step ∈ steps, FieldPath.WellFormed ⟨[step.1]⟩ :=
  fun _ hstep => wellFormed_singleton hp (hsteps ▸ List.mem_map_of_mem hstep)

/-- The steps along a path select what the path descends to. -/
theorem selectSteps_eq (valid : r.Valid) (hp : p.WellFormed)
    (hsteps : steps.map Prod.fst = p.segments) :
    ∃ last, r.selectSteps steps = .ok last ∧ last.service = r.service ∧
      last.fields = fieldsOf (r.descend p.segments) := by
  have hnames := wellFormed_of_steps hp hsteps
  cases steps with
  | nil => exact absurd hsteps.symm hp.nonempty
  | cons step steps =>
    rw [←hsteps]
    exact selectSteps_cons valid hnames

/-- The path leads nowhere as soon as one of its steps is at a name that holds no
record. -/
theorem descend_of_step_missing {front back : List (Text × Stamp)} (valid : r.Valid)
    (hp : p.WellFormed) (hsteps : (front ++ step :: back).map Prod.fst = p.segments)
    (hfront : r.selectSteps front = .ok s)
    (h : ∀ inner, s.value? step.1 ≠ some (.record inner)) :
    fieldsOf (r.descend p.segments) = [] := by
  have hnames := wellFormed_of_steps hp hsteps
  have hvalid : s.Valid := valid.selectSteps
    (fun other hother => hnames other (List.mem_append_left _ hother)) hfront
  obtain ⟨rest, hrest, -, hrestFields⟩ := selectSteps_cons hvalid
    fun other hother => hnames other (List.mem_append_right _ hother)
  obtain ⟨last, hlast, -, hfields⟩ := selectSteps_eq valid hp hsteps
  have hsame : r.selectSteps (front ++ step :: back) = s.selectSteps (step :: back) := by
    rw [selectSteps, List.foldlM_append]
    change r.selectSteps front >>= _ = _
    rw [hfront]
    rfl
  rw [hlast, hrest, Except.ok.injEq] at hsame
  rw [←hfields, hsame, hrestFields, fieldsOf_descend_eq_nil h]

/-- The projection onto one path holds a record exactly when the path resolves
to it. -/
theorem projectFields_singleton_eq_record_iff {inner : Record σ} :
    r.projectFields [] [p] = [(p.text, .record inner)] ↔ r.resolve p = some (.record inner) := by
  rw [projectFields_singleton]
  cases r.resolve p <;> simp

end Steps

end Record

/-- Selecting a path of a valid record. If no field is named like the path, its
names selected one after the other give an equal record, which has no fields as
soon as one of the names holds no record; if one is, nothing but this field
matters. The fields are those of the record that the projection onto
the path holds as its one field, and there are none if it holds anything else.
All of these records have the conversion service of the record that is selected
from. -/
theorem path_selects_stepwise {r : Record σ} (valid : r.Valid) {p : FieldPath} (hp : p.WellFormed)
    (stamp stamp' : Stamp) :
    ∃ whole projected : Record σ, r.apply (.path p) stamp = .ok whole ∧
      r.apply (.project [p]) stamp' = .ok projected ∧
      whole.service = r.service ∧ projected.service = r.service ∧
      (r.value? p.text = none → ∀ steps : List (Text × Stamp), steps.map Prod.fst = p.segments →
        (∃ last, r.selectSteps steps = .ok last ∧ (last == whole) = true ∧
          last.service = r.service) ∧
        ∀ front step back s, steps = front ++ step :: back → r.selectSteps front = .ok s →
          (∀ inner, s.value? step.1 ≠ some (.record inner)) → whole.fields = []) ∧
      (∀ v, r.value? p.text = some v → whole.fields = v.innerFields ∧
        ∀ other : Record σ, other.Valid → other.value? p.text = some v →
          ∃ same, other.apply (.path p) stamp = .ok same ∧ (same == whole) = true) ∧
      (∀ inner, projected.fields = [(p.text, .record inner)] → whole.fields = inner.fields) ∧
      ((∀ inner, projected.fields ≠ [(p.text, .record inner)]) → whole.fields = []) := by
  have hpaths : ∀ q ∈ [p], q.WellFormed := List.forall_mem_singleton.mpr hp
  have hliteral {s : Record σ} {v : Value σ} (hv : s.value? p.text = some v) :
      fieldsOf (s.resolve p) = v.innerFields := by
    rw [Record.resolve, hv, Option.some_or]
    rfl
  refine ⟨_, _, Record.apply_path valid hp stamp, Record.apply_project valid hpaths stamp', rfl,
    rfl, ?_, ?_, ?_, ?_⟩
  · intro hnone steps hsteps
    have hdescend : fieldsOf (r.resolve p) = fieldsOf (r.descend p.segments) := by
      rw [Record.resolve, hnone, Option.none_or]
    refine ⟨?_, ?_⟩
    · obtain ⟨last, hlast, hservice, hfields⟩ := Record.selectSteps_eq valid hp hsteps
      exact ⟨last, hlast, Record.beq_of_fields_eq (hfields.trans hdescend.symm), hservice⟩
    · rintro front step back s rfl hfront hmissing
      exact hdescend.trans (Record.descend_of_step_missing valid hp hsteps hfront hmissing)
  · intro v hv
    refine ⟨hliteral hv, fun other hvalid hother => ?_⟩
    refine ⟨_, Record.apply_path hvalid hp stamp, Record.beq_of_fields_eq ?_⟩
    exact (hliteral hother).trans (hliteral hv).symm
  · intro inner hinner
    have hresolve := Record.projectFields_singleton_eq_record_iff.mp hinner
    change fieldsOf (r.resolve p) = inner.fields
    rw [hresolve]
    rfl
  · intro hnone
    have hresolve (inner : Record σ) : r.resolve p ≠ some (.record inner) := fun h =>
      hnone inner (Record.projectFields_singleton_eq_record_iff.mpr h)
    exact Record.fieldsOf_eq_nil hresolve

/-- The inner record of the sample below. -/
def cellSample : Record Nat := ⟨[("c".toList, .int 1)], ⟨0, 0⟩, 7⟩

/-- Records with services of their own, next to a name that reads like a path
into them. -/
def servicesSample : Record Nat :=
  ⟨[("a".toList, .record ⟨[("b".toList, .record cellSample)], ⟨1, 0⟩, 8⟩),
    ("a.c".toList, .int 3)], ⟨2, 0⟩, 9⟩

/-- One path leads to the inner record, through the outer service, and the other
one to a number that its name holds. -/
theorem path_selects_stepwise_sample :
    let p : FieldPath := ⟨["a".toList, "b".toList]⟩
    let q : FieldPath := ⟨["a".toList, "c".toList]⟩
    let steps : List (Text × Stamp) := [("a".toList, ⟨3, 0⟩), ("b".toList, ⟨4, 0⟩)]
    servicesSample.Valid ∧ p.WellFormed ∧ q.WellFormed ∧ servicesSample.value? p.text = none ∧
      steps.map Prod.fst = p.segments ∧ servicesSample.value? q.text = some (.int 3) ∧
      (∃ whole last : Record Nat, servicesSample.apply (.path p) ⟨5, 0⟩ = .ok whole ∧
        servicesSample.selectSteps steps = .ok last ∧ (last == whole) = true ∧
        whole.fields = cellSample.fields ∧ whole.service = 9 ∧ last.service = 9) ∧
      ∃ whole : Record Nat, servicesSample.apply (.path q) ⟨6, 0⟩ = .ok whole ∧
        whole.fields = [] := by
  intro p q steps
  have hcell : cellSample.Valid :=
    .intro ⟨by decide, by decide, by simp [cellSample]⟩ fun inner hinner => by
      simp [cellSample, Record.values] at hinner
  have hmiddle : Record.Valid ⟨[("b".toList, .record cellSample)], ⟨1, 0⟩, 8⟩ := by
    refine .intro ⟨by decide, by decide, by simp⟩ fun inner hinner => ?_
    have hinner : inner = cellSample := by simpa [Record.values] using hinner
    rwa [hinner]
  have hvalid : servicesSample.Valid := by
    refine .intro ⟨by decide, by decide, by simp [servicesSample]⟩ fun inner hinner => ?_
    have hinner : inner = ⟨[("b".toList, .record cellSample)], ⟨1, 0⟩, 8⟩ := by
      simpa [servicesSample, Record.values] using hinner
    rwa [hinner]
  have hp : p.WellFormed := ⟨by decide, by decide, by decide, by decide⟩
  have hq : q.WellFormed := ⟨by decide, by decide, by decide, by decide⟩
  have hnone : servicesSample.value? p.text = none := rfl
  have hsteps : steps.map Prod.fst = p.segments := rfl
  have hshadow : servicesSample.value? q.text = some (.int 3) := rfl
  obtain ⟨whole, projected, hwhole, hprojected, hservice, -, hstepwise, -, hinner, -⟩ :=
    path_selects_stepwise hvalid hp ⟨5, 0⟩ ⟨7, 0⟩
  obtain ⟨last, hlast, hequal, hlastService⟩ := (hstepwise hnone steps hsteps).1
  have hfields : projected.fields = [(p.text, .record cellSample)] := by
    cases hprojected
    rfl
  obtain ⟨shadowed, -, hshadowed, -, -, -, -, hliteral, -⟩ :=
    path_selects_stepwise hvalid hq ⟨6, 0⟩ ⟨7, 0⟩
  exact ⟨hvalid, hp, hq, hnone, hsteps, hshadow,
    ⟨whole, last, hwhole, hlast, hequal, hinner cellSample hfields, hservice, hlastService⟩,
    shadowed, hshadowed, (hliteral _ hshadow).1⟩

end DataPipeline
