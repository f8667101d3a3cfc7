import DataPipeline.Proofs.Record.Equality
import DataPipeline.Proofs.Record.Projection

/-!
# Projecting again

A projection holds the values of its paths under the texts of the paths, so a
path that descended into a nested record before is a field of its own
afterwards. Nevertheless the paths of a projection resolve in it as they did
before. If a path had a value, then so does the field named like it. If it had
none, then its first name can still be a path of the projection, but what is
found below it was there before. Projecting onto some of the paths again is
therefore projecting onto them at once.
-/

namespace DataPipeline

open Text

namespace Record

variable {σ : Type} {r : Record σ} {paths others : List FieldPath} {p : FieldPath}
  {stamp : Stamp} {v : Value σ}

/-- The record that a projection gives. -/
def projected (r : Record σ) (paths : List FieldPath) (stamp : Stamp) : Record σ :=
  ⟨r.projectFields [] paths, stamp, r.service⟩

theorem apply_project (valid : r.Valid) (h : ∀ q ∈ paths, q.WellFormed) (stamp : Stamp) :
    r.apply (.project paths) stamp = .ok (r.projected paths stamp) := by
  have hpaths : ∀ q ∈ (Selection.project paths).paths, q.WellFormed := h
  exact apply_of_valid valid hpaths stamp

/-- A path of one name resolves to the field of this name. -/
theorem resolve_singleton (r : Record σ) (name : Text) : r.resolve ⟨[name]⟩ = r.value? name := by
  rw [resolve, FieldPath.text_singleton, descend, Option.or_self]

/-- Under the text of a path a projection holds what the path resolved to. -/
theorem value?_projected (r : Record σ) (stamp : Stamp) (h : ∀ q ∈ paths, q.WellFormed)
    (hp : p ∈ paths) :
    (r.projected paths stamp).value? p.text = r.resolve p := by
  refine Option.ext fun v => ?_
  rw [value?, projected, lookup_projectFields_eq_some_iff h]
  constructor
  · rintro ⟨q, hq, htext, hv⟩
    rwa [←FieldPath.text_injective (h q hq) (h p hp) htext]
  · intro hv
    exact ⟨p, hp, rfl, hv⟩

/-- A field of a projection without a dot in its name was a field before. -/
theorem value?_of_projected (h : ∀ q ∈ paths, q.WellFormed) {name : Text} (hdot : '.' ∉ name)
    (hv : (r.projected paths stamp).value? name = some v) : r.value? name = some v := by
  obtain ⟨q, hq, rfl, hresolve⟩ := (lookup_projectFields_eq_some_iff h).mp hv
  have hsegments : q.segments = [q.text] := by
    rw [←FieldPath.splitOn_text (h q hq), List.splitOn_eq_singleton hdot]
  have hpath : q = ⟨[q.text]⟩ := by
    obtain ⟨segments⟩ := q
    exact congrArg FieldPath.mk hsegments
  rwa [hpath, resolve_singleton] at hresolve

/-- What a path descends to in a projection, it descended to before, if it is no
field of the projection. -/
theorem descend_of_projected (h : ∀ q ∈ paths, q.WellFormed) (hp : p.WellFormed)
    (hliteral : (r.projected paths stamp).value? p.text = none)
    (hv : (r.projected paths stamp).descend p.segments = some v) :
    r.descend p.segments = some v := by
  obtain ⟨segments⟩ := p
  match segments with
  | [] => exact absurd rfl hp.nonempty
  | [name] =>
    rw [FieldPath.text_singleton] at hliteral
    rw [descend, hliteral] at hv
    cases hv
  | first :: second :: names =>
    rw [descend_cons_cons] at hv ⊢
    cases hparent : (r.projected paths stamp).value? first with
    | none =>
      rw [hparent] at hv
      cases hv
    | some parent =>
      -- Without a dot the first name can only have come from the path of this one name, so
      -- both records hold the same parent under it and the rest of the descent agrees.
      have hdot := hp.dotless first List.mem_cons_self
      rw [value?_of_projected h hdot hparent, ←hparent]
      exact hv

/-- A path that has no value gets none by a projection. -/
theorem resolve_projected_eq_none (h : ∀ q ∈ paths, q.WellFormed) (hp : p.WellFormed)
    (hnone : r.resolve p = none) : (r.projected paths stamp).resolve p = none := by
  obtain ⟨hliteral, hdescend⟩ := Option.or_eq_none_iff.mp hnone
  have hfield : (r.projected paths stamp).value? p.text = none := by
    refine Option.eq_none_iff_forall_ne_some.mpr fun v hv => ?_
    obtain ⟨q, hq, htext, hresolve⟩ := (lookup_projectFields_eq_some_iff h).mp hv
    rw [FieldPath.text_injective (h q hq) hp htext, hnone] at hresolve
    cases hresolve
  refine Option.or_eq_none_iff.mpr ⟨hfield, Option.eq_none_iff_forall_ne_some.mpr fun v hv => ?_⟩
  rw [descend_of_projected h hp hfield hv] at hdescend
  cases hdescend

/-- The paths of a projection resolve in it as they did before. -/
theorem resolve_projected (h : ∀ q ∈ paths, q.WellFormed) (hp : p ∈ paths) :
    (r.projected paths stamp).resolve p = r.resolve p := by
  cases hv : r.resolve p with
  | none => exact resolve_projected_eq_none h (h p hp) hv
  | some v => rw [resolve, value?_projected r stamp h hp, hv, Option.some_or]

/-- Projecting a projection onto some of its paths is projecting at once. -/
theorem projectFields_projected (h : ∀ q ∈ paths, q.WellFormed) (hsub : ∀ q ∈ others, q ∈ paths) :
    (r.projected paths stamp).projectFields [] others = r.projectFields [] others :=
  projectFields_congr fun q hq => resolve_projected h (hsub q hq)

/-- The list of some paths in braces selects the projection onto them. -/
theorem select_listing (valid : r.Valid) {ts : List Text} (hne : ts ≠ [])
    (hlist : ∀ t ∈ ts, Listable t) {left right : Text} (hleft : isAllBlank left = true)
    (hright : isAllBlank right = true) (stamp : Stamp) :
    r.select (Selection.listing (left ++ ',' :: right) ts) stamp =
      .ok (r.projected (ts.map .ofText) stamp) :=
  select_of_parse valid (Selection.parse_listing hne hlist hleft hright) stamp

end Record

/-- Projections compose. Projecting a valid record onto a list of paths and the
result onto some of them gives the same as projecting onto these at once, and
projecting onto the same paths again changes nothing. Paths without a value do
not get one by it, and a path that descended to a value becomes the name of a
field with this value. -/
theorem projections_compose {σ : Type} {r : Record σ} (valid : r.Valid) {ps qs : List Text}
    (hps : ps ≠ []) (hqs : qs ≠ []) (plist : ∀ p ∈ ps, Listable p) (qlist : ∀ q ∈ qs, Listable q)
    (hsub : ∀ q ∈ qs, ∃ p ∈ ps, FieldPath.ofText p = .ofText q) (stamp stamp' stamp'' : Stamp) :
    ∃ first second direct again : Record σ,
      r.select (Selection.listing [','] ps) stamp = .ok first ∧
      first.select (Selection.listing [','] qs) stamp' = .ok second ∧
      r.select (Selection.listing [','] qs) stamp'' = .ok direct ∧ (second == direct) = true ∧
      first.select (Selection.listing [','] ps) stamp' = .ok again ∧ (again == first) = true ∧
      (∀ t, HasNames t → r.resolve (.ofText t) = none → first.resolve (.ofText t) = none) ∧
      ∀ p ∈ ps, ∀ v, r.value? (FieldPath.ofText p).text = none →
        r.descend (FieldPath.ofText p).segments = some v →
          first.value? (FieldPath.ofText p).text = some v := by
  have hnil : isAllBlank [] = true := rfl
  have hwell : ∀ p ∈ ps.map FieldPath.ofText, p.WellFormed :=
    FieldPath.wellFormed_of_mem_map fun p hp => (plist p hp).named
  have hpaths : ∀ q ∈ qs.map FieldPath.ofText, q ∈ ps.map FieldPath.ofText := by
    intro path hpath
    obtain ⟨q, hq, rfl⟩ := List.mem_map.mp hpath
    obtain ⟨p, hp, hsame⟩ := hsub q hq
    exact List.mem_map.mpr ⟨p, hp, hsame⟩
  have hfirst := Record.select_listing valid hps plist hnil hnil stamp
  have hvalid := valid.select hfirst
  refine ⟨_, _, _, _, hfirst, Record.select_listing hvalid hqs qlist hnil hnil stamp',
    Record.select_listing valid hqs qlist hnil hnil stamp'', ?_,
    Record.select_listing hvalid hps plist hnil hnil stamp', ?_, ?_, ?_⟩
  · exact Record.beq_of_fields_eq (Record.projectFields_projected hwell hpaths)
  · exact Record.beq_of_fields_eq (Record.projectFields_projected hwell fun p hp => hp)
  · intro t ht hnone
    exact Record.resolve_projected_eq_none hwell (FieldPath.wellFormed_ofText ht) hnone
  · intro p hp v hliteral hdescend
    rw [Record.value?_projected r stamp hwell (List.mem_map_of_mem hp), Record.resolve, hliteral,
      hdescend, Option.none_or]

/-- A record with a field whose name reads like a path into another one. -/
def nestedSample : Record Unit :=
  ⟨[("a".toList, .record ⟨[("b".toList, .int 1), ("c".toList, .int 2)], ⟨0, 0⟩, ()⟩),
    ("a.c".toList, .int 3)], ⟨1, 0⟩, ()⟩

/-- The name of the second field hides the number below the first one. -/
theorem projections_compose_sample :
    let ps := ["a.b".toList, "a".toList, "a . c".toList, "d".toList]
    let qs := ["a.c".toList, "d".toList, "a.b".toList]
    nestedSample.Valid ∧ ps ≠ [] ∧ qs ≠ [] ∧ (∀ p ∈ ps, Listable p) ∧ (∀ q ∈ qs, Listable q) ∧
      (∀ q ∈ qs, ∃ p ∈ ps, FieldPath.ofText p = .ofText q) ∧
      ∃ first second direct : Record Unit,
        nestedSample.select (Selection.listing [','] ps) ⟨2, 0⟩ = .ok first ∧
        first.select (Selection.listing [','] qs) ⟨3, 0⟩ = .ok second ∧
        nestedSample.select (Selection.listing [','] qs) ⟨4, 0⟩ = .ok direct ∧
        (second == direct) = true ∧ first.resolve (.ofText "d".toList) = none ∧
        first.value? "a.b".toList = some (.int 1) := by
  intro ps qs
  have hvalid : nestedSample.Valid := by
    refine .intro ⟨by decide, by decide, by simp [nestedSample]⟩ fun inner hinner => ?_
    have hinner : inner = ⟨[("b".toList, .int 1), ("c".toList, .int 2)], ⟨0, 0⟩, ()⟩ := by
      simpa [nestedSample, Record.values] using hinner
    rw [hinner]
    exact .intro ⟨by decide, by decide, by simp⟩ fun inner hinner => by
      simp [Record.values] at hinner
  have hps : ps ≠ [] := List.cons_ne_nil _ _
  have hqs : qs ≠ [] := List.cons_ne_nil _ _
  have plist : ∀ p ∈ ps, Listable p := by decide
  have qlist : ∀ q ∈ qs, Listable q := by decide
  have hsub : ∀ q ∈ qs, ∃ p ∈ ps, FieldPath.ofText p = .ofText q := by decide
  obtain ⟨first, second, direct, again, hfirst, hsecond, hdirect, hequal, -, -, hnone, hsome⟩ :=
    projections_compose hvalid hps hqs plist qlist hsub ⟨2, 0⟩ ⟨3, 0⟩ ⟨4, 0⟩
  have hmissing : first.resolve (.ofText "d".toList) = none := hnone _ (by decide) rfl
  have hbelow : first.value? "a.b".toList = some (.int 1) :=
    hsome _ List.mem_cons_self _ rfl rfl
  exact ⟨hvalid, hps, hqs, plist, qlist, hsub, first, second, direct, hfirst, hsecond, hdirect,
    hequal, hmissing, hbelow⟩

end DataPipeline
