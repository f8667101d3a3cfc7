import DataPipeline.Proofs.Record.Reprojection

/-!
# Selecting fields by name

The names of fields, listed in braces, select these fields: a name is looked up
as a whole before it is read as a path, so it does not matter what a name with
dots could mean as a path. Only the commas and the blanks of a name can be in
the way, because commas end it and blanks around its parts are trimmed.
-/

namespace DataPipeline

open Text

/-- A name that can be listed: it has no comma, and what stands before, between
and after its dots neither is empty nor begins or ends with a blank. -/
structure PlainName (n : Text) : Prop where
  /-- No comma ends it. -/
  commaless : ',' ∉ n
  /-- Nothing is missing between its dots. -/
  named : [] ∉ n.splitOn '.'
  /-- Nothing between its dots is trimmed. -/
  trimmed : ∀ s ∈ n.splitOn '.', IsTrimmed s

namespace PlainName

variable {n : Text}

/-- The path of such a name is written like the name. -/
theorem text_ofText (h : PlainName n) : (FieldPath.ofText n).text = n :=
  FieldPath.text_ofText h.trimmed

theorem listable (h : PlainName n) : Listable n where
  named s hs := by
    have hne : s ≠ [] := fun hnil => h.named (hnil ▸ hs)
    rw [Bool.eq_false_iff]
    intro hblank
    have htrim := trim_eq_self_iff.mpr (h.trimmed s hs)
    rw [trim_eq_nil_iff.mpr hblank] at htrim
    exact hne htrim.symm
  commaless := h.commaless

end PlainName

/-- Without repeats nothing is left out. -/
theorem eraseDups_of_nodup {names : List Text} (h : names.Nodup) : names.eraseDups = names := by
  induction names with
  | nil => rfl
  | cons name names ih =>
    obtain ⟨hnew, hrest⟩ := List.nodup_cons.mp h
    have hfilter : names.filter (fun other => !other == name) = names := by
      rw [List.filter_eq_self]
      intro other hother
      have hne : other ≠ name := fun heq => hnew (heq ▸ hother)
      simpa using hne
    rw [List.eraseDups_cons, hfilter, ih hrest]

namespace Record

variable {σ : Type} {r s : Record σ} {ns : List Text} {n : Text}

/-- A record with distinct names is known by its names and by the value of each
of them. -/
theorem fields_eq_of_value?_eq (hdistinct : r.names.Nodup) (hnames : s.names = r.names)
    (hvalues : ∀ n ∈ r.names, s.value? n = r.value? n) : s.fields = r.fields := by
  have hdistinct' : s.names.Nodup := by rwa [hnames]
  have hlength : s.fields.length = r.fields.length := by
    simpa [names] using congrArg List.length hnames
  refine List.ext_getElem hlength fun i hi hi' => ?_
  have hname : s.fields[i].1 = r.fields[i].1 := by
    have hat := congrArg (fun names => names[i]?) hnames
    simpa [names, hi, hi'] using hat
  have hvalue : s.value? s.fields[i].1 = some s.fields[i].2 :=
    (value?_eq_some_iff hdistinct').mpr (List.getElem_mem hi)
  have hvalue' : r.value? r.fields[i].1 = some r.fields[i].2 :=
    (value?_eq_some_iff hdistinct).mpr (List.getElem_mem hi')
  have hmem : r.fields[i].1 ∈ r.names := List.mem_map_of_mem (List.getElem_mem hi')
  rw [hname, hvalues _ hmem, hvalue', Option.some.injEq] at hvalue
  exact Prod.ext hname hvalue.symm

/-- The name of a field, read as a path, resolves to this field. -/
theorem resolve_ofText (hplain : PlainName n) (hn : n ∈ r.names) :
    ∃ v, r.value? n = some v ∧ r.resolve (.ofText n) = some v := by
  have hsome : r.value? n ≠ none := fun hnone => value?_eq_none_iff.mp hnone hn
  obtain ⟨v, hv⟩ := Option.ne_none_iff_exists'.mp hsome
  exact ⟨v, hv, by rw [resolve, hplain.text_ofText, hv, Option.some_or]⟩

/-- The projection onto names of fields has these names, without repeats. -/
theorem names_projected_ofText (stamp : Stamp) (hplain : ∀ n ∈ ns, PlainName n)
    (hfields : ∀ n ∈ ns, n ∈ r.names) :
    (r.projected (ns.map .ofText) stamp).names = ns.eraseDups := by
  have hresolve : (ns.map FieldPath.ofText).filter (fun p => (r.resolve p).isSome) =
      ns.map .ofText := by
    rw [List.filter_eq_self]
    intro p hp
    obtain ⟨n, hn, rfl⟩ := List.mem_map.mp hp
    obtain ⟨v, -, hv⟩ := resolve_ofText (hplain n hn) (hfields n hn)
    rw [hv, Option.isSome_some]
  have htexts : (ns.map FieldPath.ofText).map FieldPath.text = ns := by
    rw [List.map_map]
    exact (List.map_congr_left fun n hn => (hplain n hn).text_ofText).trans (List.map_id ns)
  rw [names, projected, names_projectFields, hresolve, htexts, List.map_nil, List.nil_append,
    List.removeAll]
  simp

/-- The projection onto names of fields holds what the fields hold. -/
theorem value?_projected_ofText (stamp : Stamp) (hplain : ∀ n ∈ ns, PlainName n)
    (hfields : ∀ n ∈ ns, n ∈ r.names) (hn : n ∈ ns) :
    ∃ v, r.value? n = some v ∧ (r.projected (ns.map .ofText) stamp).value? n = some v := by
  have hwell : ∀ p ∈ ns.map FieldPath.ofText, p.WellFormed :=
    FieldPath.wellFormed_of_mem_map fun n hn => (hplain n hn).listable.named
  obtain ⟨v, hv, hresolve⟩ := resolve_ofText (hplain n hn) (hfields n hn)
  have hvalue := value?_projected r stamp hwell (List.mem_map_of_mem hn)
  rw [(hplain n hn).text_ofText, hresolve] at hvalue
  exact ⟨v, hv, hvalue⟩

end Record

/-- A list of names of fields in braces selects these fields in the order of
their first mention, each with its value, with any blanks around the commas.
The list of all names selects a record that is equal to the one it is selected
from. -/
theorem select_names {σ : Type} {r : Record σ} (valid : r.Valid) {ns : List Text} (hne : ns ≠ [])
    (hfields : ∀ n ∈ ns, n ∈ r.names) (hplain : ∀ n ∈ ns, PlainName n) {before after : Text}
    (hbefore : isAllBlank before = true) (hafter : isAllBlank after = true) (stamp : Stamp) :
    ∃ s, r.select (Selection.listing (before ++ ',' :: after) ns) stamp = .ok s ∧
      s.names = ns.eraseDups ∧
      (∀ n ∈ ns, ∃ v, r.value? n = some v ∧ s.value? n = some v) ∧
      (ns = r.names → (s == r) = true) := by
  have hselect := Record.select_listing valid hne (fun n hn => (hplain n hn).listable) hbefore
    hafter stamp
  have hnames := Record.names_projected_ofText stamp hplain hfields
  have hvalues (n : Text) (hn : n ∈ ns) :=
    Record.value?_projected_ofText stamp hplain hfields hn
  refine ⟨_, hselect, hnames, hvalues, ?_⟩
  rintro rfl
  have hdistinct : r.names.Nodup := valid.shape.distinct
  rw [eraseDups_of_nodup hdistinct] at hnames
  refine Record.beq_of_fields_eq (Record.fields_eq_of_value?_eq hdistinct hnames fun n hn => ?_)
  obtain ⟨v, hv, hv'⟩ := hvalues n hn
  rw [hv, hv']

/-- A record whose names are those of expressions, and one of them reads like a
path into another field. -/
def expressionNamesSample : Record Unit :=
  ⟨[("*".toList, .int 1), ("\x7bx\x7d".toList, .int 2), ("a.b".toList, .int 3),
    ("a".toList, .record ⟨[("b".toList, .int 4)], ⟨0, 0⟩, ()⟩)], ⟨1, 0⟩, ()⟩

/-- The name with a dot is selected twice and is not read as a path. -/
theorem select_names_sample :
    let ns := ["a.b".toList, "\x7bx\x7d".toList, "a.b".toList, "*".toList]
    expressionNamesSample.Valid ∧ ns ≠ [] ∧ (∀ n ∈ ns, n ∈ expressionNamesSample.names) ∧
      (∀ n ∈ ns, PlainName n) ∧ isAllBlank " ".toList = true ∧ isAllBlank "\t ".toList = true ∧
      (∃ s, expressionNamesSample.select
            (Selection.listing (" ".toList ++ ',' :: "\t ".toList) ns) ⟨2, 0⟩ = .ok s ∧
          s.names = ["a.b".toList, "\x7bx\x7d".toList, "*".toList] ∧
          s.value? "a.b".toList = some (.int 3)) ∧
      ∃ s, expressionNamesSample.select (Selection.listing ([] ++ ',' :: [])
          expressionNamesSample.names) ⟨3, 0⟩ = .ok s ∧ (s == expressionNamesSample) = true := by
  intro ns
  have hvalid : expressionNamesSample.Valid := by
    refine .intro ⟨by decide, by decide, by simp [expressionNamesSample]⟩ fun inner hinner => ?_
    have hinner : inner = ⟨[("b".toList, .int 4)], ⟨0, 0⟩, ()⟩ := by
      simpa [expressionNamesSample, Record.values] using hinner
    rw [hinner]
    exact .intro ⟨by decide, by decide, by simp⟩ fun inner hinner => by
      simp [Record.values] at hinner
  have hne : ns ≠ [] := List.cons_ne_nil _ _
  have hfields : ∀ n ∈ ns, n ∈ expressionNamesSample.names := by decide
  have hplain : ∀ n ∈ ns, PlainName n := fun n hn =>
    ⟨by revert n; decide, by revert n; decide, by revert n; decide⟩
  have hall : ∀ n ∈ expressionNamesSample.names, PlainName n := fun n hn =>
    ⟨by revert n; decide, by revert n; decide, by revert n; decide⟩
  have hspace : isAllBlank " ".toList = true := by decide
  have htab : isAllBlank "\t ".toList = true := by decide
  obtain ⟨s, hs, hnames, hvalues, -⟩ := select_names hvalid hne hfields hplain hspace htab ⟨2, 0⟩
  obtain ⟨v, hv, hv'⟩ := hvalues _ List.mem_cons_self
  cases hv
  have hblank : isAllBlank [] = true := by decide
  obtain ⟨s', hs', -, -, hequal⟩ :=
    select_names hvalid (List.cons_ne_nil _ _) (fun n hn => hn) hall hblank hblank ⟨3, 0⟩
  exact ⟨hvalid, hne, hfields, hplain, hspace, htab, ⟨s, hs, hnames.trans (by decide), hv'⟩,
    s', hs', hequal rfl⟩

end DataPipeline
