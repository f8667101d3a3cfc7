import DataPipeline.Proofs.Definition.Form
import Mathlib.Data.List.Forall2

/-!
# Accepted definitions

The definitions that are accepted are exactly the texts of separated and
admitted forms, and the requests are those of the forms. Each direction is a
main statement: every layout of given modules is read back, and every accepted
text is a layout of the modules that are returned.
-/

namespace DataPipeline.Definition

open Text

/-- How a text goes on behind an open segment, and what it makes of it. -/
structure GoesOn (settings : ParserSettings) (singleModule : Bool) (segment : Segment) (t : Text)
    (found : List Segment) (options : List OptionForm) (trail : Text)
    (later : List SegmentForm) : Prop where
  /-- Options, blanks and further segments follow each other. -/
  text : t = SegmentForm.optionsText options ++ (trail ++ laterText later)
  /-- Only ASCII blanks stand behind the options. -/
  blank : ∀ c ∈ trail, isAsciiBlank c = true
  /-- A value is set off from the next separator. -/
  set_off : later ≠ [] → options ≠ [] ∨ stopsValue t = true → trail ≠ []
  /-- Further segments need separators. -/
  pipes : later ≠ [] → singleModule = false
  /-- Further segments are set off as well. -/
  separated : Separated later
  /-- Further segments respect the settings. -/
  admitted : ∀ f ∈ later, f.Admitted settings
  /-- Something is left of each value where that is required. -/
  given : ∀ o ∈ options, trimEnd o.raw = [] → settings.allowEmptyValues = true
  /-- Where repeated keys are refused, the keys are new and differ. -/
  keys : settings.repeatedKeys = .reject → (options.map OptionForm.key).Nodup ∧
    ∀ o ∈ options, segment.options.contains o.key = false
  /-- The options join the open segment, and the further segments follow. -/
  found : found = { segment with
    options := segment.options.insertAll (options.map OptionForm.entry) } ::
      later.map SegmentForm.segment

section Steps

variable {settings : ParserSettings} {singleModule : Bool} {segment : Segment} {gap rest : Text}
  {found : List Segment}

theorem goesOn_end (hg : ∀ c ∈ gap, isAsciiBlank c = true) :
    GoesOn settings singleModule segment gap [segment] [] gap [] where
  text := (List.append_nil gap).symm
  blank := hg
  set_off := fun h => absurd rfl h
  pipes := fun h => absurd rfl h
  separated := List.forall_mem_nil _
  admitted := List.forall_mem_nil _
  given := List.forall_mem_nil _
  keys := fun _ => ⟨List.nodup_nil, List.forall_mem_nil _⟩
  found := rfl

/-- Behind a separator, which nothing but blanks precedes, stand further
segments. -/
theorem goesOn_pipe {f : SegmentForm} {later : List SegmentForm}
    (hg : ∀ c ∈ gap, isAsciiBlank c = true) (hallowed : singleModule = false)
    (hsep : Separated (f :: later)) (hforms : ∀ g ∈ f :: later, g.Admitted settings) :
    GoesOn settings singleModule segment (gap ++ '|' :: definitionText (f :: later))
      (segment :: (f :: later).map SegmentForm.segment) [] gap (f :: later) where
  text := by
    rw [definitionText_cons]
    rfl
  blank := hg
  set_off := by
    rintro - (hno | hstops) rfl
    · exact hno rfl
    · exact absurd (isAsciiBlank_of_stopsValue hstops) (by decide)
  pipes := fun _ => hallowed
  separated := hsep
  admitted := hforms
  given := List.forall_mem_nil _
  keys := fun _ => ⟨List.nodup_nil, List.forall_mem_nil _⟩
  found := rfl

/-- An option in front is one more option of the open segment. -/
theorem GoesOn.option {o : OptionForm} {options : List OptionForm} {trail : Text}
    {later : List SegmentForm} (hstops : stopsValue rest = true)
    (hgiven : trimEnd o.raw = [] → settings.allowEmptyValues = true)
    (hfresh : settings.repeatedKeys = .reject → segment.options.contains o.key = false)
    (h : GoesOn settings singleModule
      { segment with options := segment.options.insert o.key (trimEnd o.raw) } rest found
      options trail later) :
    GoesOn settings singleModule segment (o.text ++ rest) found (o :: options) trail later where
  text := by
    rw [h.text, SegmentForm.optionsText, SegmentForm.optionsText, List.flatMap_cons,
      List.append_assoc]
  blank := h.blank
  set_off := fun hl _ => h.set_off hl (.inr hstops)
  pipes := h.pipes
  separated := h.separated
  admitted := h.admitted
  given := by
    intro o' ho'
    rcases List.mem_cons.mp ho' with rfl | ho'
    · exact hgiven
    · exact h.given o' ho'
  keys := by
    intro hp
    obtain ⟨hd, hnew⟩ := h.keys hp
    have hsplit : ∀ o' ∈ options, o'.key ≠ o.key ∧ segment.options.contains o'.key = false := by
      intro o' ho'
      have hc := hnew o' ho'
      rw [OptionMap.contains_insert, Bool.or_eq_false_iff, decide_eq_false_iff_not] at hc
      exact hc
    refine ⟨?_, fun o' ho' => ?_⟩
    · rw [List.map_cons, List.nodup_cons]
      refine ⟨fun hm => ?_, hd⟩
      obtain ⟨o', ho', heq⟩ := List.mem_map.mp hm
      exact (hsplit o' ho').1 heq
    · rcases List.mem_cons.mp ho' with rfl | ho'
      · exact hfresh hp
      · exact (hsplit o' ho').2
  found := h.found

/-- A name with what follows it is the form of a segment. -/
theorem GoesOn.forms {name : Text} {options : List OptionForm} {trail : Text}
    {later : List SegmentForm} (hg : ∀ c ∈ gap, isAsciiBlank c = true) (hname : IsIdent name)
    (h : GoesOn settings singleModule ⟨name, .empty⟩ rest found options trail later) :
    ∃ f later, gap ++ (name ++ rest) = definitionText (f :: later) ∧
      (later ≠ [] → singleModule = false) ∧ Separated (f :: later) ∧
      (∀ g ∈ f :: later, g.Admitted settings) ∧
      found = (f :: later).map SegmentForm.segment := by
  refine ⟨⟨gap, name, options, trail, hg, hname, h.blank⟩, later, ?_, h.pipes, ?_, ?_, ?_⟩
  · rw [definitionText_cons]
    simp only [SegmentForm.text, List.append_assoc]
    rw [h.text]
  · exact separated_cons.mpr ⟨fun hl ho => h.set_off hl (.inl ho), h.separated⟩
  · intro g hg
    rcases List.mem_cons.mp hg with rfl | hg
    · exact ⟨fun hp => (h.keys hp).1, h.given⟩
    · exact h.admitted g hg
  · exact h.found

end Steps

/-- Tokens that make segments belong to forms: where a name is due, the text
is one of forms, and behind a name it goes on as a form does. -/
theorem forms_of_lexes {settings : ParserSettings} {singleModule nameDue : Bool} {offset : Nat}
    {t : Text} {tokens : List Token}
    (h : Lexes (settings.dialect singleModule) nameDue offset t tokens) :
    (nameDue = true → ∀ found, Groups settings.repeatedKeys none (tokens.map Token.kind) found →
      ∃ f later, t = definitionText (f :: later) ∧ (later ≠ [] → singleModule = false) ∧
        Separated (f :: later) ∧ (∀ g ∈ f :: later, g.Admitted settings) ∧
        found = (f :: later).map SegmentForm.segment) ∧
    (nameDue = false → endsName t = true → ∀ segment found,
      Groups settings.repeatedKeys (some segment) (tokens.map Token.kind) found →
      ∃ options trail later, GoesOn settings singleModule segment t found options trail later) := by
  induction h with
  | @done nameDue offset gap blank =>
    constructor
    · intro _ found hgroups
      cases hgroups
    · intro _ _ segment found hgroups
      cases hgroups
      exact ⟨[], gap, [], goesOn_end blank⟩
  | @token nameDue offset gap rest l tokens blank stands next ih =>
    cases stands with
    | pipe allowed =>
      constructor
      · intro _ found hgroups
        cases hgroups
      · intro _ _ segment found hgroups
        cases hgroups with
        | pipe hnext =>
          obtain ⟨f, later, rfl, hpipes, hsep, hforms, rfl⟩ := ih.1 rfl _ hnext
          exact ⟨[], gap, f :: later, goesOn_pipe blank allowed hsep hforms⟩
    | @name name _ ident ends =>
      constructor
      · intro _ found hgroups
        cases hgroups with
        | name hnext =>
          obtain ⟨options, trail, later, hgoes⟩ := ih.2 rfl ends _ _ hnext
          exact hgoes.forms blank ident
      · intro hno
        cases hno
    | @option key raw _ ident delimitable given stops =>
      constructor
      · intro hno
        cases hno
      · intro _ hends segment found hgroups
        cases hgroups with
        | option fresh hnext =>
          have hgap : gap ≠ [] := by
            rintro rfl
            exact absurd rfl (boundary_character hends).2.2.1
          obtain ⟨options, trail, later, hgoes⟩ :=
            ih.2 rfl (endsName_of_stopsValue stops) _ _ hnext
          have ho := GoesOn.option (o := ⟨gap, key, raw, blank, hgap, ident, delimitable⟩)
            stops given fresh hgoes
          rw [OptionForm.text, List.append_assoc] at ho
          exact ⟨_, trail, later, ho⟩

/-- Segments are read exactly from the texts of separated and admitted forms,
of which there is one where a single module is due. -/
theorem segments_eq_ok_iff_forms {settings : ParserSettings} {singleModule : Bool} {text : Text}
    {found : List Segment} :
    segments settings singleModule text = .ok found ↔
      ∃ forms, forms ≠ [] ∧ (singleModule = true → forms.length = 1) ∧ Separated forms ∧
        (∀ f ∈ forms, f.Admitted settings) ∧ text = definitionText forms ∧
        found = forms.map SegmentForm.segment := by
  constructor
  · intro h
    obtain ⟨kinds, hsays, hgroups⟩ := segments_eq_ok_iff.mp h
    obtain ⟨tokens, hlexes, rfl⟩ := hsays 0
    obtain ⟨f, later, htext, hpipes, hsep, hforms, hfound⟩ :=
      (forms_of_lexes hlexes).1 rfl found hgroups
    refine ⟨f :: later, List.cons_ne_nil _ _, fun hsingle => ?_, hsep, hforms, htext, hfound⟩
    have hnone : later = [] := by
      by_contra hl
      rw [hpipes hl] at hsingle
      cases hsingle
    rw [hnone]
    rfl
  · rintro ⟨forms, hne, hsingle, hsep, hforms, rfl, rfl⟩
    exact segments_definitionText hne hsingle hsep hforms

/-- Under a proper name, separated and admitted forms give the requests of the
segments that are meant. -/
theorem parse_of_forms {settings : ParserSettings} {group : Text} {forms : List SegmentForm}
    (hgroup : isAllBlank group = false) (hne : forms ≠ []) (hsep : Separated forms)
    (hforms : ∀ f ∈ forms, f.Admitted settings) :
    parse settings group (definitionText forms) =
      .ok (requestsOf group (forms.map SegmentForm.segment)).reverse :=
  parse_eq_ok_iff.mpr ⟨hgroup, _,
    segments_definitionText hne (fun hno => absurd hno Bool.false_ne_true) hsep hforms, rfl⟩

/-- Requests stand in the order of the forms and carry their segments. -/
theorem forall₂_requestsOf {group : Text} {R : SegmentForm → Request → Prop}
    {forms : List SegmentForm}
    (h : ∀ f ∈ forms, ∀ index role, R f ⟨f.name, group, index, role, f.segment.options⟩) :
    List.Forall₂ R forms (requestsOf group (forms.map SegmentForm.segment)) := by
  rw [List.forall₂_iff_get]
  refine ⟨by simp [requestsOf], fun i hi hj => ?_⟩
  have hget : (requestsOf group (forms.map SegmentForm.segment)).get ⟨i, hj⟩ =
      ⟨(forms.get ⟨i, hi⟩).name, group, i, Role.atPosition i forms.length,
        (forms.get ⟨i, hi⟩).segment.options⟩ := by
    simp [requestsOf, SegmentForm.segment]
  rw [hget]
  exact h _ (List.get_mem forms _) i _

/-- Every layout of modules is read back. Whatever the settings, forms with
distinct keys and with trimmed values, empty ones only where allowed, give one
request for each form, in reverse order. A request has the name of its form,
and its options are exactly the keys with their values unchanged. -/
theorem parse_definitionText {settings : ParserSettings} {group : Text} {forms : List SegmentForm}
    (hgroup : isAllBlank group = false) (hne : forms ≠ []) (hsep : Separated forms)
    (hkeys : ∀ f ∈ forms, (f.options.map OptionForm.key).Nodup)
    (htrimmed : ∀ f ∈ forms, ∀ o ∈ f.options, trimEnd o.raw = o.raw)
    (hgiven : ∀ f ∈ forms, ∀ o ∈ f.options, o.raw = [] → settings.allowEmptyValues = true) :
    ∃ requests, parse settings group (definitionText forms) = .ok requests ∧
      List.Forall₂ (fun f r => r.moduleName = f.name ∧ ∀ key value,
        r.options.get? key = some value ↔ ∃ o ∈ f.options, o.key = key ∧ o.raw = value)
        forms requests.reverse := by
  have hadmitted : ∀ f ∈ forms, f.Admitted settings := by
    intro f hf
    refine ⟨fun _ => hkeys f hf, fun o ho hempty => hgiven f hf o ho ?_⟩
    rw [←htrimmed f hf o ho, hempty]
  have hsegments : segments settings false (definitionText forms) =
      .ok (forms.map SegmentForm.segment) :=
    segments_definitionText hne (fun hno => absurd hno Bool.false_ne_true) hsep hadmitted
  refine ⟨_, parse_eq_ok_iff.mpr ⟨hgroup, _, hsegments, rfl⟩, ?_⟩
  rw [List.reverse_reverse]
  refine forall₂_requestsOf fun f hf index role => ⟨rfl, fun key value => ?_⟩
  have hfst : f.entries.map Prod.fst = f.options.map OptionForm.key := by
    rw [SegmentForm.entries, List.map_map]
    rfl
  change (OptionMap.ofList f.entries).get? key = some value ↔ _
  rw [OptionMap.get?_ofList_eq_some_iff (hfst ▸ hkeys f hf), SegmentForm.entries, List.mem_map]
  constructor
  · rintro ⟨o, ho, heq⟩
    obtain ⟨hkey, hvalue⟩ := Prod.mk.inj heq
    exact ⟨o, ho, hkey, by rw [←hvalue, htrimmed f hf o ho]⟩
  · rintro ⟨o, ho, rfl, rfl⟩
    exact ⟨o, ho, by rw [OptionForm.entry, htrimmed f hf o ho]⟩

/-- Two modules in a narrow layout; the values hold a `|`, a `--` and quotes
behind other characters than blanks, blanks, and nothing at all. -/
def sampleForms : List SegmentForm :=
  have blank : ∀ {gap : Text}, gap.all isAsciiBlank = true → ∀ c ∈ gap, isAsciiBlank c = true :=
    List.all_eq_true.mp
  [⟨"\t".toList, "http".toList,
    [⟨"  ".toList, "query".toList, " a|b--c == 'd  é'".toList,
      blank (by decide), by decide, by decide, by decide⟩,
     ⟨"\n".toList, "x-1".toList, [], blank (by decide), by decide, by decide, by decide⟩],
    " ".toList, blank (by decide), by decide, blank (by decide)⟩,
   ⟨[], "log".toList, [], [], blank (by decide), by decide, blank (by decide)⟩]

theorem parse_definitionText_sample :
    isAllBlank "s".toList = false ∧ sampleForms ≠ [] ∧ Separated sampleForms ∧
      (∀ f ∈ sampleForms, (f.options.map OptionForm.key).Nodup) ∧
      (∀ f ∈ sampleForms, ∀ o ∈ f.options, trimEnd o.raw = o.raw) ∧
      (∀ f ∈ sampleForms, ∀ o ∈ f.options, o.raw = [] →
        (⟨.reject, true⟩ : ParserSettings).allowEmptyValues = true) ∧
      ∃ requests, parse ⟨.reject, true⟩ "s".toList
          "\thttp  --query= a|b--c == 'd  é'\n--x-1= |log".toList = .ok requests ∧
        List.Forall₂ (fun f r => r.moduleName = f.name ∧ ∀ key value,
          r.options.get? key = some value ↔ ∃ o ∈ f.options, o.key = key ∧ o.raw = value)
          sampleForms requests.reverse := by
  have hgroup : isAllBlank "s".toList = false := by decide
  have hne : sampleForms ≠ [] := List.cons_ne_nil _ _
  have hsep : Separated sampleForms := by decide
  have hkeys : ∀ f ∈ sampleForms, (f.options.map OptionForm.key).Nodup := by decide
  have htrimmed : ∀ f ∈ sampleForms, ∀ o ∈ f.options, trimEnd o.raw = o.raw := by decide
  have hgiven : ∀ f ∈ sampleForms, ∀ o ∈ f.options, o.raw = [] →
      (⟨.reject, true⟩ : ParserSettings).allowEmptyValues = true := fun _ _ _ _ _ => rfl
  have htext : "\thttp  --query= a|b--c == 'd  é'\n--x-1= |log".toList =
      definitionText sampleForms := by decide
  rw [htext]
  exact ⟨hgroup, hne, hsep, hkeys, htrimmed, hgiven,
    parse_definitionText hgroup hne hsep hkeys htrimmed hgiven⟩

/-- Nothing else is accepted. Whatever the settings, an accepted text is made
of separated and admitted forms, and there is one request for each form, in
reverse order. A request has the name of its form and, for each key, the value
without trailing blanks that the form gives last. -/
theorem forms_of_parse {settings : ParserSettings} {group text : Text} {requests : List Request}
    (h : parse settings group text = .ok requests) :
    ∃ forms, forms ≠ [] ∧ text = definitionText forms ∧ Separated forms ∧
      (∀ f ∈ forms, f.Admitted settings) ∧
      List.Forall₂ (fun f r => r.moduleName = f.name ∧
        ∀ key, r.options.get? key = f.entries.reverse.lookup key) forms requests.reverse := by
  obtain ⟨-, found, hsegments, rfl⟩ := parse_eq_ok_iff.mp h
  obtain ⟨forms, hne, -, hsep, hforms, htext, rfl⟩ := segments_eq_ok_iff_forms.mp hsegments
  refine ⟨forms, hne, htext, hsep, hforms, ?_⟩
  rw [List.reverse_reverse]
  exact forall₂_requestsOf fun f _ index role => ⟨rfl, OptionMap.get?_ofList f.entries⟩

theorem forms_of_parse_sample :
    parse ⟨.reject, true⟩ "s".toList (definitionText sampleForms) =
        .ok (requestsOf "s".toList (sampleForms.map SegmentForm.segment)).reverse ∧
      ∃ forms, forms ≠ [] ∧ definitionText sampleForms = definitionText forms ∧
        Separated forms ∧ (∀ f ∈ forms, f.Admitted ⟨.reject, true⟩) ∧
        List.Forall₂ (fun f r => r.moduleName = f.name ∧
          ∀ key, r.options.get? key = f.entries.reverse.lookup key) forms
          (requestsOf "s".toList (sampleForms.map SegmentForm.segment)).reverse.reverse := by
  have hforms : ∀ f ∈ sampleForms, f.Admitted ⟨.reject, true⟩ := by
    have hkeys : ∀ f ∈ sampleForms, (f.options.map OptionForm.key).Nodup := by decide
    exact fun f hf => ⟨fun _ => hkeys f hf, fun _ _ _ => rfl⟩
  have hsegments : segments ⟨.reject, true⟩ false (definitionText sampleForms) =
      .ok (sampleForms.map SegmentForm.segment) :=
    segments_definitionText (by decide) (by decide) (by decide) hforms
  have hgroup : isAllBlank "s".toList = false := by decide
  have hparse := parse_eq_ok_iff.mpr ⟨hgroup, _, hsegments, rfl⟩
  exact ⟨hparse, forms_of_parse hparse⟩

/-- Two modules, of which the first one repeats a key, with nothing as its last
value, and has a no-break space at the end of another value. -/
def repeatedForms : List SegmentForm :=
  have blank : ∀ {gap : Text}, gap.all isAsciiBlank = true → ∀ c ∈ gap, isAsciiBlank c = true :=
    List.all_eq_true.mp
  [⟨"\n".toList, "m".toList,
    [⟨" ".toList, "z".toList, "1".toList, blank (by decide), by decide, by decide, by decide⟩,
     ⟨"\t ".toList, "a".toList, "x|y\u00a0".toList,
      blank (by decide), by decide, by decide, by decide⟩,
     ⟨" ".toList, "z".toList, [], blank (by decide), by decide, by decide, by decide⟩],
    " ".toList, blank (by decide), by decide, blank (by decide)⟩,
   ⟨[], "log".toList, [], [], blank (by decide), by decide, blank (by decide)⟩]

/-- The most lenient settings admit every form. -/
theorem SegmentForm.admitted_lenient (f : SegmentForm) : f.Admitted ⟨.lastWins, true⟩ :=
  ⟨fun hno => RepeatPolicy.noConfusion hno, fun _ _ _ => rfl⟩

/-- Repeated keys and empty values are read where the settings allow both. -/
theorem parse_repeatedForms :
    parse ⟨.lastWins, true⟩ "s".toList "\nm --z=1\t --a=x|y\u00a0 --z= |log".toList =
      .ok (requestsOf "s".toList (repeatedForms.map SegmentForm.segment)).reverse := by
  have htext : "\nm --z=1\t --a=x|y\u00a0 --z= |log".toList = definitionText repeatedForms := by
    decide
  rw [htext]
  exact parse_of_forms (by decide) (by decide) (by decide) fun f _ => f.admitted_lenient

/-- So are those of the first module alone. -/
theorem parameters_repeatedForms :
    parameters ⟨.lastWins, true⟩ "\nm --z=1\t --a=x|y\u00a0 --z= ".toList =
      .ok (.ofList [("a".toList, "x|y".toList), ("z".toList, [])]) := by
  have htext : "\nm --z=1\t --a=x|y\u00a0 --z= ".toList =
      definitionText (repeatedForms.take 1) := by decide
  rw [htext, parameters_eq, segments_definitionText (by decide) (by decide) (by decide)
    fun f _ => f.admitted_lenient]
  decide

end DataPipeline.Definition
