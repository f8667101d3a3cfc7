import DataPipeline.Definition.Pipeline
import DataPipeline.Proofs.Definition.OptionLookup
import DataPipeline.Proofs.Definition.SegmentRun

/-!
# Written forms of pipelines

A form is one way to write down a module: its name and options together with
the blanks around them. The forms of a pipeline are joined by `|`. What such a
text says is read off its forms, and it makes one segment of each.
-/

namespace DataPipeline.Definition

open Text

/-- One way to write an option behind a module name. -/
structure OptionForm where
  /-- The blanks before the option. -/
  gap : Text
  /-- The key. -/
  key : Text
  /-- The value as it is written, with the blanks at its end that are trimmed. -/
  raw : Text
  /-- Only ASCII blanks separate. -/
  gap_blank : ∀ c ∈ gap, isAsciiBlank c = true
  /-- An option is set off by at least one blank. -/
  gap_ne_nil : gap ≠ []
  /-- Keys are identifiers. -/
  key_ident : IsIdent key
  /-- The value does not stop inside and has no ASCII blank at its end. -/
  raw_delimitable : IsDelimitable raw
  deriving DecidableEq

/-- One way to write a module with its options. -/
structure SegmentForm where
  /-- The blanks before the name. -/
  lead : Text
  /-- The name. -/
  name : Text
  /-- The options in the order of the text. -/
  options : List OptionForm
  /-- The blanks behind the name and the options. -/
  trail : Text
  /-- Only ASCII blanks stand before the name. -/
  lead_blank : ∀ c ∈ lead, isAsciiBlank c = true
  /-- Names are identifiers. -/
  name_ident : IsIdent name
  /-- Only ASCII blanks stand at the end. -/
  trail_blank : ∀ c ∈ trail, isAsciiBlank c = true
  deriving DecidableEq

namespace OptionForm

/-- The characters of the option with the blanks before it. -/
def text (o : OptionForm) : Text := o.gap ++ optionText o.key o.raw

/-- The key with the value that is meant, which has no blanks at its end. -/
def entry (o : OptionForm) : Text × Text := (o.key, trimEnd o.raw)

/-- What the token of the option says. -/
def kind (o : OptionForm) : TokenKind := .option o.key (trimEnd o.raw)

end OptionForm

namespace SegmentForm

/-- The characters of the options. -/
def optionsText (options : List OptionForm) : Text := options.flatMap OptionForm.text

/-- The characters of the segment. -/
def text (f : SegmentForm) : Text := f.lead ++ (f.name ++ (optionsText f.options ++ f.trail))

/-- The keys and values in the order of the text. -/
def entries (f : SegmentForm) : List (Text × Text) := f.options.map OptionForm.entry

/-- The segment that is meant; of a repeated key the last value counts. -/
def segment (f : SegmentForm) : Segment := ⟨f.name, .ofList f.entries⟩

/-- What the tokens of the segment say. -/
def kinds (f : SegmentForm) : List TokenKind := .name f.name :: f.options.map OptionForm.kind

/-- The form respects the settings: keys differ if repeated keys are refused,
and values are nonempty unless empty ones are allowed. -/
structure Admitted (settings : ParserSettings) (f : SegmentForm) : Prop where
  /-- No key stands twice where that is refused. -/
  keys : settings.repeatedKeys = .reject → (f.options.map OptionForm.key).Nodup
  /-- Something is left of each value where that is required. -/
  given : ∀ o ∈ f.options, trimEnd o.raw = [] → settings.allowEmptyValues = true

end SegmentForm

/-- The text of a pipeline: its forms joined by `|`. -/
def definitionText (forms : List SegmentForm) : Text :=
  ['|'].intercalate (forms.map SegmentForm.text)

/-- A value at the end of a segment is set off from the next separator. -/
def Separated (forms : List SegmentForm) : Prop :=
  ∀ f ∈ forms.dropLast, f.options ≠ [] → f.trail ≠ []

instance decidableSeparated (forms : List SegmentForm) : Decidable (Separated forms) :=
  inferInstanceAs (Decidable (∀ f ∈ forms.dropLast, f.options ≠ [] → f.trail ≠ []))

/-- The text of further segments, each behind its separator. -/
def laterText (later : List SegmentForm) : Text := later.flatMap fun f => '|' :: f.text

/-- What the tokens of further segments say. -/
def laterKinds (later : List SegmentForm) : List TokenKind :=
  later.flatMap fun f => .pipe :: f.kinds

/-- A definition is written as its first segment and then the later ones. -/
theorem definitionText_cons (f : SegmentForm) (later : List SegmentForm) :
    definitionText (f :: later) = f.text ++ laterText later := by
  induction later generalizing f with
  | nil => simp [definitionText, laterText]
  | cons g later ih =>
    have hg := ih g
    simp only [definitionText, List.map_cons] at hg ⊢
    rw [List.intercalate_cons_cons, hg]
    simp [laterText]

/-- Segments are separated if the first one is and the later ones are. -/
theorem separated_cons {f : SegmentForm} {later : List SegmentForm} :
    Separated (f :: later) ↔
      (later ≠ [] → f.options ≠ [] → f.trail ≠ []) ∧ Separated later := by
  cases later with
  | nil => simp [Separated]
  | cons g later => simp [Separated]

section Boundaries

variable {gap t : Text}

/-- A name may stop before blanks. -/
theorem endsName_blanks (hg : ∀ c ∈ gap, isAsciiBlank c = true) (h : endsName t = true) :
    endsName (gap ++ t) = true := by
  cases gap with
  | nil => exact h
  | cons c gap =>
    rw [List.cons_append, endsName, List.head?_cons]
    exact Bool.or_eq_true_iff.mpr (.inr (hg c List.mem_cons_self))

/-- A value may stop before blanks if it may end behind them. -/
theorem stopsValue_blanks (hg : ∀ c ∈ gap, isAsciiBlank c = true) (hne : gap ≠ [])
    (h : endsValue (t.dropWhile isAsciiBlank) = true) : stopsValue (gap ++ t) = true := by
  obtain ⟨c, gap, rfl⟩ := List.exists_cons_of_ne_nil hne
  rw [List.cons_append, stopsValue, hg c List.mem_cons_self, Bool.true_and,
    List.dropWhile_append_of_pos fun d hd => hg d (List.mem_cons_of_mem _ hd)]
  exact h

/-- A value may stop before any option. -/
theorem OptionForm.stopsValue_text (o : OptionForm) : stopsValue (o.text ++ t) = true := by
  rw [OptionForm.text, List.append_assoc]
  refine stopsValue_blanks o.gap_blank o.gap_ne_nil ?_
  rfl

/-- A name may stop before the later segments. -/
theorem endsName_laterText (later : List SegmentForm) : endsName (laterText later) = true := by
  cases later with
  | nil => rfl
  | cons f later => rfl

/-- A value may stop at the end of its segment, where blanks set off the
separator if one follows. -/
theorem stopsValue_trail {trail : Text} {later : List SegmentForm}
    (ht : ∀ c ∈ trail, isAsciiBlank c = true) (hsep : later ≠ [] → trail ≠ []) :
    stopsValue (trail ++ laterText later) = true := by
  by_cases hne : trail = []
  · have hl : later = [] := by
      by_contra hl
      exact hsep hl hne
    rw [hne, hl]
    rfl
  · refine stopsValue_blanks ht hne ?_
    cases later with
    | nil => rfl
    | cons f later => rfl

end Boundaries

section Reading

variable {d : Dialect}

/-- Options are read one after the other, each up to the blanks before the
next one or before what follows them all. -/
theorem says_options {options : List OptionForm} {rest : Text} {kinds : List TokenKind}
    (hgiven : ∀ o ∈ options, trimEnd o.raw = [] → d.allowEmptyValues = true)
    (hstops : options ≠ [] → stopsValue rest = true) (h : Says d false rest kinds) :
    Says d false (SegmentForm.optionsText options ++ rest)
      (options.map OptionForm.kind ++ kinds) := by
  induction options with
  | nil => exact h
  | cons o options ih =>
    have hnext : stopsValue (SegmentForm.optionsText options ++ rest) = true := by
      cases options with
      | nil => exact hstops (List.cons_ne_nil _ _)
      | cons o' options =>
        rw [SegmentForm.optionsText, List.flatMap_cons, List.append_assoc]
        exact o'.stopsValue_text
    have hrest := ih (fun o' ho' => hgiven o' (List.mem_cons_of_mem _ ho'))
      (fun _ => hstops (List.cons_ne_nil _ _))
    have hstands : Stands d false ⟨o.kind, optionText o.key o.raw⟩ _ :=
      .option o.key_ident o.raw_delimitable (hgiven o List.mem_cons_self) hnext
    have hsays := (Says.token hstands hrest).blanks o.gap_blank
    rw [SegmentForm.optionsText, List.flatMap_cons, OptionForm.text, List.append_assoc,
      List.append_assoc]
    exact hsays

/-- A segment is read as its form says, whatever the segments behind it. -/
theorem says_form {f : SegmentForm} {later : List SegmentForm}
    (hsep : later ≠ [] → f.options ≠ [] → f.trail ≠ [])
    (hgiven : ∀ o ∈ f.options, trimEnd o.raw = [] → d.allowEmptyValues = true)
    (h : Says d false (laterText later) (laterKinds later)) :
    Says d true (f.text ++ laterText later) (f.kinds ++ laterKinds later) := by
  have hoptions := says_options hgiven
    (fun hne => stopsValue_trail f.trail_blank fun hl => hsep hl hne) (h.blanks f.trail_blank)
  have hends : endsName (SegmentForm.optionsText f.options ++ (f.trail ++ laterText later)) =
      true := by
    cases f.options with
    | nil =>
      rw [SegmentForm.optionsText, List.flatMap_nil, List.nil_append]
      exact endsName_blanks f.trail_blank (endsName_laterText later)
    | cons o options =>
      rw [SegmentForm.optionsText, List.flatMap_cons, List.append_assoc]
      exact endsName_of_stopsValue o.stopsValue_text
  have hstands : Stands d true ⟨.name f.name, f.name⟩ _ := .name f.name_ident hends
  have hsays := (Says.token hstands hoptions).blanks f.lead_blank
  rw [SegmentForm.text, List.append_assoc, List.append_assoc, List.append_assoc]
  exact hsays

/-- The later segments say a separator each and then themselves. -/
theorem says_laterText {later : List SegmentForm}
    (hpipes : later ≠ [] → d.singleModule = false) (hsep : Separated later)
    (hgiven : ∀ f ∈ later, ∀ o ∈ f.options, trimEnd o.raw = [] → d.allowEmptyValues = true) :
    Says d false (laterText later) (laterKinds later) := by
  induction later with
  | nil => exact says_blanks (List.forall_mem_nil _)
  | cons f later ih =>
    have hallowed := hpipes (List.cons_ne_nil _ _)
    have hseps := separated_cons.mp hsep
    have hrest := ih (fun _ => hallowed) hseps.2
      fun g hg => hgiven g (List.mem_cons_of_mem _ hg)
    have hform := says_form hseps.1 (hgiven f List.mem_cons_self) hrest
    exact Says.token (.pipe hallowed) hform

/-- A pipeline is read form by form. -/
theorem says_definitionText {f : SegmentForm} {later : List SegmentForm}
    (hpipes : later ≠ [] → d.singleModule = false) (hsep : Separated (f :: later))
    (hgiven : ∀ g ∈ f :: later, ∀ o ∈ g.options, trimEnd o.raw = [] → d.allowEmptyValues = true) :
    Says d true (definitionText (f :: later)) (f.kinds ++ laterKinds later) := by
  have hseps := separated_cons.mp hsep
  rw [definitionText_cons]
  exact says_form hseps.1 (hgiven f List.mem_cons_self)
    (says_laterText hpipes hseps.2 fun g hg => hgiven g (List.mem_cons_of_mem _ hg))

end Reading

section Grouping

variable {policy : RepeatPolicy}

/-- Options with new and distinct keys join the open segment. -/
theorem groups_options {segment : Segment} {options : List OptionForm}
    (hkeys : policy = .reject → (options.map OptionForm.key).Nodup ∧
      ∀ o ∈ options, segment.options.contains o.key = false) :
    Groups policy (some segment) (options.map OptionForm.kind)
      [{ segment with options := segment.options.insertAll (options.map OptionForm.entry) }] := by
  induction options generalizing segment with
  | nil => exact .last
  | cons o options ih =>
    refine .option (fun hp => (hkeys hp).2 o List.mem_cons_self) (ih fun hp => ?_)
    obtain ⟨hd, hfresh⟩ := hkeys hp
    rw [List.map_cons, List.nodup_cons] at hd
    refine ⟨hd.2, fun o' ho' => ?_⟩
    have hne : o'.key ≠ o.key := fun heq => hd.1 (heq ▸ List.mem_map_of_mem ho')
    rw [OptionMap.contains_insert, decide_eq_false hne, hfresh o' (List.mem_cons_of_mem _ ho')]
    rfl

/-- What a form says is grouped into its segment. -/
theorem groups_form {f : SegmentForm}
    (hkeys : policy = .reject → (f.options.map OptionForm.key).Nodup) :
    Groups policy none f.kinds [f.segment] :=
  .name (groups_options fun hp => ⟨hkeys hp, fun _ _ => rfl⟩)

/-- Forms with admitted keys make the segments that are meant. -/
theorem groups_definition {f : SegmentForm} {later : List SegmentForm}
    (hkeys : ∀ g ∈ f :: later, policy = .reject → (g.options.map OptionForm.key).Nodup) :
    Groups policy none (f.kinds ++ laterKinds later) ((f :: later).map SegmentForm.segment) := by
  induction later generalizing f with
  | nil =>
    rw [laterKinds, List.flatMap_nil, List.append_nil]
    exact groups_form (hkeys f List.mem_cons_self)
  | cons g later ih =>
    have hlater := ih fun h hh => hkeys h (List.mem_cons_of_mem _ hh)
    exact groups_append_pipe.mpr
      ⟨[f.segment], _, rfl, groups_form (hkeys f List.mem_cons_self), hlater⟩

end Grouping

section Forms

variable {settings : ParserSettings} {singleModule : Bool}

/-- What separated and admitted forms say, one of them where a single module is
due. -/
theorem says_forms {f : SegmentForm} {later : List SegmentForm}
    (hsingle : singleModule = true → (f :: later).length = 1) (hsep : Separated (f :: later))
    (hforms : ∀ g ∈ f :: later, g.Admitted settings) :
    Says (settings.dialect singleModule) true (definitionText (f :: later))
      (f.kinds ++ laterKinds later) := by
  have hpipes : later ≠ [] → (settings.dialect singleModule).singleModule = false := by
    intro hl
    cases singleModule with
    | false => rfl
    | true =>
      have hlen := hsingle rfl
      rw [List.length_cons] at hlen
      exact absurd (List.length_eq_zero_iff.mp (by omega)) hl
  exact says_definitionText hpipes hsep fun g hg => (hforms g hg).given

/-- The text of separated and admitted forms is read as the segments that are
meant. -/
theorem segments_definitionText {forms : List SegmentForm} (hne : forms ≠ [])
    (hsingle : singleModule = true → forms.length = 1) (hsep : Separated forms)
    (hforms : ∀ f ∈ forms, f.Admitted settings) :
    segments settings singleModule (definitionText forms) =
      .ok (forms.map SegmentForm.segment) := by
  obtain ⟨f, later, rfl⟩ := List.exists_cons_of_ne_nil hne
  rw [segments_eq_ok_iff]
  exact ⟨_, says_forms hsingle hsep hforms, groups_definition fun g hg => (hforms g hg).keys⟩

end Forms

end DataPipeline.Definition
