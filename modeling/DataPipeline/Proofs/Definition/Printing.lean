import DataPipeline.Proofs.Definition.Emission
import DataPipeline.Proofs.Definition.Joining
import Mathlib.Data.List.DropRight

/-!
# Printed segments

A request prints its options in key order behind the name of its module. What
was read once is read again from what is printed: values that were trimmed
stop nowhere inside and have no blank at their end, keys stand once, and the
settings that let a value in let it in again.
-/

namespace DataPipeline.Definition

open Text

section Trimming

theorem endsValue_of_append {c : Char} {t rest : Text} (h : endsValue (c :: t ++ rest) = false) :
    endsValue (c :: t) = false := by
  rw [List.cons_append, endsValue_cons, startsOption_cons] at h
  rw [endsValue_cons, startsOption_cons]
  simp only [Bool.or_eq_false_iff, Bool.and_eq_false_iff, decide_eq_false_iff_not] at h ⊢
  refine ⟨h.1, h.2.imp_right fun hm hd => hm ?_⟩
  obtain ⟨u, rfl⟩ := List.head?_eq_some_iff.mp hd
  rfl

/-- The beginning of a delimitable text is delimitable if it ends with no blank. -/
theorem isDelimitable_of_append {t rest : Text} (h : IsDelimitable (t ++ rest))
    (hlast : ∀ hne : t ≠ [], isAsciiBlank (t.getLast hne) = false) : IsDelimitable t := by
  induction t with
  | nil => trivial
  | cons c t ih =>
    cases t with
    | nil =>
      have hc : isAsciiBlank c = false := hlast (List.cons_ne_nil c [])
      exact ⟨fun hb => absurd (hc.symm.trans hb) Bool.false_ne_true, trivial⟩
    | cons d t =>
      have hrest : IsDelimitable (d :: t) := ih h.2 fun hne => by
        have hl := hlast (List.cons_ne_nil c _)
        rwa [List.getLast_cons hne] at hl
      exact ⟨fun hb => endsValue_of_append (h.1 hb), hrest⟩

/-- What trimming leaves of a delimitable text is delimitable. -/
theorem isDelimitable_trimEnd {raw : Text} (h : IsDelimitable raw) :
    IsDelimitable (trimEnd raw) := by
  obtain ⟨rest, hraw⟩ := List.rdropWhile_prefix isBlank raw
  rw [←hraw] at h
  refine isDelimitable_of_append h fun hne => isAsciiBlank_eq_false ?_
  exact Bool.eq_false_iff.mpr (List.rdropWhile_last_not isBlank raw hne)

theorem trimEnd_trimEnd (t : Text) : trimEnd (trimEnd t) = trimEnd t :=
  List.rdropWhile_idempotent isBlank t

end Trimming

/-- A key and a value that are read back as they are printed. -/
structure Printable (settings : ParserSettings) (entry : Text × Text) : Prop where
  /-- Keys are identifiers. -/
  key_ident : IsIdent entry.1
  /-- The value stops nowhere inside. -/
  delimitable : IsDelimitable entry.2
  /-- The value has no blanks at its end. -/
  trimmed : trimEnd entry.2 = entry.2
  /-- The value is empty only where that is allowed. -/
  given : entry.2 = [] → settings.allowEmptyValues = true

/-- The name of the module with the options as they are printed behind it. -/
def Segment.text (s : Segment) : Text := s.name ++ s.options.tail

section Forms

variable {settings : ParserSettings}

/-- The options of an admitted form are printable. -/
theorem SegmentForm.Admitted.printable {f : SegmentForm} (h : f.Admitted settings) :
    ∀ e ∈ f.segment.options.entries, Printable settings e := by
  intro e he
  obtain ⟨o, ho, rfl⟩ := List.mem_map.mp (OptionMap.mem_ofList he)
  exact ⟨o.key_ident, isDelimitable_trimEnd o.raw_delimitable, trimEnd_trimEnd o.raw, h.given o ho⟩

/-- Printable entries are printed as options set off by one blank each. -/
theorem exists_optionForms {entries : List (Text × Text)}
    (h : ∀ e ∈ entries, Printable settings e) :
    ∃ options : List OptionForm, options.map OptionForm.entry = entries ∧
      SegmentForm.optionsText options = (entries.flatMap fun e => ' ' :: optionText e.1 e.2) ∧
      ∀ o ∈ options, trimEnd o.raw = [] → settings.allowEmptyValues = true := by
  induction entries with
  | nil => exact ⟨[], rfl, rfl, List.forall_mem_nil _⟩
  | cons e entries ih =>
    have hblank : ∀ c ∈ [' '], isAsciiBlank c = true := List.forall_mem_singleton.mpr (by decide)
    have he := h e List.mem_cons_self
    obtain ⟨options, hentries, htext, hgiven⟩ := ih fun e' he' => h e' (List.mem_cons_of_mem _ he')
    refine ⟨⟨[' '], e.1, e.2, hblank, List.cons_ne_nil _ _, he.key_ident, he.delimitable⟩ ::
      options, ?_, ?_, ?_⟩
    · rw [List.map_cons, hentries, OptionForm.entry, he.trimmed]
    · rw [List.flatMap_cons, ←htext]
      rfl
    · intro o ho hempty
      rcases List.mem_cons.mp ho with rfl | ho
      · exact he.given (he.trimmed.symm.trans hempty)
      · exact hgiven o ho hempty

/-- A segment with printable options is printed in an admitted form of its own. -/
theorem exists_printedForm {s : Segment} (hname : IsIdent s.name)
    (h : ∀ e ∈ s.options.entries, Printable settings e) :
    ∃ f : SegmentForm, f.text = s.text ∧ f.segment = s ∧ f.Admitted settings := by
  obtain ⟨options, hentries, htext, hgiven⟩ := exists_optionForms h
  have hkeys : (options.map OptionForm.key).Nodup := by
    have hfst : options.map OptionForm.key = s.options.entries.map Prod.fst := by
      rw [←hentries, List.map_map]
      rfl
    rw [hfst, List.Nodup, List.pairwise_map]
    refine s.options.increasing.imp fun hlt heq => ?_
    exact List.lt_irrefl _ (heq ▸ hlt)
  refine ⟨⟨[], s.name, options, [], List.forall_mem_nil _, hname, List.forall_mem_nil _⟩, ?_, ?_,
    fun _ => hkeys, hgiven⟩
  · change s.name ++ (SegmentForm.optionsText options ++ []) = s.name ++ s.options.tail
    rw [htext, List.append_nil]
    rfl
  · change (⟨s.name, .ofList (options.map OptionForm.entry)⟩ : Segment) = s
    rw [hentries, OptionMap.ofList_entries]

end Forms

section Reading

variable {settings : ParserSettings} {singleModule : Bool} {text : Text} {found : List Segment}

/-- A segment with printable options is read back from its print, alone and as
a pipeline of one module. -/
theorem segments_text {s : Segment} (hname : IsIdent s.name)
    (h : ∀ e ∈ s.options.entries, Printable settings e) :
    segments settings singleModule s.text = .ok [s] := by
  obtain ⟨f, htext, hsegment, hadmitted⟩ := exists_printedForm hname h
  have hread : segments settings singleModule (definitionText [f]) = .ok [f.segment] :=
    segments_definitionText (List.cons_ne_nil _ _) (fun _ => rfl)
      (separated_cons.mpr ⟨fun hno => absurd rfl hno, List.forall_mem_nil _⟩)
      (List.forall_mem_singleton.mpr hadmitted)
  rw [definitionText_cons, laterText, List.flatMap_nil, List.append_nil, htext, hsegment] at hread
  exact hread

/-- Whatever was read as a segment is read back from its print. -/
theorem segments_text_of_mem (h : segments settings singleModule text = .ok found) {s : Segment}
    (hs : s ∈ found) (single : Bool) : segments settings single s.text = .ok [s] := by
  obtain ⟨forms, -, -, -, hforms, -, rfl⟩ := segments_eq_ok_iff_forms.mp h
  obtain ⟨f, hf, rfl⟩ := List.mem_map.mp hs
  exact segments_text f.name_ident (hforms f hf).printable

/-- Prints that are read back one by one are read back joined. -/
theorem segments_intercalate (hne : found ≠ [])
    (h : ∀ s ∈ found, segments settings false s.text = .ok [s]) :
    segments settings false (joint.intercalate (found.map Segment.text)) = .ok found := by
  induction found with
  | nil => exact absurd rfl hne
  | cons s later ih =>
    have hs := h s List.mem_cons_self
    cases later with
    | nil => simpa using hs
    | cons s' later =>
      have hlater := ih (List.cons_ne_nil _ _) fun r hr => h r (List.mem_cons_of_mem _ hr)
      rw [List.map_cons, List.map_cons, List.intercalate_cons_cons, ←List.map_cons]
      exact segments_joined_iff.mpr ⟨[s], s' :: later, hs, hlater, rfl⟩

end Reading

/-- Printed requests are read back. The line of a request shows the group, the
module, the index and the role, and behind them the options in key order, each as
` --key=value`. Whatever the settings, the name of the module with the options as
the line prints them gives the options of the request again; and the modules of
all requests so printed, joined by ` | ` in the order of their indices, give the
same requests again. -/
theorem parse_printed {settings : ParserSettings} {group text : Text} {requests : List Request}
    (h : parse settings group text = .ok requests) :
    (∀ r ∈ requests,
      r.line = group ++ '.' :: r.moduleName ++ '[' :: (toString r.index).toList ++ "] (".toList ++
        r.role.name.toList ++ ')' :: r.options.tail ∧
      r.options.tail = r.options.entries.flatMap fun (key, value) =>
        ' ' :: '-' :: '-' :: (key ++ '=' :: value)) ∧
      (∀ r ∈ requests, parameters settings (r.moduleName ++ r.options.tail) = .ok r.options) ∧
      requests.reverse.Pairwise (fun a b => a.index < b.index) ∧
      parse settings group
        (joint.intercalate (requests.reverse.map fun r => r.moduleName ++ r.options.tail)) =
          .ok requests := by
  obtain ⟨hgroup, found, hfound, rfl⟩ := parse_eq_ok_iff.mp h
  have hne : found ≠ [] := by
    obtain ⟨forms, hforms, -, -, -, -, rfl⟩ := segments_eq_ok_iff_forms.mp hfound
    exact fun hno => hforms (List.map_eq_nil_iff.mp hno)
  refine ⟨fun r hr => ?_, fun r hr => ?_, ?_, ?_⟩
  · rw [Request.line, group_of_mem_requestsOf (List.mem_reverse.mp hr)]
    exact ⟨rfl, rfl⟩
  · have hs : r.segment ∈ found := by
      rw [←map_segment_requestsOf group found]
      exact List.mem_map_of_mem (List.mem_reverse.mp hr)
    have hread : segments settings true (r.moduleName ++ r.options.tail) = .ok [r.segment] :=
      segments_text_of_mem hfound hs true
    rw [parameters_eq, hread]
    rfl
  · rw [List.reverse_reverse]
    exact pairwise_index_requestsOf group found
  · have htexts : (requestsOf group found).map (fun r => r.moduleName ++ r.options.tail) =
        found.map Segment.text := by
      calc (requestsOf group found).map (fun r => r.moduleName ++ r.options.tail)
          = ((requestsOf group found).map Request.segment).map Segment.text := by
            rw [List.map_map]
            rfl
        _ = found.map Segment.text := by rw [map_segment_requestsOf]
    rw [List.reverse_reverse, htexts]
    have hread := segments_intercalate hne fun s hs => segments_text_of_mem hfound hs false
    exact parse_eq_ok_iff.mpr ⟨hgroup, found, hread, rfl⟩

theorem parse_printed_sample :
    parse ⟨.lastWins, true⟩ "s".toList "\nm --z=1\t --a=x|y\u00a0 --z= |log".toList =
        .ok (requestsOf "s".toList (repeatedForms.map SegmentForm.segment)).reverse ∧
      (⟨"m".toList, "s".toList, 0, .source,
        .ofList [("a".toList, "x|y".toList), ("z".toList, [])]⟩ : Request).line =
          "s.m[0] (source) --a=x|y --z=".toList ∧
      parameters ⟨.lastWins, true⟩ "m --a=x|y --z=".toList =
        .ok (.ofList [("a".toList, "x|y".toList), ("z".toList, [])]) ∧
      parse ⟨.lastWins, true⟩ "s".toList "m --a=x|y --z= | log".toList =
        .ok (requestsOf "s".toList (repeatedForms.map SegmentForm.segment)).reverse := by
  obtain ⟨hline, hone, -, hall⟩ := parse_printed parse_repeatedForms
  have hfirst : (⟨"m".toList, "s".toList, 0, .source,
      .ofList [("a".toList, "x|y".toList), ("z".toList, [])]⟩ : Request) ∈
        (requestsOf "s".toList (repeatedForms.map SegmentForm.segment)).reverse := by decide
  exact ⟨parse_repeatedForms, (hline _ hfirst).1, hone _ hfirst, hall⟩

end DataPipeline.Definition
