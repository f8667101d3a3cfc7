import DataPipeline.Proofs.Except
import DataPipeline.Proofs.Text.Trim
import DataPipeline.Record.Selection
import Mathlib.Data.List.Basic

/-!
# Texts of selections

An expression in braces lists paths with commas between them, and a path lists
names with dots between them. Blanks around a name do not matter, so a list of
paths is read the same with and without blanks around its commas. The paths
that are read have nonempty and trimmed names without dots, and such paths
differ when their texts do.
-/

namespace DataPipeline

open Text

section Splitting

variable {mark : Char} {t : Text}

/-- No part of a text that is split at a mark contains the mark. -/
theorem not_mem_of_mem_splitOn {part : Text} (h : part ∈ t.splitOn mark) : mark ∉ part := by
  induction t generalizing part with
  | nil =>
    rw [List.splitOn_nil, List.mem_singleton] at h
    rw [h]
    exact List.not_mem_nil
  | cons c t ih =>
    rw [List.splitOn_cons_eq_if_modifyHead] at h
    split at h
    · rcases List.mem_cons.mp h with rfl | h
      · exact List.not_mem_nil
      · exact ih h
    · next hc =>
      obtain ⟨first, parts, hparts⟩ := List.exists_cons_of_ne_nil (List.splitOn_ne_nil mark t)
      rw [hparts] at h ih
      rw [List.modifyHead_cons] at h
      rcases List.mem_cons.mp h with rfl | h
      · rw [List.mem_cons, not_or]
        exact ⟨fun hmark => hc (by rw [hmark, beq_self_eq_true]), ih List.mem_cons_self⟩
      · exact ih (List.mem_cons_of_mem first h)

/-- What does not depend on blanks around a part can be read off texts that are
joined by a mark with blanks around it. -/
theorem map_splitOn_intercalate {β : Type} (f : Text → β) (hmark : isBlank mark = false)
    (hf : ∀ before t after, isAllBlank before = true → isAllBlank after = true →
      f (before ++ t ++ after) = f t)
    {left right last : Text} (hleft : isAllBlank left = true) (hright : isAllBlank right = true)
    (hlast : isAllBlank last = true) {first : Text} {parts : List Text}
    (hparts : ∀ part ∈ first :: parts, mark ∉ part) {front : Text}
    (hfront : isAllBlank front = true) :
    ((front ++ (left ++ mark :: right).intercalate (first :: parts) ++ last).splitOn mark).map f =
      (first :: parts).map f := by
  induction parts generalizing first front with
  | nil =>
    have hnone : mark ∉ front ++ first ++ last := by
      rw [List.mem_append, List.mem_append, not_or, not_or]
      exact ⟨⟨not_mem_of_isAllBlank hmark hfront, hparts first List.mem_cons_self⟩,
        not_mem_of_isAllBlank hmark hlast⟩
    rw [List.intercalate_singleton, List.splitOn_eq_singleton hnone, List.map_singleton,
      hf front first last hfront hlast, List.map_singleton]
  | cons second parts ih =>
    have hnone : mark ∉ front ++ first ++ left := by
      rw [List.mem_append, List.mem_append, not_or, not_or]
      exact ⟨⟨not_mem_of_isAllBlank hmark hfront, hparts first List.mem_cons_self⟩,
        not_mem_of_isAllBlank hmark hleft⟩
    have htext : front ++ (left ++ mark :: right).intercalate (first :: second :: parts) ++ last =
        (front ++ first ++ left) ++
          mark :: (right ++ (left ++ mark :: right).intercalate (second :: parts) ++ last) := by
      rw [List.intercalate_cons_cons]
      simp only [List.append_assoc, List.cons_append]
    have hrest := ih (fun part hpart => hparts part (List.mem_cons_of_mem first hpart)) hright
    rw [htext, List.splitOn_append_cons_self_of_not_mem hnone, List.map_cons, hrest,
      hf front first left hfront hleft]
    rfl

end Splitting

/-- A text with something else than blanks before, between and after its
dots. -/
def HasNames (t : Text) : Prop := ∀ s ∈ t.splitOn '.', isAllBlank s = false

instance : DecidablePred HasNames := fun t =>
  inferInstanceAs (Decidable (∀ s ∈ t.splitOn '.', isAllBlank s = false))

/-- A text that can stand for a path in a list of paths. -/
structure Listable (t : Text) : Prop where
  /-- There are names between its dots. -/
  named : HasNames t
  /-- No comma ends it. -/
  commaless : ',' ∉ t

instance : DecidablePred Listable := fun t =>
  decidable_of_iff (HasNames t ∧ ',' ∉ t) ⟨fun h => ⟨h.1, h.2⟩, fun h => ⟨h.named, h.commaless⟩⟩

namespace FieldPath

/-- The path of the names between the dots of a text, without the blanks around
them. -/
def ofText (t : Text) : FieldPath := ⟨(t.splitOn '.').map trim⟩

/-- A path that can be read: it has names, and they are nonempty, trimmed and
without dots. -/
structure WellFormed (p : FieldPath) : Prop where
  /-- There is a name. -/
  nonempty : p.segments ≠ []
  /-- Every name has characters. -/
  named : [] ∉ p.segments
  /-- No name begins or ends with a blank. -/
  trimmed : ∀ s ∈ p.segments, IsTrimmed s
  /-- No name has a dot. -/
  dotless : ∀ s ∈ p.segments, '.' ∉ s

section Text

variable {p q : FieldPath} {t : Text}

/-- There are names between the dots of a text when its path has no empty
one. -/
theorem hasNames_iff : HasNames t ↔ [] ∉ (ofText t).segments := by
  rw [HasNames, ofText, List.mem_map, not_exists]
  refine forall_congr' fun s => ?_
  rw [not_and, trim_eq_nil_iff, Bool.not_eq_true]

/-- Texts that are the same path have the same names. -/
theorem hasNames_congr {u : Text} (h : ofText t = ofText u) : HasNames t ↔ HasNames u := by
  rw [hasNames_iff, hasNames_iff, h]

/-- A path is read exactly from the texts with names between their dots. -/
theorem parse_eq_ok_iff : parse t = .ok p ↔ HasNames t ∧ p = ofText t := by
  have hany : ((t.splitOn '.').map trim).any List.isEmpty = true ↔ ¬HasNames t := by
    rw [hasNames_iff, ofText, List.any_eq_true, Classical.not_not]
    constructor
    · rintro ⟨s, hs, hempty⟩
      rwa [←List.isEmpty_iff.mp hempty]
    · intro h
      exact ⟨[], h, rfl⟩
  rw [parse]
  by_cases h : HasNames t
  · rw [if_neg (fun hno => hany.mp hno h), Except.ok.injEq]
    exact ⟨fun hp => ⟨h, hp.symm⟩, fun hp => hp.2.symm⟩
  · rw [if_pos (hany.mpr h)]
    exact iff_of_false (by simp) fun hp => h hp.1

/-- A text with names between all dots is a well-formed path. -/
theorem wellFormed_ofText (h : HasNames t) : (ofText t).WellFormed where
  nonempty hnil := List.splitOn_ne_nil '.' t (List.map_eq_nil_iff.mp hnil)
  named := hasNames_iff.mp h
  trimmed s hs := by
    obtain ⟨part, -, rfl⟩ := List.mem_map.mp hs
    exact isTrimmed_trim part
  dotless s hs hdot := by
    obtain ⟨part, hpart, rfl⟩ := List.mem_map.mp hs
    exact not_mem_of_mem_splitOn hpart (mem_of_mem_trim hdot)

/-- Texts with names between all dots are well-formed paths. -/
theorem wellFormed_of_mem_map {ts : List Text} (h : ∀ t ∈ ts, HasNames t) :
    ∀ p ∈ ts.map ofText, p.WellFormed := by
  intro p hp
  obtain ⟨t, ht, rfl⟩ := List.mem_map.mp hp
  exact wellFormed_ofText (h t ht)

/-- A path of one name is written as the name. -/
theorem text_singleton (name : Text) : text ⟨[name]⟩ = name := List.intercalate_singleton

/-- The names of a path are the parts of its text. -/
theorem splitOn_text (h : p.WellFormed) : p.text.splitOn '.' = p.segments :=
  List.splitOn_intercalate '.' h.dotless h.nonempty

/-- Different paths have different texts. -/
theorem text_injective (hp : p.WellFormed) (hq : q.WellFormed) (h : p.text = q.text) : p = q := by
  have hsegments : p.segments = q.segments := by rw [←splitOn_text hp, h, splitOn_text hq]
  cases p
  cases q
  exact congrArg FieldPath.mk hsegments

/-- A well-formed path is not written as nothing. -/
theorem text_ne_nil (h : p.WellFormed) : p.text ≠ [] := by
  intro hnil
  have hsplit := splitOn_text h
  rw [hnil, List.splitOn_nil] at hsplit
  exact h.named (by rw [←hsplit, List.mem_singleton])

/-- Blanks around the text of a path do not matter. -/
theorem ofText_blanks {before after : Text} (hbefore : isAllBlank before = true)
    (hafter : isAllBlank after = true) : ofText (before ++ t ++ after) = ofText t := by
  obtain ⟨first, parts, hparts⟩ := List.exists_cons_of_ne_nil (List.splitOn_ne_nil '.' t)
  have hdotless : ∀ part ∈ first :: parts, '.' ∉ part := by
    intro part hpart
    rw [←hparts] at hpart
    exact not_mem_of_mem_splitOn hpart
  have ht : ([] ++ ['.']).intercalate (first :: parts) = t := by
    rw [←hparts]
    exact List.intercalate_splitOn '.'
  have hnil : isAllBlank [] = true := rfl
  have hmap := map_splitOn_intercalate trim rfl (fun _ _ _ => trim_blanks_append_blanks) hnil hnil
    hafter hdotless hbefore
  rw [ht] at hmap
  rw [ofText, ofText, hmap, hparts]

/-- A text without blanks around its names is the text of its path. -/
theorem text_ofText (h : ∀ s ∈ t.splitOn '.', IsTrimmed s) : (ofText t).text = t := by
  have hmap : (t.splitOn '.').map trim = t.splitOn '.' :=
    (List.map_congr_left fun s hs => trim_eq_self_iff.mpr (h s hs)).trans (List.map_id _)
  rw [text, ofText, hmap, List.intercalate_splitOn]

end Text

end FieldPath

/-- Paths are read one by one exactly when each text has names between its
dots. -/
theorem mapM_parse_eq_ok_iff {ts : List Text} {paths : List FieldPath} :
    ts.mapM FieldPath.parse = .ok paths ↔ (∀ t ∈ ts, HasNames t) ∧ paths = ts.map .ofText := by
  induction ts generalizing paths with
  | nil =>
    rw [List.mapM_nil]
    constructor
    · intro h
      cases h
      exact ⟨List.forall_mem_nil _, rfl⟩
    · rintro ⟨-, rfl⟩
      rfl
  | cons t ts ih =>
    rw [List.mapM_cons, Except.bind_eq_ok_iff, List.forall_mem_cons]
    constructor
    · rintro ⟨p, hp, h⟩
      obtain ⟨rest, hrest, h⟩ := Except.bind_eq_ok_iff.mp h
      obtain ⟨ht, rfl⟩ := FieldPath.parse_eq_ok_iff.mp hp
      obtain ⟨hts, rfl⟩ := ih.mp hrest
      cases h
      exact ⟨⟨ht, hts⟩, rfl⟩
    · rintro ⟨⟨ht, hts⟩, rfl⟩
      exact ⟨.ofText t, FieldPath.parse_eq_ok_iff.mpr ⟨ht, rfl⟩,
        Except.bind_eq_ok_iff.mpr ⟨_, ih.mpr ⟨hts, rfl⟩, rfl⟩⟩

/-- The paths of a selection. -/
def Selection.paths : Selection → List FieldPath
  | .all => []
  | .path p => [p]
  | .project paths => paths

/-- The expression that lists texts in braces, with a separator between them. -/
def Selection.listing (separator : Text) (ts : List Text) : Text :=
  '\x7b' :: (separator.intercalate ts ++ ['\x7d'])

namespace Selection

/-- An expression in braces is the projection onto the paths between its
commas. -/
theorem parse_braces (body : Text) :
    parse ('\x7b' :: (body ++ ['\x7d'])) =
      ((body.splitOn ',').mapM FieldPath.parse).map project := by
  have htrimmed : IsTrimmed ('\x7b' :: (body ++ ['\x7d'])) := by
    constructor
    · intro c hc
      cases hc
      rfl
    · intro c hc
      rw [←List.cons_append, List.getLast?_concat] at hc
      cases hc
      rfl
  have hunbraced : unbraced? ('\x7b' :: (body ++ ['\x7d'])) = some body := by
    rw [unbraced?, dropEnd?, List.reverse_append, dropStart?_eq_some_iff.mpr rfl, Option.map_some,
      List.reverse_reverse]
  have hstar : '\x7b' :: (body ++ ['\x7d']) ≠ ['*'] := by simp
  rw [parse, trim_eq_self_iff.mpr htrimmed, if_neg (List.cons_ne_nil _ _), if_neg hstar, hunbraced]

/-- A list of paths in braces is read with any blanks around its commas. -/
theorem parse_listing {ts : List Text} (hne : ts ≠ []) (hlist : ∀ t ∈ ts, Listable t)
    {left right : Text} (hleft : isAllBlank left = true) (hright : isAllBlank right = true) :
    parse (listing (left ++ ',' :: right) ts) = .ok (.project (ts.map .ofText)) := by
  obtain ⟨first, parts, rfl⟩ := List.exists_cons_of_ne_nil hne
  have hnil : isAllBlank [] = true := rfl
  have hpaths := map_splitOn_intercalate FieldPath.ofText rfl
    (fun _ _ _ => FieldPath.ofText_blanks) hleft hright hnil (fun t ht => (hlist t ht).commaless)
    hnil
  rw [List.nil_append, List.append_nil] at hpaths
  have hread : (((left ++ ',' :: right).intercalate (first :: parts)).splitOn ',').mapM
      FieldPath.parse = .ok ((first :: parts).map .ofText) := by
    refine mapM_parse_eq_ok_iff.mpr ⟨fun part hpart => ?_, hpaths.symm⟩
    have hmem := List.mem_map_of_mem (f := FieldPath.ofText) hpart
    rw [hpaths] at hmem
    obtain ⟨t, ht, hsame⟩ := List.mem_map.mp hmem
    exact (FieldPath.hasNames_congr hsame).mp (hlist t ht).named
  rw [listing, parse_braces, hread]
  rfl

/-- The paths of a projection that was read are well formed. -/
theorem wellFormed_of_mapM {ts : List Text} {selection : Selection}
    (h : (ts.mapM FieldPath.parse).map project = .ok selection) :
    ∀ p ∈ selection.paths, p.WellFormed := by
  obtain ⟨paths, hpaths, rfl⟩ := Except.map_eq_ok_iff.mp h
  obtain ⟨hnames, rfl⟩ := mapM_parse_eq_ok_iff.mp hpaths
  exact FieldPath.wellFormed_of_mem_map hnames

/-- The paths of a selection that is read can be read. -/
theorem wellFormed_of_parse {expression : Text} {selection : Selection}
    (h : parse expression = .ok selection) : ∀ p ∈ selection.paths, p.WellFormed := by
  rw [parse] at h
  split at h
  · cases h
  split at h
  · cases h
    exact List.forall_mem_nil _
  split at h
  · exact wellFormed_of_mapM h
  split at h
  · exact wellFormed_of_mapM h
  · obtain ⟨p, hp, rfl⟩ := Except.map_eq_ok_iff.mp h
    obtain ⟨hnames, rfl⟩ := FieldPath.parse_eq_ok_iff.mp hp
    exact List.forall_mem_singleton.mpr (FieldPath.wellFormed_ofText hnames)

end Selection

end DataPipeline
