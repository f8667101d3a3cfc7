import DataPipeline.Text.Basic
import Mathlib.Data.List.DropRight
import Mathlib.Data.List.TakeWhile

/-!
# Trimming

Trimming leaves the part of a text between its first and its last character
that is not a blank. Blanks around a text therefore do not matter, and a text
is left as it is exactly when it neither begins nor ends with a blank.
-/

namespace DataPipeline.Text

/-- What is behind the front characters of a kind. -/
theorem drop_length_takeWhile (p : Char → Bool) (t : Text) :
    t.drop (t.takeWhile p).length = t.dropWhile p :=
  List.append_cancel_left ((List.prefix_iff_eq_append.mp (List.takeWhile_prefix p)).trans
    List.takeWhile_append_dropWhile.symm)

/-- A text that neither begins nor ends with a blank. -/
structure IsTrimmed (t : Text) : Prop where
  /-- The first character is not a blank. -/
  head : ∀ c, t.head? = some c → isBlank c = false
  /-- The last character is not a blank. -/
  last : ∀ c, t.getLast? = some c → isBlank c = false

section Pad

variable {blanks t : Text}

/-- A blank text consists of blanks. -/
theorem forall_mem_of_isAllBlank (h : isAllBlank blanks = true) : ∀ c ∈ blanks, isBlank c = true :=
  List.all_eq_true.mp h

/-- A character that is not a blank does not occur among blanks. -/
theorem not_mem_of_isAllBlank {c : Char} (hc : isBlank c = false) (h : isAllBlank blanks = true) :
    c ∉ blanks := by
  intro hmem
  have hblank := forall_mem_of_isAllBlank h c hmem
  rw [hc] at hblank
  cases hblank

/-- Blanks at the front are trimmed. -/
theorem trimStart_blanks_append (h : isAllBlank blanks = true) :
    trimStart (blanks ++ t) = trimStart t :=
  List.dropWhile_append_of_pos (forall_mem_of_isAllBlank h)

/-- Blanks at the end are trimmed. -/
theorem trimEnd_append_blanks (h : isAllBlank blanks = true) :
    trimEnd (t ++ blanks) = trimEnd t := by
  have hreverse : ∀ c ∈ blanks.reverse, isBlank c = true := by
    intro c hc
    exact forall_mem_of_isAllBlank h c (List.mem_reverse.mp hc)
  rw [trimEnd, List.reverse_append, List.dropWhile_append_of_pos hreverse, trimEnd]

/-- Nothing is left of a text exactly if it is blank. -/
theorem trimStart_eq_nil_iff : trimStart t = [] ↔ isAllBlank t = true := by
  rw [trimStart, List.dropWhile_eq_nil_iff, isAllBlank, List.all_eq_true]

/-- Blanks at the end are still there when the blanks in front are gone, unless
there is nothing else. -/
theorem trimStart_append (h : isAllBlank t = false) :
    trimStart (t ++ blanks) = trimStart t ++ blanks := by
  have hne : trimStart t ≠ [] := by
    intro hnil
    rw [trimStart_eq_nil_iff.mp hnil] at h
    cases h
  rw [trimStart, List.dropWhile_append, if_neg (by simpa [trimStart] using hne), trimStart]

end Pad

/-- Blanks around a text are trimmed away. -/
theorem trim_blanks_append_blanks {before t after : Text} (hbefore : isAllBlank before = true)
    (hafter : isAllBlank after = true) : trim (before ++ t ++ after) = trim t := by
  rw [trim, List.append_assoc, trimStart_blanks_append hbefore, trim]
  cases ht : isAllBlank t with
  | false => rw [trimStart_append ht, trimEnd_append_blanks hafter]
  | true =>
    have hboth : isAllBlank (t ++ after) = true := by
      rw [isAllBlank, List.all_append, Bool.and_eq_true]
      exact ⟨ht, hafter⟩
    rw [trimStart_eq_nil_iff.mpr hboth, trimStart_eq_nil_iff.mpr ht]

/-- What is trimmed away stood around what is left. -/
theorem exists_blanks_trim (t : Text) :
    ∃ before after, isAllBlank before = true ∧ isAllBlank after = true ∧
      t = before ++ trim t ++ after := by
  have hstart : t.takeWhile isBlank ++ trimStart t = t := List.takeWhile_append_dropWhile
  have hend : trim t ++ ((trimStart t).reverse.takeWhile isBlank).reverse = trimStart t := by
    rw [trim, trimEnd, ←List.reverse_append, List.takeWhile_append_dropWhile, List.reverse_reverse]
  refine ⟨t.takeWhile isBlank, ((trimStart t).reverse.takeWhile isBlank).reverse, ?_, ?_, ?_⟩
  · exact List.all_takeWhile
  · rw [isAllBlank, List.all_reverse]
    exact List.all_takeWhile
  · rw [List.append_assoc, hend, hstart]

/-- Trimming adds no characters. -/
theorem mem_of_mem_trim {t : Text} {c : Char} (h : c ∈ trim t) : c ∈ t := by
  obtain ⟨before, after, -, -, ht⟩ := exists_blanks_trim t
  rw [ht]
  exact List.mem_append_left after (List.mem_append_right before h)

/-- Nothing is left of a text exactly when it is blank. -/
theorem trim_eq_nil_iff {t : Text} : trim t = [] ↔ isAllBlank t = true := by
  constructor
  · intro h
    obtain ⟨before, after, hbefore, hafter, ht⟩ := exists_blanks_trim t
    rw [h, List.append_nil] at ht
    rw [ht, isAllBlank, List.all_append, Bool.and_eq_true]
    exact ⟨hbefore, hafter⟩
  · intro h
    rw [trim, trimStart_eq_nil_iff.mpr h]
    rfl

/-- A first character that is not a blank is left. -/
theorem head?_trim {t : Text} {c : Char} (h : t.head? = some c) (hc : isBlank c = false) :
    (trim t).head? = some c := by
  obtain ⟨before, after, hbefore, -, ht⟩ := exists_blanks_trim t
  have hne : trim t ≠ [] := fun hnil =>
    not_mem_of_isAllBlank hc (trim_eq_nil_iff.mp hnil) (List.mem_of_mem_head? h)
  cases before with
  | nil =>
    obtain ⟨d, u, hd⟩ := List.exists_cons_of_ne_nil hne
    rw [ht, hd] at h
    rw [hd]
    exact h
  | cons b before =>
    rw [ht] at h
    have hb : b ∈ b :: before := List.mem_cons_self
    rw [Option.some.inj h] at hb hbefore
    exact absurd hb (not_mem_of_isAllBlank hc hbefore)

/-- A last character that is not a blank is left. -/
theorem getLast?_trim {t : Text} {c : Char} (h : t.getLast? = some c) (hc : isBlank c = false) :
    (trim t).getLast? = some c := by
  obtain ⟨before, after, -, hafter, ht⟩ := exists_blanks_trim t
  have hne : trim t ≠ [] := fun hnil =>
    not_mem_of_isAllBlank hc (trim_eq_nil_iff.mp hnil) (List.mem_of_getLast? h)
  have hsome : (trim t).getLast? = some ((trim t).getLast hne) := List.getLast?_eq_some_getLast hne
  rw [ht, List.getLast?_append] at h
  cases hlast : after.getLast? with
  | none => rwa [hlast, Option.none_or, List.getLast?_append, hsome, Option.some_or, ←hsome] at h
  | some d =>
    rw [hlast, Option.some_or, Option.some.injEq] at h
    rw [h] at hlast
    exact absurd (List.mem_of_getLast? hlast) (not_mem_of_isAllBlank hc hafter)

/-- Trimming the front twice is trimming it once. -/
theorem trimStart_trimStart (t : Text) : trimStart (trimStart t) = trimStart t :=
  List.dropWhile_idempotent isBlank t

/-- The first character that trimming leaves is not a blank. -/
theorem isBlank_head?_trimStart {t : Text} {c : Char} (h : (trimStart t).head? = some c) :
    isBlank c = false := by
  have hnot := List.head?_dropWhile_not isBlank t
  rw [trimStart] at h
  rw [h] at hnot
  exact hnot

/-- A trimmed text does not end with a blank. -/
theorem isBlank_getLast?_trimEnd {t : Text} {c : Char} (h : (trimEnd t).getLast? = some c) :
    isBlank c = false := by
  rw [trimEnd, List.getLast?_reverse] at h
  exact isBlank_head?_trimStart (t := t.reverse) h

/-- Trimming leaves a trimmed text. -/
theorem isTrimmed_trim (t : Text) : IsTrimmed (trim t) where
  head c h := by
    obtain ⟨after, hafter⟩ : trim t <+: trimStart t := by
      rw [trim, trimEnd, ←List.reverse_suffix, List.reverse_reverse]
      exact List.dropWhile_suffix isBlank
    refine isBlank_head?_trimStart (t := t) ?_
    rw [←hafter, List.head?_append, h]
    rfl
  last c h := isBlank_getLast?_trimEnd h

/-- Exactly the trimmed texts are left as they are. -/
theorem trim_eq_self_iff {t : Text} : trim t = t ↔ IsTrimmed t := by
  constructor
  · intro h
    rw [←h]
    exact isTrimmed_trim t
  · intro h
    have hstart : trimStart t = t := by
      rw [trimStart, List.dropWhile_eq_self_iff]
      intro hpos
      have hhead := h.head t[0] (by rw [List.head?_eq_getElem?, List.getElem?_eq_getElem hpos])
      rw [hhead]
      exact Bool.false_ne_true
    have hend : t.reverse.dropWhile isBlank = t.reverse := by
      rw [List.dropWhile_eq_self_iff]
      intro hpos
      have hlast := h.last t.reverse[0] (by
        rw [←List.head?_reverse, List.head?_eq_getElem?, List.getElem?_eq_getElem hpos])
      rw [hlast]
      exact Bool.false_ne_true
    rw [trim, hstart, trimEnd, hend, List.reverse_reverse]

/-- Nothing is trimmed from a text without blanks. -/
theorem isTrimmed_of_forall {t : Text} (h : ∀ c ∈ t, isBlank c = false) : IsTrimmed t where
  head _ hc := h _ (List.mem_of_mem_head? hc)
  last _ hc := h _ (List.mem_of_getLast? hc)

/-- A trimmed text keeps the blanks behind it from the front. -/
theorem IsTrimmed.trimStart_append {t u : Text} (h : IsTrimmed t) (hne : t ≠ []) :
    trimStart (t ++ u) = t ++ u := by
  obtain ⟨c, t, rfl⟩ := List.exists_cons_of_ne_nil hne
  exact List.dropWhile_cons_of_neg (by simp [h.head c rfl])

/-- What stands between two trimmed texts does not matter. -/
theorem IsTrimmed.append {before t after : Text} (hbefore : IsTrimmed before)
    (hbefore_ne : before ≠ []) (hafter : IsTrimmed after) (hafter_ne : after ≠ []) :
    IsTrimmed (before ++ t ++ after) where
  head c hc := by
    obtain ⟨d, before, rfl⟩ := List.exists_cons_of_ne_nil hbefore_ne
    exact hbefore.head c hc
  last c hc := by
    refine hafter.last c ?_
    rwa [List.getLast?_append_of_ne_nil _ hafter_ne] at hc

instance : DecidablePred IsTrimmed := fun t => decidable_of_iff (trim t = t) trim_eq_self_iff

end DataPipeline.Text
