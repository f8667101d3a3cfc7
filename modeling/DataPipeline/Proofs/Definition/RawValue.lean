import DataPipeline.Proofs.Definition.WordBoundary

/-!
# Where the value of an option stops

The raw value of an option is the shortest beginning of what follows its `=`
after which a value may stop. It is also the only one that is delimitable as
a whole, so a value is read back from any text that continues it by a place
where a value may stop.
-/

namespace DataPipeline.Definition

open Text

/-- Whether a value may stop before this text: at its end, or at a run of
ASCII blanks before `|`, before `--` or before the end. -/
def stopsValue : Text → Bool
  | [] => true
  | c :: rest => isAsciiBlank c && endsValue (rest.dropWhile isAsciiBlank)

/-- No ASCII blank of the text stands right before a `|`, right before `--`
or at the end, so that the text can be the whole raw value of an option. -/
def IsDelimitable : Text → Prop
  | [] => True
  | c :: rest => (isAsciiBlank c = true → endsValue rest = false) ∧ IsDelimitable rest

instance decidableIsDelimitable : DecidablePred IsDelimitable
  | [] => isTrue trivial
  | c :: rest =>
    have := decidableIsDelimitable rest
    inferInstanceAs (Decidable ((isAsciiBlank c = true → endsValue rest = false) ∧ _))

/-- A value ends before a separator and before the mark of an option. -/
theorem endsValue_cons (c : Char) (t : Text) :
    endsValue (c :: t) = (decide (c = '|') || startsOption (c :: t)) := by
  simp [endsValue]

/-- A blank neither ends a value nor begins what does. -/
theorem endsValue_blank_cons {c : Char} {t : Text} (h : isAsciiBlank c = true) :
    endsValue (c :: t) = false := by
  have hp : c ≠ '|' := by rintro rfl; exact absurd h (by decide)
  have hm : c ≠ '-' := by rintro rfl; exact absurd h (by decide)
  rw [endsValue_cons, startsOption_cons, decide_eq_false hp, decide_eq_false hm]
  rfl

/-- A value does not stop before a character that is no blank. -/
theorem stopsValue_nonblank_cons {c : Char} {t : Text} (h : isAsciiBlank c = false) :
    stopsValue (c :: t) = false := by
  rw [stopsValue, h, Bool.false_and]

/-- The text from a place where a value may stop begins with a blank, if with
anything. -/
theorem isAsciiBlank_of_stopsValue {c : Char} {t : Text} (h : stopsValue (c :: t) = true) :
    isAsciiBlank c = true := by
  rw [stopsValue, Bool.and_eq_true] at h
  exact h.1

/-- Where a value stops, it may end behind the blanks. -/
theorem endsValue_dropWhile_of_stopsValue {t : Text} (h : stopsValue t = true) :
    endsValue (t.dropWhile isAsciiBlank) = true := by
  cases t with
  | nil => rfl
  | cons c t =>
    rw [stopsValue, Bool.and_eq_true] at h
    rw [List.dropWhile_cons_of_pos h.1]
    exact h.2

/-- Character by character, the raw value goes on until it may stop. -/
theorem rawValue_cons (c : Char) (t : Text) :
    rawValue (c :: t) = if stopsValue (c :: t) then [] else c :: rawValue t := by
  rw [rawValue]
  by_cases hc : isAsciiBlank c = true
  · rw [if_pos hc, List.dropWhile_cons_of_pos hc, List.takeWhile_cons_of_pos hc, stopsValue, hc,
      Bool.true_and]
    by_cases he : endsValue (t.dropWhile isAsciiBlank) = true
    · rw [if_pos he, if_pos he]
    · rw [if_neg he, if_neg he, List.cons_append]
      cases t with
      | nil => exact absurd rfl he
      | cons d t =>
        by_cases hd : isAsciiBlank d = true
        · rw [rawValue, if_pos hd, if_neg he]
        · rw [List.takeWhile_cons_of_neg hd, List.dropWhile_cons_of_neg hd, List.nil_append]
  · rw [if_neg hc, stopsValue_nonblank_cons (Bool.eq_false_iff.mpr hc)]
    rfl

/-- Where a value stops at once, it is empty. -/
theorem rawValue_of_stopsValue {t : Text} (h : stopsValue t = true) : rawValue t = [] := by
  cases t with
  | nil => rw [rawValue]
  | cons c t => rw [rawValue_cons, if_pos h]

/-- What follows the raw value is a place where a value may stop. -/
theorem exists_append_rawValue (t : Text) :
    ∃ rest, t = rawValue t ++ rest ∧ stopsValue rest = true := by
  induction t with
  | nil => exact ⟨[], by rw [rawValue]; rfl, rfl⟩
  | cons c t ih =>
    rw [rawValue_cons]
    by_cases hs : stopsValue (c :: t) = true
    · rw [if_pos hs]
      exact ⟨c :: t, rfl, hs⟩
    · obtain ⟨rest, ht, hrest⟩ := ih
      rw [if_neg hs]
      refine ⟨rest, ?_, hrest⟩
      rw [List.cons_append, ←ht]

/-- A value begins with the first character of its text. -/
theorem head?_of_head?_rawValue {t : Text} {c : Char} (h : (rawValue t).head? = some c) :
    t.head? = some c := by
  cases t with
  | nil => rw [rawValue] at h; cases h
  | cons d t =>
    rw [rawValue_cons] at h
    split at h
    · cases h
    · exact h

/-- Where blanks may not end a value, the raw value behind them does not
begin with what would end it either. -/
theorem endsValue_rawValue {t : Text} (h : endsValue (t.dropWhile isAsciiBlank) = false) :
    endsValue (rawValue t) = false := by
  cases t with
  | nil => cases h
  | cons c t =>
    by_cases hc : isAsciiBlank c = true
    · have hs : stopsValue (c :: t) = false := by
        rw [List.dropWhile_cons_of_pos hc] at h
        rw [stopsValue, h, Bool.and_false]
      rw [rawValue_cons, hs]
      exact endsValue_blank_cons hc
    · have hs := stopsValue_nonblank_cons (t := t) (Bool.eq_false_iff.mpr hc)
      rw [List.dropWhile_cons_of_neg hc] at h
      rw [rawValue_cons, hs]
      change endsValue (c :: rawValue t) = false
      -- Only `--` is longer than one character, and its second one heads the rest.
      rw [endsValue_cons, startsOption_cons] at h ⊢
      simp only [Bool.or_eq_false_iff, Bool.and_eq_false_iff, decide_eq_false_iff_not] at h ⊢
      exact ⟨h.1, h.2.imp_right fun hm hr => hm (head?_of_head?_rawValue hr)⟩

/-- A raw value is delimitable. -/
theorem isDelimitable_rawValue (t : Text) : IsDelimitable (rawValue t) := by
  induction t with
  | nil => rw [rawValue]; trivial
  | cons c t ih =>
    rw [rawValue_cons]
    by_cases hs : stopsValue (c :: t) = true
    · rw [if_pos hs]
      trivial
    · rw [if_neg hs]
      refine ⟨fun hc => endsValue_rawValue ?_, ih⟩
      rw [stopsValue, hc, Bool.true_and, Bool.not_eq_true] at hs
      exact hs

/-- A delimitable text has no place inside where a value may stop. -/
theorem stopsValue_of_isDelimitable {c : Char} {t : Text} (h : IsDelimitable (c :: t)) :
    stopsValue (c :: t) = false := by
  by_cases hc : isAsciiBlank c = true
  · rw [stopsValue, hc, Bool.true_and]
    induction t generalizing c with
    | nil => exact absurd (h.1 hc) (by decide)
    | cons d t ih =>
      by_cases hd : isAsciiBlank d = true
      · rw [List.dropWhile_cons_of_pos hd]
        exact ih h.2 hd
      · rw [List.dropWhile_cons_of_neg hd]
        exact h.1 hc
  · exact stopsValue_nonblank_cons (Bool.eq_false_iff.mpr hc)

/-- A delimitable text is a value as a whole. -/
theorem rawValue_of_isDelimitable {t : Text} (h : IsDelimitable t) : rawValue t = t := by
  induction t with
  | nil => rw [rawValue]
  | cons c t ih =>
    rw [rawValue_cons, stopsValue_of_isDelimitable h, ih h.2]
    rfl

/-- A place where a value may stop is a word boundary. -/
theorem endsName_of_stopsValue {t : Text} (h : stopsValue t = true) : endsName t = true := by
  cases t with
  | nil => rfl
  | cons c t =>
    rw [endsName, List.head?_cons]
    exact Bool.or_eq_true_iff.mpr (.inr (isAsciiBlank_of_stopsValue h))

/-- Whether a value stops does not depend on what stands behind a stop. -/
theorem stopsValue_append {t rest : Text} (ht : t ≠ []) (h : stopsValue rest = true) :
    stopsValue (t ++ rest) = stopsValue t := by
  obtain ⟨c, t, rfl⟩ := List.exists_cons_of_ne_nil ht
  rw [List.cons_append, stopsValue, stopsValue, List.dropWhile_append]
  cases hd : t.dropWhile isAsciiBlank with
  | cons d u =>
    rw [List.isEmpty_cons, if_neg Bool.false_ne_true, List.cons_append, endsValue_cons,
      endsValue_cons, ←List.cons_append,
      startsOption_append (List.cons_ne_nil d u) (endsName_of_stopsValue h)]
  | nil =>
    rw [List.isEmpty_nil, if_pos rfl, endsValue_dropWhile_of_stopsValue h]
    rfl

/-- Text that follows at a place where a value may stop is never taken into
the value. -/
theorem rawValue_append (t : Text) {rest : Text} (h : stopsValue rest = true) :
    rawValue (t ++ rest) = rawValue t := by
  induction t with
  | nil => rw [List.nil_append, rawValue_of_stopsValue h, rawValue]
  | cons c t ih =>
    have hs := stopsValue_append (List.cons_ne_nil c t) h
    rw [List.cons_append] at hs ⊢
    rw [rawValue_cons, rawValue_cons, hs, ih]

end DataPipeline.Definition
