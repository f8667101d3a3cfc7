import DataPipeline.Definition.Token
import Mathlib.Data.List.TakeWhile

/-!
# Word boundaries

A word of a definition ends before an ASCII blank, before `|` or at the end of
the text. Whatever is read of a word is therefore the same with and without
the text behind such a boundary.
-/

namespace DataPipeline.Definition

open Text

/-- The ASCII letters by their numbers. -/
theorem isAlpha_iff {c : Char} :
    c.isAlpha = true ↔ (65 ≤ c.toNat ∧ c.toNat ≤ 90) ∨ (97 ≤ c.toNat ∧ c.toNat ≤ 122) := by
  change (decide (c.val ≥ 'A'.val ∧ c.val ≤ 'Z'.val) ||
    (decide (c.val ≥ 'a'.val) && decide (c.val ≤ 'z'.val))) = true ↔ _
  rw [Bool.or_eq_true, Bool.and_eq_true, decide_eq_true_eq, decide_eq_true_eq, decide_eq_true_eq]
  exact Iff.rfl

/-- A text starts an option if its first two characters are hyphens. -/
theorem startsOption_cons (c : Char) (t : Text) :
    startsOption (c :: t) = (decide (c = '-') && decide (t.head? = some '-')) := by
  by_cases hc : c = '-'
  · subst hc
    cases t with
    | nil => rfl
    | cons d t =>
      by_cases hd : d = '-'
      · subst hd
        rfl
      · rw [List.head?_cons, decide_eq_false (fun h => hd (Option.some.inj h)), Bool.and_false]
        unfold startsOption
        split
        · next heq => exact absurd (List.cons.inj (List.cons.inj heq).2).1 hd
        · rfl
  · rw [decide_eq_false hc, Bool.false_and]
    unfold startsOption
    split
    · next heq => exact absurd (List.cons.inj heq).1 hc
    · rfl

/-- A text that starts with an option mark is the mark and the rest. -/
theorem startsOption_iff {t : Text} :
    startsOption t = true ↔ ∃ rest, t = '-' :: '-' :: rest := by
  constructor
  · intro h
    unfold startsOption at h
    split at h
    · next rest => exact ⟨rest, rfl⟩
    · cases h
  · rintro ⟨rest, rfl⟩
    rfl

/-- Behind the mark the head of an option is a key and `=`. -/
theorem startsOptionHead_mark (t : Text) :
    startsOptionHead ('-' :: '-' :: t) =
      (leadingIdent t ≠ [] && (t.drop (leadingIdent t).length).head? = some '=') := rfl

/-- Without the mark there is no head of an option. -/
theorem startsOptionHead_eq_false {t : Text} (h : startsOption t = false) :
    startsOptionHead t = false := by
  unfold startsOptionHead
  split
  · cases h
  · rfl

/-- The first character behind a word boundary belongs to no word. -/
theorem boundary_character {c : Char} {t : Text} (h : endsName (c :: t) = true) :
    isIdentChar c = false ∧ c ≠ '=' ∧ c ≠ '-' ∧ (isAsciiBlank c || decide (c = '|')) = true := by
  simp only [endsName, List.head?_cons, isAsciiBlank, Bool.or_eq_true, decide_eq_true_eq] at h
  rcases h with rfl | (((rfl | rfl) | rfl) | rfl) | rfl <;> decide

/-- What cannot stand in an identifier cannot begin one. -/
theorem isIdentStart_eq_false {c : Char} (h : isIdentChar c = false) : isIdentStart c = false := by
  cases hs : isIdentStart c with
  | false => rfl
  | true => rw [isIdentChar_of_isIdentStart hs] at h; cases h

/-- A scan that stops at the head of the rest does not reach into it. -/
theorem takeWhile_append_stop {p : Char → Bool} {t rest : Text}
    (h : ∀ c u, rest = c :: u → p c = false) : (t ++ rest).takeWhile p = t.takeWhile p := by
  induction t with
  | nil =>
    cases rest with
    | nil => rfl
    | cons c u =>
      rw [List.nil_append, List.takeWhile_cons_of_neg (by rw [h c u rfl]; exact Bool.false_ne_true)]
      rfl
  | cons d t ih =>
    rw [List.cons_append, List.takeWhile_cons, List.takeWhile_cons, ih]

section Append

variable {t rest : Text}

/-- Whether a name may stop does not depend on what stands behind a boundary. -/
theorem endsName_append (h : endsName rest = true) : endsName (t ++ rest) = endsName t := by
  cases t with
  | nil => exact h
  | cons c t => rfl

/-- A word does not go on behind a boundary. -/
theorem word_append (h : endsName rest = true) : word (t ++ rest) = word t := by
  refine takeWhile_append_stop fun c u hr => ?_
  subst hr
  rw [(boundary_character h).2.2.2]
  rfl

/-- The mark of an option does not reach across a boundary. -/
theorem startsOption_append (ht : t ≠ []) (h : endsName rest = true) :
    startsOption (t ++ rest) = startsOption t := by
  obtain ⟨c, t, rfl⟩ := List.exists_cons_of_ne_nil ht
  rw [List.cons_append, startsOption_cons, startsOption_cons]
  cases t with
  | cons d t => rfl
  | nil =>
    cases rest with
    | nil => rfl
    | cons b rest => simp [(boundary_character h).2.2.1]

/-- An identifier does not go on behind a boundary. -/
theorem leadingIdent_append (h : endsName rest = true) :
    leadingIdent (t ++ rest) = leadingIdent t := by
  cases t with
  | nil =>
    cases rest with
    | nil => rfl
    | cons b rest =>
      have hb := isIdentStart_eq_false (boundary_character h).1
      simp [leadingIdent, hb]
  | cons c t =>
    rw [List.cons_append, leadingIdent, leadingIdent, ←List.cons_append,
      takeWhile_append_stop]
    rintro b u rfl
    exact (boundary_character h).1

/-- The identifier at the front of a text is a part of it. -/
theorem leadingIdent_length_le (t : Text) : (leadingIdent t).length ≤ t.length := by
  cases t with
  | nil => exact Nat.le_refl 0
  | cons c t =>
    rw [leadingIdent]
    split
    · exact (List.takeWhile_sublist _).length_le
    · exact Nat.zero_le _

/-- What stands behind the leading identifier, also across a boundary. -/
theorem drop_leadingIdent_append (h : endsName rest = true) :
    (t ++ rest).drop (leadingIdent (t ++ rest)).length =
      t.drop (leadingIdent t).length ++ rest := by
  rw [leadingIdent_append h, List.drop_append_of_le_length (leadingIdent_length_le t)]

/-- No `=` stands behind a boundary. -/
theorem head?_append_eq_equals (h : endsName rest = true) :
    (t ++ rest).head? = some '=' ↔ t.head? = some '=' := by
  cases t with
  | cons c t => rfl
  | nil =>
    cases rest with
    | nil => rfl
    | cons b rest => simp [(boundary_character h).2.1]

/-- The head of an option does not reach across a boundary. -/
theorem startsOptionHead_append (h : endsName rest = true) :
    startsOptionHead (t ++ rest) = startsOptionHead t := by
  by_cases ht : t = []
  · subst ht
    cases rest with
    | nil => rfl
    | cons b rest =>
      refine startsOptionHead_eq_false ?_
      rw [List.nil_append, startsOption_cons, decide_eq_false (boundary_character h).2.2.1]
      rfl
  · have hopt := startsOption_append ht h
    cases ho : startsOption t with
    | false => rw [startsOptionHead_eq_false (hopt.trans ho), startsOptionHead_eq_false ho]
    | true =>
      obtain ⟨u, rfl⟩ := startsOption_iff.mp ho
      change startsOptionHead ('-' :: '-' :: (u ++ rest)) = _
      rw [startsOptionHead_mark, startsOptionHead_mark, drop_leadingIdent_append h,
        leadingIdent_append h, decide_eq_decide.mpr (head?_append_eq_equals h)]

/-- A name is cut off at the same place with and without the text behind the
boundary. -/
theorem cutName?_append (h : endsName rest = true) :
    cutName? (t ++ rest) = (cutName? t).map fun cut => (cut.1, cut.2 ++ rest) := by
  induction t with
  | nil =>
    cases rest with
    | nil => rfl
    | cons b rest =>
      have ho : startsOptionHead (b :: rest) = false := startsOptionHead_append (t := []) h
      simp only [List.nil_append, cutName?, ho, (boundary_character h).1, Bool.false_eq_true,
        if_false, Option.map_some]
  | cons c t ih =>
    have ho := startsOptionHead_append (t := c :: t) h
    rw [List.cons_append] at ho ⊢
    rw [cutName?, cutName?, ho, ih]
    cases startsOptionHead (c :: t) with
    | true => rfl
    | false =>
      cases isIdentChar c with
      | false => rfl
      | true => cases cutName? t <;> rfl

end Append

/-- Identifier characters alone make no option head, for want of its `=`. -/
theorem startsOptionHead_of_isIdentChar {t : Text} (h : ∀ c ∈ t, isIdentChar c = true) :
    startsOptionHead t = false := by
  cases ho : startsOption t with
  | false => exact startsOptionHead_eq_false ho
  | true =>
    obtain ⟨u, rfl⟩ := startsOption_iff.mp ho
    rw [startsOptionHead_mark, Bool.and_eq_false_iff]
    refine .inr (decide_eq_false fun heq => ?_)
    have hm : '=' ∈ u := List.mem_of_mem_drop (List.mem_of_mem_head? heq)
    have hc := h '=' (List.mem_cons_of_mem _ (List.mem_cons_of_mem _ hm))
    exact absurd hc (by decide)

/-- Characters of an identifier are cut off as a name up to the end. -/
theorem cutName?_of_isIdentChar {t : Text} (h : ∀ c ∈ t, isIdentChar c = true) :
    cutName? t = some (t, []) := by
  induction t with
  | nil => rfl
  | cons c t ih =>
    rw [cutName?, startsOptionHead_of_isIdentChar h, h c List.mem_cons_self,
      ih fun d hd => h d (List.mem_cons_of_mem _ hd)]
    rfl

/-- A name that is cut off consists of identifier characters and is followed
by the rest of the text. -/
theorem cutName?_eq_some {t name after : Text} (h : cutName? t = some (name, after)) :
    t = name ++ after ∧ ∀ c ∈ name, isIdentChar c = true := by
  induction t generalizing name with
  | nil =>
    cases h
    exact ⟨rfl, List.forall_mem_nil _⟩
  | cons c t ih =>
    rw [cutName?] at h
    split at h
    · cases h
    · split at h
      · next hc =>
        obtain ⟨cut, hcut, heq⟩ := Option.map_eq_some_iff.mp h
        obtain ⟨hname, hafter⟩ := Prod.mk.inj heq
        have hcut' : cutName? t = some (cut.1, after) := by rw [hcut, ←hafter]
        obtain ⟨ht, hall⟩ := ih hcut'
        subst hname
        refine ⟨by rw [List.cons_append, ←ht], fun d hd => ?_⟩
        rcases List.mem_cons.mp hd with rfl | hd
        · exact hc
        · exact hall d hd
      · cases h
        exact ⟨rfl, List.forall_mem_nil _⟩

/-- The characters of an identifier, of which the first one is special. -/
theorem isIdent_cons {c : Char} {t : Text} :
    IsIdent (c :: t) ↔ isIdentStart c = true ∧ ∀ d ∈ t, isIdentChar d = true := by
  rw [IsIdent, List.all_eq_true]

/-- All characters of an identifier can stand in one. -/
theorem isIdentChar_of_isIdent {t : Text} (h : IsIdent t) : ∀ c ∈ t, isIdentChar c = true := by
  cases t with
  | nil => exact h.elim
  | cons c t =>
    obtain ⟨hc, ht⟩ := isIdent_cons.mp h
    intro d hd
    rcases List.mem_cons.mp hd with rfl | hd
    · exact isIdentChar_of_isIdentStart hc
    · exact ht d hd

/-- An identifier is read back whole in front of any other character. -/
theorem leadingIdent_of_isIdent {key rest : Text} (h : IsIdent key)
    (hrest : ∀ c u, rest = c :: u → isIdentChar c = false) : leadingIdent (key ++ rest) = key := by
  have hall := isIdentChar_of_isIdent h
  cases key with
  | nil => exact h.elim
  | cons c t =>
    rw [List.cons_append, leadingIdent, if_pos (isIdent_cons.mp h).1, ←List.cons_append,
      takeWhile_append_stop hrest]
    exact List.takeWhile_eq_self_iff.mpr hall

/-- The identifier at the front of a text is one unless it is empty. -/
theorem isIdent_leadingIdent {t : Text} (h : leadingIdent t ≠ []) : IsIdent (leadingIdent t) := by
  cases t with
  | nil => exact absurd rfl h
  | cons c t =>
    rw [leadingIdent] at h ⊢
    split at h
    · next hc =>
      rw [if_pos hc, List.takeWhile_cons_of_pos (isIdentChar_of_isIdentStart hc), IsIdent]
      exact ⟨hc, List.all_takeWhile⟩
    · exact absurd rfl h

/-- A text is its leading identifier and what stands behind it. -/
theorem leadingIdent_append_drop (t : Text) :
    leadingIdent t ++ t.drop (leadingIdent t).length = t := by
  cases t with
  | nil => rfl
  | cons c t =>
    rw [leadingIdent]
    split
    · exact List.prefix_iff_eq_append.mp (List.takeWhile_prefix _)
    · rfl

end DataPipeline.Definition
