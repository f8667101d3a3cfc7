import DataPipeline.Proofs.Json.StringLiteral
import DataPipeline.Proofs.Text.Digits
import Mathlib.Data.List.DropRight

/-!
# The reader accepts every JSON text

Each part of a JSON text is cut off as a whole by the cutter for its kind, up to
blanks behind it, so every text that spells a value is read as that value. The
nesting of a value is bounded by the length of its text, so the reader never runs
out of its bound.
-/

namespace DataPipeline.Json

open Text

section Blanks

variable {gap t : Text} {c : Char}

/-- Blanks in front of a text are skipped. -/
theorem skipBlanks_append (h : AreBlanks gap) : skipBlanks (gap ++ t) = skipBlanks t :=
  List.dropWhile_append_of_pos h

/-- Skipping stops at once where no blank stands. -/
theorem skipBlanks_cons (h : isJsonBlank c = false) : skipBlanks (c :: t) = c :: t :=
  List.dropWhile_cons_of_neg (by rw [h]; exact Bool.false_ne_true)

/-- Blanks are skipped up to the first other character. -/
theorem skipBlanks_blanks_cons (h : AreBlanks gap) (hc : isJsonBlank c = false) :
    skipBlanks (gap ++ c :: t) = c :: t := by
  rw [skipBlanks_append h, skipBlanks_cons hc]

/-- Nothing is left to skip behind skipped blanks. -/
theorem skipBlanks_skipBlanks : skipBlanks (skipBlanks t) = skipBlanks t :=
  List.dropWhile_idempotent _ t

/-- Blanks in front of a value do not matter. -/
theorem cutValue?_skipBlanks {bound : Nat} :
    cutValue? bound (skipBlanks t) = cutValue? bound t := by
  cases bound with
  | zero => rfl
  | succ bound => rw [cutValue?, cutValue?, skipBlanks_skipBlanks]

/-- Items are cut alike with and without blanks before them. -/
theorem cutItems?_skipBlanks {bound : Nat} :
    cutItems? bound (skipBlanks t) = cutItems? bound t := by
  cases bound with
  | zero => rfl
  | succ bound => rw [cutItems?, cutItems?, cutValue?_skipBlanks]

/-- Members are cut alike with and without blanks before them. -/
theorem cutMembers?_skipBlanks {bound : Nat} :
    cutMembers? bound (skipBlanks t) = cutMembers? bound t := by
  cases bound with
  | zero => rfl
  | succ bound => rw [cutMembers?, cutMembers?, skipBlanks_skipBlanks]

end Blanks

section Numbers

/-- Whether a number may end before a text. -/
def endsNumber (t : Text) : Bool :=
  t.head?.all fun c => !(c.isDigit || c = '.' || c = 'e' || c = 'E')

variable {digits whole fraction exponent literal rest : Text}

/-- A number ends where no character follows that could go on with it. -/
theorem endsNumber_iff : endsNumber rest = true ↔
    ∀ c ∈ rest.head?, c.isDigit = false ∧ c ≠ '.' ∧ c ≠ 'e' ∧ c ≠ 'E' := by
  cases rest <;> simp [endsNumber, and_assoc]

/-- A number that ends before a text also ends before blanks and that text. -/
theorem endsNumber_blanks {gap t : Text} (h : AreBlanks gap) (ht : endsNumber t = true) :
    endsNumber (gap ++ t) = true := by
  cases gap with
  | nil => exact ht
  | cons c gap =>
    have hc := h c List.mem_cons_self
    simp only [isJsonBlank, Bool.or_eq_true, decide_eq_true_eq] at hc
    rcases hc with ((rfl | rfl) | rfl) | rfl <;> rfl

/-- A run of digits is cut off where no digit follows. -/
theorem AreDigits.cut (h : AreDigits digits) (hrest : ∀ c ∈ rest.head?, c.isDigit = false) :
    (digits ++ rest).takeWhile Char.isDigit = digits ∧
      (digits ++ rest).dropWhile Char.isDigit = rest := cut_digits h.digit hrest

/-- A whole part begins with a digit. -/
theorem IsWhole.head (h : IsWhole whole) : ∃ c t, whole = c :: t ∧ c.isDigit = true := by
  cases h with
  | zero => exact ⟨'0', [], rfl, rfl⟩
  | @digits c t first spelled => exact ⟨c, t, rfl, spelled.digit c List.mem_cons_self⟩

/-- A whole part is cut off where no digit follows. -/
theorem IsWhole.cut (h : IsWhole whole) (hrest : ∀ c ∈ rest.head?, c.isDigit = false) :
    cutInteger? (whole ++ rest) = some (whole, rest) := by
  cases h with
  | zero => rfl
  | @digits c t first spelled =>
    obtain ⟨htake, hdrop⟩ := spelled.cut hrest
    rw [List.cons_append] at htake hdrop ⊢
    rw [cutInteger?]
    · rw [htake, hdrop]
      rfl
    · rintro after heq
      exact absurd (List.cons.inj heq).1 first

/-- A fraction is cut off where neither a digit nor a point follows. -/
theorem IsFraction.cut (h : IsFraction fraction)
    (hrest : ∀ c ∈ rest.head?, c.isDigit = false ∧ c ≠ '.') :
    cutFraction? (fraction ++ rest) = some (fraction, rest) := by
  cases h with
  | none =>
    rw [List.nil_append, cutFraction?]
    rintro after rfl
    exact (hrest '.' rfl).2 rfl
  | point spelled =>
    obtain ⟨htake, hdrop⟩ := spelled.cut fun c hc => (hrest c hc).1
    rw [List.cons_append, cutFraction?, htake, hdrop]
    exact if_neg spelled.nonempty

/-- An exponent is cut off where the number ends. -/
theorem IsExponent.cut (h : IsExponent exponent) (hrest : endsNumber rest = true) :
    cutExponent? (exponent ++ rest) = some (exponent, rest) := by
  rw [endsNumber_iff] at hrest
  cases h with
  | none =>
    cases rest with
    | nil => rfl
    | cons c t =>
      obtain ⟨-, -, he, hE⟩ := hrest c rfl
      rw [List.nil_append, cutExponent?, if_neg (by simp [he, hE])]
  | @mark mark sign digits letter signed spelled =>
    obtain ⟨htake, hdrop⟩ := spelled.cut fun c hc => (hrest c hc).1
    have hsign :
        ((sign ++ (digits ++ rest)).takeWhile fun c => c = '+' || c = '-').take 1 = sign := by
      obtain ⟨d, ds, rfl⟩ := List.exists_cons_of_ne_nil spelled.nonempty
      have hd := spelled.digit d List.mem_cons_self
      have hplus : d ≠ '+' := by rintro rfl; cases hd
      have hminus : d ≠ '-' := by rintro rfl; cases hd
      rcases signed with rfl | rfl | rfl <;> simp [hplus, hminus]
    rw [List.cons_append, cutExponent?, if_pos (by simpa using letter), List.append_assoc]
    simp only [hsign, List.drop_left, htake, hdrop, if_neg spelled.nonempty]

/-- A fraction or an exponent does not begin with a digit. -/
theorem head?_exponent (h : IsExponent exponent) (hrest : endsNumber rest = true) :
    ∀ c ∈ (exponent ++ rest).head?, c.isDigit = false ∧ c ≠ '.' := by
  cases h with
  | none => exact fun c hc => (endsNumber_iff.mp hrest c hc).imp_right And.left
  | mark letter signed spelled =>
    rintro c hc
    cases hc
    rcases letter with rfl | rfl <;> decide

/-- No digit follows a whole part, whether there is a fraction or not. -/
theorem head?_fraction (h : IsFraction fraction)
    (hrest : ∀ c ∈ rest.head?, c.isDigit = false ∧ c ≠ '.') :
    ∀ c ∈ (fraction ++ rest).head?, c.isDigit = false := by
  cases h with
  | none => exact fun c hc => (hrest c hc).1
  | point spelled =>
    rintro c hc
    cases hc
    rfl

/-- A number is cut off whole before everything that a number may end before. -/
theorem IsNumeral.cut (h : IsNumeral literal) (hrest : endsNumber rest = true) :
    cutNumber? (literal ++ rest) = some (literal, rest) := by
  cases h with
  | @parts sign whole fraction exponent signed isWhole isFraction isExponent =>
    have hexponent := head?_exponent isExponent hrest
    have hwhole : cutInteger? (whole ++ (fraction ++ (exponent ++ rest))) = _ :=
      isWhole.cut (head?_fraction isFraction hexponent)
    have hsign : (if (sign ++ (whole ++ (fraction ++ (exponent ++ rest)))).head? = some '-' then
        ['-'] else []) = sign := by
      obtain ⟨d, ds, rfl, hd⟩ := isWhole.head
      have hminus : d ≠ '-' := by rintro rfl; cases hd
      rcases signed with rfl | rfl <;> simp [hminus]
    simp only [List.append_assoc]
    rw [cutNumber?, hsign]
    simp [hwhole, isFraction.cut hexponent, isExponent.cut hrest]

/-- A number begins with a sign or a digit. -/
theorem IsNumeral.head (h : IsNumeral literal) :
    ∃ c t, literal = c :: t ∧ (c = '-' ∨ c.isDigit = true) := by
  cases h with
  | parts signed isWhole isFraction isExponent =>
    obtain ⟨d, ds, rfl, hd⟩ := isWhole.head
    rcases signed with rfl | rfl
    · exact ⟨d, _, rfl, .inr hd⟩
    · exact ⟨'-', _, rfl, .inl rfl⟩

end Numbers

section Values

variable {bound : Nat} {t rest : Text} {j : Json}

/-- The first character of a number is a minus or a digit and no other one. -/
theorem ne_of_number_head {c d : Char} (hc : c = '-' ∨ c.isDigit = true)
    (hdigit : d.isDigit = false) (hminus : d ≠ '-') : c ≠ d := by
  rintro rfl
  rcases hc with rfl | hc
  · exact hminus rfl
  · exact Bool.false_ne_true (hdigit.symm.trans hc)

/-- A number does not begin with a blank. -/
theorem isJsonBlank_of_number_head {c : Char} (hc : c = '-' ∨ c.isDigit = true) :
    isJsonBlank c = false := by
  simp [isJsonBlank, ne_of_number_head hc (d := ' ') rfl (by decide),
    ne_of_number_head hc (d := '\n') rfl (by decide),
    ne_of_number_head hc (d := '\t') rfl (by decide),
    ne_of_number_head hc (d := '\r') rfl (by decide)]

/-- What begins as numbers do is read as a number. -/
theorem cutValue?_number {c : Char} (hc : c = '-' ∨ c.isDigit = true) (t : Text) :
    cutValue? (bound + 1) (c :: t) =
      (cutNumber? (c :: t)).map fun (literal, after) => (.number literal, after) := by
  have hne : ∀ d : Char, d.isDigit = false → d ≠ '-' → c ≠ d := fun d => ne_of_number_head hc
  rw [cutValue?, skipBlanks_cons (isJsonBlank_of_number_head hc)]
  split
  case h_1 h => exact absurd (List.cons.inj h).1 (hne 'n' rfl (by decide))
  case h_2 h => exact absurd (List.cons.inj h).1 (hne 't' rfl (by decide))
  case h_3 h => exact absurd (List.cons.inj h).1 (hne 'f' rfl (by decide))
  case h_4 h => exact absurd (List.cons.inj h).1 (hne '"' rfl (by decide))
  case h_5 h => exact absurd (List.cons.inj h).1 (hne '[' rfl (by decide))
  case h_6 h => exact absurd (List.cons.inj h).1 (hne '\x7b' rfl (by decide))
  case h_7 => rfl

/-- The spelling of a value begins, behind blanks, with a character that closes no
array. -/
theorem Spells.exists_cons (h : Spells t j) :
    ∃ c u, c ≠ ']' ∧ ∀ rest, skipBlanks (t ++ rest) = c :: (u ++ rest) := by
  induction h with
  | null | string | array | object => exact ⟨_, _, by decide, fun _ => skipBlanks_cons rfl⟩
  | bool value => cases value <;> exact ⟨_, _, by decide, fun _ => skipBlanks_cons rfl⟩
  | number numeral =>
    obtain ⟨c, u, rfl, hc⟩ := numeral.head
    exact ⟨c, u, ne_of_number_head hc rfl (by decide),
      fun _ => skipBlanks_cons (isJsonBlank_of_number_head hc)⟩
  | @blanks before t after j front back spelled ih =>
    obtain ⟨c, u, hclose, hskip⟩ := ih
    refine ⟨c, u ++ after, hclose, fun rest => ?_⟩
    rw [List.append_assoc, List.append_assoc, skipBlanks_append front, hskip, List.append_assoc]

/-- A text is cut off as the spelling of a value, up to blanks behind the value,
before everything that a number may end before. The length of the text is a bound
that suffices. -/
def IsCut (t : Text) (j : Json) : Prop :=
  ∃ gap, AreBlanks gap ∧ ∀ bound rest, t.length ≤ bound → endsNumber rest = true →
    cutValue? bound (t ++ rest) = some (j, gap ++ rest)

/-- The items of an array are cut off with its closing bracket. -/
theorem cutItems?_intercalate {item : Text × Json} {items : List (Text × Json)}
    (h : ∀ i ∈ item :: items, IsCut i.1 i.2)
    (hbound : ([','].intercalate ((item :: items).map Prod.fst)).length < bound) :
    cutItems? bound ([','].intercalate ((item :: items).map Prod.fst) ++ ']' :: rest) =
      some ((item :: items).map Prod.snd, rest) := by
  -- One turn takes one item, and the bound falls by one while the text gets shorter.
  induction items generalizing item bound with
  | nil =>
    rw [List.map_singleton, List.intercalate_singleton] at hbound ⊢
    obtain ⟨gap, hgap, hcut⟩ := h item List.mem_cons_self
    obtain ⟨bound, rfl⟩ : ∃ b, bound = b + 1 := ⟨bound - 1, by omega⟩
    rw [cutItems?, hcut _ _ (by omega) rfl]
    simp [skipBlanks_blanks_cons hgap (c := ']') rfl]
  | cons next items ih =>
    rw [List.map_cons, List.map_cons, List.intercalate_cons_cons] at hbound ⊢
    simp only [List.length_append, List.length_singleton] at hbound
    obtain ⟨gap, hgap, hcut⟩ := h item List.mem_cons_self
    obtain ⟨bound, rfl⟩ : ∃ b, bound = b + 1 := ⟨bound - 1, by omega⟩
    have hitems :
        cutItems? bound ([','].intercalate ((next :: items).map Prod.fst) ++ ']' :: rest) =
          some ((next :: items).map Prod.snd, rest) :=
      ih (fun i hi => h i (List.mem_cons_of_mem _ hi)) (by rw [List.map_cons]; omega)
    rw [List.append_assoc, List.append_assoc, cutItems?, hcut _ _ (by omega) rfl]
    simp only [List.map_cons] at hitems
    simp [skipBlanks_blanks_cons hgap (c := ',') rfl, hitems]

/-- A member is cut off up to what follows its value. -/
theorem cutMembers?_member {m : MemberText} (hkey : Spells m.keyText (.string m.key))
    (hvalue : IsCut m.valueText m.value) (hbound : m.valueText.length ≤ bound)
    (ht : endsNumber t = true) :
    cutMembers? (bound + 1) (m.text ++ t) =
      match skipBlanks t with
      | '\x7d' :: after => some ([(m.key, m.value)], after)
      | ',' :: rest =>
        (cutMembers? bound rest).map fun (members, after) => ((m.key, m.value) :: members, after)
      | _ => none := by
  obtain ⟨keyText, key, valueText, value⟩ := m
  obtain ⟨before, literal, body, after, rfl, hbefore, hafter, hbody, rfl⟩ := hkey.exists_literal
  obtain ⟨gap, hgap, hcut⟩ := hvalue
  have htext : MemberText.text ⟨before ++ '"' :: (literal ++ '"' :: after), bodyText? body,
      valueText, value⟩ ++ t =
        before ++ '"' :: (literal ++ '"' :: (after ++ ':' :: (valueText ++ t))) := by
    simp [MemberText.text]
  rw [htext, cutMembers?, skipBlanks_blanks_cons hbefore rfl]
  simp only [cutString?_of_spells hbody, Option.bind_eq_bind, Option.bind_some,
    skipBlanks_blanks_cons hafter (c := ':') rfl, hcut _ _ hbound ht, skipBlanks_append hgap]
  -- The arms of the match are told apart by the character behind the value.
  generalize skipBlanks t = s
  rcases s with - | ⟨c, s⟩
  · rfl
  · by_cases hclose : c = '\x7d'
    · subst hclose
      rfl
    · by_cases hcomma : c = ','
      · subst hcomma
        simp only [Option.pure_def, Option.map_eq_bind]
        rfl
      · split <;> simp_all

/-- The value of a member is shorter than the member. -/
theorem MemberText.length_valueText_lt (m : MemberText) : m.valueText.length < m.text.length := by
  simp only [MemberText.text, List.length_append, List.length_cons]
  omega

/-- The members of an object are cut off with its closing brace. -/
theorem cutMembers?_intercalate {m : MemberText} {members : List MemberText}
    (hkeys : ∀ m' ∈ m :: members, Spells m'.keyText (.string m'.key))
    (hvalues : ∀ m' ∈ m :: members, IsCut m'.valueText m'.value)
    (hbound : ([','].intercalate ((m :: members).map MemberText.text)).length < bound) :
    cutMembers? bound ([','].intercalate ((m :: members).map MemberText.text) ++ '\x7d' :: rest) =
      some ((m :: members).map fun m' => (m'.key, m'.value), rest) := by
  induction members generalizing m bound with
  | nil =>
    rw [List.map_singleton, List.intercalate_singleton] at hbound ⊢
    have hlength := m.length_valueText_lt
    obtain ⟨bound, rfl⟩ : ∃ b, bound = b + 1 := ⟨bound - 1, by omega⟩
    rw [cutMembers?_member (hkeys m List.mem_cons_self) (hvalues m List.mem_cons_self) (by omega)
      rfl, skipBlanks_cons rfl]
    rfl
  | cons next members ih =>
    rw [List.map_cons, List.map_cons, List.intercalate_cons_cons] at hbound ⊢
    simp only [List.length_append, List.length_singleton] at hbound
    have hlength := m.length_valueText_lt
    obtain ⟨bound, rfl⟩ : ∃ b, bound = b + 1 := ⟨bound - 1, by omega⟩
    have hmembers : cutMembers? bound
        ([','].intercalate ((next :: members).map MemberText.text) ++ '\x7d' :: rest) =
          some ((next :: members).map fun m' => (m'.key, m'.value), rest) :=
      ih (fun m' hm => hkeys m' (List.mem_cons_of_mem _ hm))
        (fun m' hm => hvalues m' (List.mem_cons_of_mem _ hm)) (by rw [List.map_cons]; omega)
    rw [List.append_assoc, List.append_assoc, cutMembers?_member (hkeys m List.mem_cons_self)
      (hvalues m List.mem_cons_self) (by omega) rfl, List.singleton_append, skipBlanks_cons rfl]
    simp only [List.map_cons] at hmembers ⊢
    rw [hmembers]
    rfl

/-- An array that is not closed at once is read by its items. -/
theorem cutValue?_array {gap : Text} (blank : AreBlanks gap) {c : Char} {u : Text}
    (h : skipBlanks t = c :: u) (hc : c ≠ ']') :
    cutValue? (bound + 1) ('[' :: (gap ++ t)) =
      (cutItems? bound t).map fun (found, after) => (.array found, after) := by
  have hitems : cutItems? bound (c :: u) = cutItems? bound t := by rw [←h, cutItems?_skipBlanks]
  rw [cutValue?, skipBlanks_cons rfl]
  simp [skipBlanks_append blank, h, hc, hitems]

/-- An object that is not closed at once is read by its members. -/
theorem cutValue?_object {gap : Text} (blank : AreBlanks gap) {c : Char} {u : Text}
    (h : skipBlanks t = c :: u) (hc : c ≠ '\x7d') :
    cutValue? (bound + 1) ('\x7b' :: (gap ++ t)) =
      (cutMembers? bound t).map fun (found, after) => (.object found, after) := by
  have hmembers : cutMembers? bound (c :: u) = cutMembers? bound t := by
    rw [←h, cutMembers?_skipBlanks]
  rw [cutValue?, skipBlanks_cons rfl]
  simp [skipBlanks_append blank, h, hc, hmembers]

/-- Joined parts begin with the first one. -/
theorem exists_intercalate (part : Text) (parts : List Text) (t : Text) :
    ∃ u, [','].intercalate (part :: parts) ++ t = part ++ u := by
  cases parts with
  | nil => exact ⟨t, by rw [List.intercalate_singleton]⟩
  | cons next parts =>
    exact ⟨[','] ++ ([','].intercalate (next :: parts) ++ t), by
      rw [List.intercalate_cons_cons, List.append_assoc, List.append_assoc]⟩

/-- A value has a text, so the reader is entered with a bound above zero. -/
theorem isCut_of_succ (ht : t ≠ []) (h : ∀ bound rest, t.length ≤ bound + 1 →
    endsNumber rest = true → cutValue? (bound + 1) (t ++ rest) = some (j, rest)) : IsCut t j := by
  refine ⟨[], List.forall_mem_nil _, fun bound rest hbound hrest => ?_⟩
  have hpos := List.length_pos_of_ne_nil ht
  obtain ⟨bound, rfl⟩ : ∃ b, bound = b + 1 := ⟨bound - 1, by omega⟩
  exact h bound rest hbound hrest

/-- An array is cut off if its items are. -/
theorem isCut_array {gap : Text} {items : List (Text × Json)} (blank : AreBlanks gap)
    (spelled : ∀ item ∈ items, Spells item.1 item.2) (h : ∀ item ∈ items, IsCut item.1 item.2) :
    IsCut ('[' :: (gap ++ [','].intercalate (items.map Prod.fst) ++ [']']))
      (.array (items.map Prod.snd)) := by
  refine isCut_of_succ (List.cons_ne_nil _ _) fun bound rest hbound _ => ?_
  simp only [List.length_cons, List.length_append, List.length_nil] at hbound
  simp only [List.cons_append, List.append_assoc, List.nil_append]
  cases items with
  | nil =>
    rw [cutValue?, skipBlanks_cons rfl]
    simp [skipBlanks_blanks_cons blank (c := ']') rfl]
  | cons item items =>
    obtain ⟨c, u, hclose, hskip⟩ := (spelled item List.mem_cons_self).exists_cons
    obtain ⟨after, hafter⟩ := exists_intercalate item.1 (items.map Prod.fst) (']' :: rest)
    rw [cutValue?_array blank (by rw [List.map_cons, hafter, hskip]) hclose,
      cutItems?_intercalate h (by omega)]
    rfl

/-- An object is cut off if the values of its members are. -/
theorem isCut_object {gap : Text} {members : List MemberText} (blank : AreBlanks gap)
    (keys : ∀ m ∈ members, Spells m.keyText (.string m.key))
    (h : ∀ m ∈ members, IsCut m.valueText m.value) :
    IsCut ('\x7b' :: (gap ++ [','].intercalate (members.map MemberText.text) ++ ['\x7d']))
      (.object (members.map fun m => (m.key, m.value))) := by
  refine isCut_of_succ (List.cons_ne_nil _ _) fun bound rest hbound _ => ?_
  simp only [List.length_cons, List.length_append, List.length_nil] at hbound
  simp only [List.cons_append, List.append_assoc, List.nil_append]
  cases members with
  | nil =>
    rw [cutValue?, skipBlanks_cons rfl]
    simp [skipBlanks_blanks_cons blank (c := '\x7d') rfl]
  | cons m members =>
    obtain ⟨before, literal, body, gapAfter, hkey, hbefore, -⟩ :=
      (keys m List.mem_cons_self).exists_literal
    obtain ⟨after, hafter⟩ :=
      exists_intercalate m.text (members.map MemberText.text) ('\x7d' :: rest)
    have hfirst : skipBlanks ([','].intercalate ((m :: members).map MemberText.text) ++
        '\x7d' :: rest) =
          '"' :: (literal ++ '"' :: (gapAfter ++ ':' :: (m.valueText ++ after))) := by
      rw [List.map_cons, hafter, MemberText.text, hkey, List.append_assoc, List.append_assoc,
        skipBlanks_append hbefore]
      simp [skipBlanks_cons (c := '"') rfl]
    rw [cutValue?_object blank hfirst (by decide), cutMembers?_intercalate keys h (by omega)]
    rfl

/-- Every spelling of a value is cut off as this value. -/
theorem Spells.isCut (h : Spells t j) : IsCut t j := by
  induction h with
  | null => exact isCut_of_succ (List.cons_ne_nil _ _) fun _ _ _ _ => rfl
  | bool value =>
    refine isCut_of_succ (by cases value <;> exact List.cons_ne_nil _ _) fun _ _ _ _ => ?_
    cases value <;> rfl
  | number numeral =>
    obtain ⟨c, t, rfl, hc⟩ := numeral.head
    refine isCut_of_succ (List.cons_ne_nil _ _) fun bound rest _ hrest => ?_
    have hcut := numeral.cut hrest
    rw [List.cons_append] at hcut ⊢
    rw [cutValue?_number hc, hcut]
    rfl
  | string spelled =>
    refine isCut_of_succ (List.cons_ne_nil _ _) fun bound rest _ _ => ?_
    rw [List.cons_append, List.append_assoc, cutValue?, skipBlanks_cons rfl]
    simp [cutString?_of_spells spelled]
  | array blank spelled ih => exact isCut_array blank spelled ih
  | object blank keys _ _ ih => exact isCut_object blank keys ih
  | @blanks before t after j front back _ ih =>
    -- The blanks behind the value are left over and join those of the inner text.
    obtain ⟨gap, hgap, hcut⟩ := ih
    refine ⟨gap ++ after, List.forall_mem_append.mpr ⟨hgap, back⟩, ?_⟩
    intro bound rest hbound hrest
    rw [List.length_append, List.length_append] at hbound
    rw [←cutValue?_skipBlanks, List.append_assoc, List.append_assoc, skipBlanks_append front,
      cutValue?_skipBlanks, hcut _ _ (by omega) (endsNumber_blanks back hrest), List.append_assoc]

/-- Every text that spells a value is read as this value. -/
theorem read?_of_spells (h : Spells t j) : read? t = some j := by
  obtain ⟨gap, hgap, hcut⟩ := h.isCut
  have hread := hcut (2 * t.length + 2) [] (by omega) rfl
  have hrest : skipBlanks gap = [] := by
    rw [←List.append_nil gap, skipBlanks_append hgap]
    rfl
  rw [List.append_nil, List.append_nil] at hread
  rw [read?, hread]
  exact if_pos hrest

end Values

end DataPipeline.Json
