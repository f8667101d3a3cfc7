import DataPipeline.Proofs.DatePattern.CivilPattern

/-!
# Texts that match a pattern

A text matches the pieces of a pattern one after the other: a blank stands for
any blanks, another character for itself and a field for a number. The match
is fixed by the text. The reader succeeds exactly on a match whose numbers its
fields admit, and collects these numbers.
-/

namespace DataPipeline.DatePattern

open Numeric Text

/-- The numbers that a pattern finds in a text, by their fields. -/
abbrev Found := CivilField → Option Int

/-- Pieces match the front of a text up to a rest, and find numbers in it. -/
inductive Matches : List Piece → Text → Text → Found → Prop
  | done (t : Text) : Matches [] t t fun _ => none
  /-- A blank stands for any blanks, also for none. -/
  | blank {c : Char} {pieces : List Piece} {t rest : Text} {found : Found}
      (isBlank_eq : isBlank c = true) (tail : Matches pieces (trimStart t) rest found) :
      Matches (.char c :: pieces) t rest found
  | char {c : Char} {pieces : List Piece} {t rest : Text} {found : Found}
      (isBlank_eq : isBlank c = false) (tail : Matches pieces t rest found) :
      Matches (.char c :: pieces) (c :: t) rest found
  /-- A number may have blanks in front. -/
  | number {field : CivilField} {pieces : List Piece} {blanks numeral t rest : Text} {n : Int}
      {found : Found} (isAllBlank_eq : isAllBlank blanks = true)
      (isNumeral : IsNumeral field.number t numeral n) (tail : Matches pieces t rest found) :
      Matches (.number field :: pieces) (blanks ++ numeral ++ t) rest
        (Function.update found field (some n))

section Pieces

variable {pieces : List Piece} {field : CivilField} {c : Char} {t rest : Text} {found : Found}

/-- Without pieces nothing is taken and nothing is found. -/
theorem matches_nil_iff : Matches [] t rest found ↔ rest = t ∧ found = fun _ => none := by
  constructor
  · intro h
    cases h
    exact ⟨rfl, rfl⟩
  · rintro ⟨rfl, rfl⟩
    exact .done _

/-- A character is matched by itself, a blank by any number of blanks. -/
theorem matches_char_iff :
    Matches (.char c :: pieces) t rest found ↔
      if isBlank c then Matches pieces (trimStart t) rest found
      else ∃ t', t = c :: t' ∧ Matches pieces t' rest found := by
  constructor
  · intro h
    cases h with
    | blank hc tail => rwa [if_pos hc]
    | char hc tail =>
      rw [if_neg (by rw [hc]; exact Bool.false_ne_true)]
      exact ⟨_, rfl, tail⟩
  · intro h
    split at h
    case isTrue hc => exact .blank hc h
    case isFalse hc =>
      obtain ⟨t', rfl, tail⟩ := h
      exact .char (Bool.eq_false_iff.mpr hc) tail

/-- A number is matched by its numeral, with blanks before it. -/
theorem matches_number_iff :
    Matches (.number field :: pieces) t rest found ↔
      ∃ blanks numeral n t' found', isAllBlank blanks = true ∧ t = blanks ++ numeral ++ t' ∧
        IsNumeral field.number t' numeral n ∧ Matches pieces t' rest found' ∧
        found = Function.update found' field (some n) := by
  constructor
  · intro h
    cases h with
    | number hblanks hnumeral tail => exact ⟨_, _, _, _, _, hblanks, rfl, hnumeral, tail, rfl⟩
  · rintro ⟨blanks, numeral, n, t', found', hblanks, rfl, hnumeral, tail, rfl⟩
    exact .number hblanks hnumeral tail

/-- A number in as many digits as its field takes matches whatever follows it. -/
theorem Matches.digits (digits : Text) (hlength : numberWidth field.number = some digits.length)
    (hne : digits ≠ []) (hdigits : ∀ c ∈ digits, c.isDigit = true)
    (tail : Matches pieces t rest found) :
    Matches (.number field :: pieces) (digits ++ t) rest
      (Function.update found field (some (ofDigits 10 digits))) := by
  have hrun : IsRun (numberWidth field.number) digits t := by
    refine ⟨hne, hdigits, fun n hn => ?_, .inl hlength⟩
    cases hlength.symm.trans hn
    exact Nat.le_refl _
  exact .number (rfl : isAllBlank [] = true) (.plain hrun) tail

/-- What a pattern finds in a text, and the rest of it, are fixed. -/
theorem Matches.unique {rest' : Text} {found' : Found} (h : Matches pieces t rest found)
    (h' : Matches pieces t rest' found') : rest = rest' ∧ found = found' := by
  induction h generalizing rest' found' with
  | done t =>
    obtain ⟨rfl, rfl⟩ := matches_nil_iff.mp h'
    exact ⟨rfl, rfl⟩
  | blank hc _ ih =>
    rw [matches_char_iff, if_pos hc] at h'
    exact ih h'
  | char hc _ ih =>
    rw [matches_char_iff, if_neg (by rw [hc]; exact Bool.false_ne_true)] at h'
    obtain ⟨t', ht, tail⟩ := h'
    cases ht
    exact ih tail
  | number hblanks hnumeral _ ih =>
    obtain ⟨blanks', numeral', n', t', found'', hblanks', ht, hnumeral', tail', rfl⟩ :=
      matches_number_iff.mp h'
    have heq := congrArg trimStart ht
    rw [hnumeral.trimStart_eq hblanks, hnumeral'.trimStart_eq hblanks'] at heq
    obtain ⟨rfl, rfl⟩ := hnumeral.unique hnumeral' heq
    obtain ⟨rfl, rfl⟩ := ih tail'
    exact ⟨rfl, rfl⟩

/-- A number is found for exactly the fields of a pattern. -/
theorem Matches.isSome_iff (h : Matches pieces t rest found) (field : CivilField) :
    (found field).isSome = true ↔ field ∈ patternFields pieces := by
  induction h with
  | done => simp [patternFields]
  | blank _ _ ih => simpa [patternFields, Piece.field?] using ih
  | char _ _ ih => simpa [patternFields, Piece.field?] using ih
  | @number field' pieces _ _ _ _ n found _ _ _ ih =>
    have hfields : patternFields (.number field' :: pieces) = field' :: patternFields pieces := rfl
    rw [hfields, List.mem_cons, ←ih]
    by_cases hfield : field = field'
    · simp [hfield]
    · simp [hfield]

end Pieces

/-- The fields that hold what was found. -/
def Fields.ofFound (found : Found) : Fields where
  year := found .year
  month := (found .month).map Int.toNat
  day := (found .day).map Int.toNat
  afternoon := (found .hour).map fun n => decide (12 ≤ n.toNat)
  hour := (found .hour).map fun n => n.toNat % 12
  minute := (found .minute).map Int.toNat
  second := (found .second).map Int.toNat

/-- Every number that was found is one that its field admits. -/
def Found.IsAdmitted (found : Found) : Prop := ∀ field n, found field = some n → field.Admits n

section Reading

variable {pieces : List Piece} {field : CivilField} {t : Text} {found before : Found} {n : Int}

/-- The bounds of a number are those of its field. -/
theorem bounded_eq (field : CivilField) {low high : Nat} (hlow : low = field.least)
    (hhigh : high = field.greatest) :
    bounded low high n = if field.Admits n then .ok n.toNat else .error .outOfRange := by
  rw [bounded, hlow, hhigh]
  rfl

/-- The bounds of a year are those of its field. -/
theorem bounded32_eq (n : Int) :
    bounded32 n = if CivilField.year.Admits n then .ok n else .error .outOfRange := by
  have hiff : fitsSigned 32 n = true ↔ CivilField.year.Admits n := by
    simp only [fitsSigned, show (wordSize (32 - 1) : Int) = 2147483648 from rfl, Bool.and_eq_true,
      decide_eq_true_eq, CivilField.Admits, CivilField.least, CivilField.greatest]
    omega
  simp only [bounded32, hiff]

/-- A field without a number takes one exactly if it admits it. -/
theorem putNumber_ofFound (h : before field = none) :
    (Fields.ofFound before).putNumber field.number n =
      if field.Admits n then .ok (.ofFound (Function.update before field (some n)))
      else .error .outOfRange := by
  cases field
  case year =>
    rw [CivilField.number, Fields.putNumber, Fields.putYear, bounded32_eq, Fields.ofFound, h]
    split <;> rfl
  case month =>
    rw [CivilField.number, Fields.putNumber, Fields.putMonth, bounded_eq .month rfl rfl,
      Fields.ofFound, h]
    split <;> rfl
  case day =>
    rw [CivilField.number, Fields.putNumber, bounded_eq .day rfl rfl, Fields.ofFound, h]
    split <;> rfl
  case hour =>
    rw [CivilField.number, Fields.putNumber, Fields.putHour, bounded_eq .hour rfl rfl,
      Fields.ofFound, h]
    split <;> rfl
  case minute =>
    rw [CivilField.number, Fields.putNumber, Fields.putMinute, bounded_eq .minute rfl rfl,
      Fields.ofFound, h]
    split <;> rfl
  case second =>
    rw [CivilField.number, Fields.putNumber, Fields.putSecond, bounded_eq .second rfl rfl,
      Fields.ofFound, h]
    split <;> rfl

/-- A number is read exactly if a numeral stands in front of the text, behind
any blanks, and its field admits it. -/
theorem takeAnyItem_number_eq_ok_iff {s' : Fields × Text} (h : before field = none) :
    takeAnyItem (.ofFound before, t) (.zeros field.number) = .ok s' ↔
      ∃ blanks numeral n t', isAllBlank blanks = true ∧ t = blanks ++ numeral ++ t' ∧
        IsNumeral field.number t' numeral n ∧ field.Admits n ∧
        s' = (.ofFound (Function.update before field (some n)), t') := by
  have htake : takeAnyItem (.ofFound before, t) (.zeros field.number) =
      takeNumberItem field.number t >>= fun taken =>
        (Fields.ofFound before).putNumber field.number taken.1 >>= fun f => pure (f, taken.2) := rfl
  rw [htake]
  simp only [Except.bind_eq_ok_iff, putNumber_ofFound h]
  constructor
  · rintro ⟨⟨n, t'⟩, htaken, f, hput, hresult⟩
    obtain ⟨blanks, numeral, hblanks, ht, hnumeral, -⟩ := takeNumberItem_eq_ok_iff.mp htaken
    split_ifs at hput with hn
    cases hput
    cases hresult
    exact ⟨blanks, numeral, n, t', hblanks, ht, hnumeral, hn, rfl⟩
  · rintro ⟨blanks, numeral, n, t', hblanks, ht, hnumeral, hn, rfl⟩
    exact ⟨(n, t'), takeNumberItem_eq_ok_iff.mpr ⟨blanks, numeral, hblanks, ht, hnumeral,
      hn.fitsSigned⟩, _, if_pos hn, rfl⟩

/-- A number may be noted before the others are found or after it. -/
theorem update_or (hfound : found field = none) :
    (fun f => (found f).or (Function.update before field (some n) f)) =
      fun f => (Function.update found field (some n) f).or (before f) := by
  funext f
  by_cases hf : f = field
  · rw [hf, hfound, Function.update_self, Function.update_self, Option.none_or, Option.some_or]
  · rw [Function.update_of_ne hf, Function.update_of_ne hf]

/-- Where nothing was found, everything is admitted. -/
theorem isAdmitted_none : Found.IsAdmitted fun _ => none := nofun

/-- One more number is admitted if its field admits it. -/
theorem Found.IsAdmitted.update (h : found.IsAdmitted) (hn : field.Admits n) :
    Found.IsAdmitted (Function.update found field (some n)) := by
  intro f m hm
  by_cases hf : f = field
  · rw [hf, Function.update_self] at hm
    cases hm
    rwa [hf]
  · rw [Function.update_of_ne hf] at hm
    exact h f m hm

/-- A new number and the others are admitted exactly if each of them is. -/
theorem isAdmitted_update_iff (hfound : found field = none) :
    Found.IsAdmitted (Function.update found field (some n)) ↔
      field.Admits n ∧ found.IsAdmitted := by
  constructor
  · intro h
    refine ⟨h field n (Function.update_self ..), fun f m hm => ?_⟩
    have hne : f ≠ field := by
      rintro rfl
      cases hfound.symm.trans hm
    exact h f m (by rwa [Function.update_of_ne hne])
  · rintro ⟨hn, h⟩ f m hm
    by_cases hf : f = field
    · rw [hf, Function.update_self] at hm
      cases hm
      rwa [hf]
    · rw [Function.update_of_ne hf] at hm
      exact h f m hm

/-- A pattern that begins with pieces reads a text exactly if the pieces match
its front, the fields admit what they find and the rest of the pattern reads
what is left. -/
theorem foldlM_pieces_eq_ok_iff {more : Text} {s' : Fields × Text}
    (hnodup : (patternFields pieces).Nodup)
    (hbefore : ∀ field ∈ patternFields pieces, before field = none) :
    (items (patternText pieces ++ more)).foldlM takeAnyItem (.ofFound before, t) = .ok s' ↔
      ∃ found rest, Matches pieces t rest found ∧ found.IsAdmitted ∧
        (items more).foldlM takeAnyItem
          (.ofFound fun field => (found field).or (before field), rest) = .ok s' := by
  induction pieces generalizing before t with
  | nil =>
    simp only [matches_nil_iff]
    constructor
    · intro h
      exact ⟨_, t, ⟨rfl, rfl⟩, nofun, h⟩
    · rintro ⟨found, rest, ⟨rfl, rfl⟩, -, h⟩
      exact h
  | cons piece pieces ih =>
    rw [patternText_cons_append, foldlM_items_piece]
    cases piece with
    | char c =>
      simp only [Piece.item, matches_char_iff, takeAnyItem_runItem_eq_ok_iff]
      cases isBlank c with
      | true =>
        simp only [if_true, exists_eq_left]
        exact ih hnodup hbefore
      | false =>
        simp only [Bool.false_eq_true, if_false]
        constructor
        · rintro ⟨s₁, ⟨t', rfl, rfl⟩, hrest⟩
          obtain ⟨found, rest, tail, hfound⟩ := (ih hnodup hbefore).mp hrest
          exact ⟨found, rest, ⟨t', rfl, tail⟩, hfound⟩
        · rintro ⟨found, rest, ⟨t', rfl, tail⟩, hfound⟩
          exact ⟨_, ⟨t', rfl, rfl⟩, (ih hnodup hbefore).mpr ⟨found, rest, tail, hfound⟩⟩
    | number field =>
      obtain ⟨hfresh, hnodup⟩ := List.nodup_cons.mp hnodup
      have hnext : ∀ n, ∀ f ∈ patternFields pieces,
          Function.update before field (some n) f = none := by
        intro n f hf
        rw [Function.update_of_ne (by rintro rfl; exact hfresh hf)]
        exact hbefore f (List.mem_cons_of_mem field hf)
      have hmissing : ∀ {t rest found}, Matches pieces t rest found → found field = none := by
        intro t rest found h
        rwa [←Option.not_isSome_iff_eq_none, h.isSome_iff]
      simp only [Piece.item, matches_number_iff,
        takeAnyItem_number_eq_ok_iff (hbefore field List.mem_cons_self)]
      constructor
      · rintro ⟨s₁, ⟨blanks, numeral, n, t', hblanks, rfl, hnumeral, hn, rfl⟩, hrest⟩
        obtain ⟨found, rest, tail, hadmitted, hmore⟩ := (ih hnodup (hnext n)).mp hrest
        rw [update_or (hmissing tail)] at hmore
        exact ⟨_, rest, ⟨blanks, numeral, n, t', found, hblanks, rfl, hnumeral, tail, rfl⟩,
          (isAdmitted_update_iff (hmissing tail)).mpr ⟨hn, hadmitted⟩, hmore⟩
      · rintro ⟨_, rest, ⟨blanks, numeral, n, t', found, hblanks, rfl, hnumeral, tail, rfl⟩,
          hadmitted, hmore⟩
        obtain ⟨hn, hadmitted⟩ := (isAdmitted_update_iff (hmissing tail)).mp hadmitted
        rw [←update_or (hmissing tail)] at hmore
        exact ⟨_, ⟨blanks, numeral, n, t', hblanks, rfl, hnumeral, hn, rfl⟩,
          (ih hnodup (hnext n)).mpr ⟨found, rest, tail, hadmitted, hmore⟩⟩

/-- The reader succeeds exactly on a match of the whole text whose numbers its
fields admit, and collects these numbers. -/
theorem readFields_pieces_eq_ok_iff {f : Fields} (hnodup : (patternFields pieces).Nodup) :
    readFields (items (patternText pieces)) t = .ok f ↔
      ∃ found, Matches pieces t [] found ∧ found.IsAdmitted ∧ f = .ofFound found := by
  have hread : readFields (items (patternText pieces)) t =
      (items (patternText pieces)).foldlM takeAnyItem (.ofFound fun _ => none, t) >>= fun s =>
        if s.2 = [] then .ok s.1 else .error .tooLong := rfl
  rw [hread, Except.bind_eq_ok_iff, ←List.append_nil (patternText pieces)]
  simp only [foldlM_pieces_eq_ok_iff hnodup fun _ _ => rfl, items_nil, List.foldlM_nil,
    Option.or_none]
  constructor
  · rintro ⟨s, ⟨found, rest, hmatches, hadmitted, hs⟩, hresult⟩
    cases hs
    split_ifs at hresult with hrest
    cases hresult
    cases hrest
    exact ⟨found, hmatches, hadmitted, rfl⟩
  · rintro ⟨found, hmatches, hadmitted, rfl⟩
    exact ⟨_, ⟨found, [], hmatches, hadmitted, rfl⟩, rfl⟩

end Reading

end DataPipeline.DatePattern
