import DataPipeline.Proofs.Definition.ByteLexerRun
import DataPipeline.Proofs.Definition.LoopState

/-!
# Reading module names

Where a module name is due, the longest run of identifier characters and the
character behind it decide everything. The lexer looks for an option head in
front of each character of the name and stops at the first one, which may be
inside the run. But a head goes on with identifier characters up to its `=`, so
one is met exactly when `=` stands behind the run and the run holds an option
mark with the beginning of a key.
-/

namespace DataPipeline.Definition

open Text

/-- The longest run of identifier characters at the front of a text. -/
def nameRun (t : Text) : Text := t.takeWhile isIdentChar

/-- The character behind that run. -/
def behindRun (t : Text) : Option Char := (t.dropWhile isIdentChar).head?

/-- The run begins as an identifier does. -/
def StartsName (t : Text) : Prop := ∃ c, (nameRun t).head? = some c ∧ isIdentStart c = true

/-- An option mark stands among some characters, with the beginning of a key
right behind it. -/
def HoldsMark (t : Text) : Prop := ∃ c, isIdentStart c = true ∧ ['-', '-', c] <:+: t

/-- The run is a module name, which ends where a name may end. -/
structure IsName (t : Text) : Prop where
  /-- It begins as an identifier does. -/
  starts : StartsName t
  /-- Behind it there is nothing, a separator or a blank. -/
  ends : ∀ c, behindRun t = some c → c = '|' ∨ isAsciiBlank c = true

/-- The run is a module name with an option glued to it. -/
structure IsGlued (t : Text) : Prop where
  /-- It begins as an identifier does. -/
  starts : StartsName t
  /-- Behind it stands the `=` of an option. -/
  equals : behindRun t = some '='
  /-- The mark and the key of the option are in the run. -/
  mark : HoldsMark (nameRun t)

section Run

variable {c : Char} {t : Text}

/-- A run of name characters goes on with the next one. -/
theorem nameRun_cons_of_pos (h : isIdentChar c = true) : nameRun (c :: t) = c :: nameRun t :=
  List.takeWhile_cons_of_pos h

/-- What stands behind a run does not change as it grows in front. -/
theorem behindRun_cons_of_pos (h : isIdentChar c = true) : behindRun (c :: t) = behindRun t := by
  rw [behindRun, List.dropWhile_cons_of_pos h, behindRun]

/-- A run of name characters stops before any other character. -/
theorem nameRun_cons_of_neg (h : isIdentChar c = false) : nameRun (c :: t) = [] :=
  List.takeWhile_cons_of_neg (by rw [h]; exact Bool.false_ne_true)

/-- The first character of a text decides how its run begins. -/
theorem startsName_cons_iff : StartsName (c :: t) ↔ isIdentStart c = true := by
  constructor
  · rintro ⟨d, hd, hstart⟩
    obtain ⟨run, hrun⟩ := List.head?_eq_some_iff.mp hd
    have hprefix : d :: run <+: c :: t := hrun ▸ List.takeWhile_prefix _
    rwa [←(List.cons_prefix_cons.mp hprefix).1]
  · intro hstart
    refine ⟨c, ?_, hstart⟩
    rw [nameRun_cons_of_pos (isIdentChar_of_isIdentStart hstart), List.head?_cons]

/-- Where a run begins as an identifier does, it is the leading identifier. -/
theorem leadingIdent_eq_nameRun (h : StartsName t) : leadingIdent t = nameRun t := by
  cases t with
  | nil => rfl
  | cons c t => rw [leadingIdent, if_pos (startsName_cons_iff.mp h), nameRun]

/-- There is an identifier in front exactly if a name starts there. -/
theorem leadingIdent_ne_nil_iff : leadingIdent t ≠ [] ↔ StartsName t := by
  constructor
  · intro hne
    cases t with
    | nil => exact absurd rfl hne
    | cons c t =>
      rw [startsName_cons_iff]
      by_contra hstart
      exact hne (by rw [leadingIdent, if_neg hstart])
  · intro hstarts hnil
    rw [leadingIdent_eq_nameRun hstarts] at hnil
    obtain ⟨c, hc, -⟩ := hstarts
    rw [hnil] at hc
    cases hc

/-- An option head stands at the front of a text exactly when the run there
begins with its mark and its key, and `=` is behind the run. -/
theorem startsOptionHead_iff :
    startsOptionHead t = true ↔
      (∃ c, isIdentStart c = true ∧ ['-', '-', c] <+: nameRun t) ∧ behindRun t = some '=' := by
  have hdash : isIdentChar '-' = true := by decide
  cases hmark : startsOption t with
  | false =>
    rw [startsOptionHead_eq_false hmark]
    refine iff_of_false Bool.false_ne_true ?_
    rintro ⟨⟨c, -, hprefix⟩, -⟩
    obtain ⟨rest, ht⟩ := hprefix.trans (List.takeWhile_prefix _)
    rw [startsOption_iff.mpr ⟨c :: rest, ht.symm⟩] at hmark
    cases hmark
  | true =>
    obtain ⟨u, rfl⟩ := startsOption_iff.mp hmark
    have hrun : nameRun ('-' :: '-' :: u) = '-' :: '-' :: nameRun u := by
      rw [nameRun_cons_of_pos hdash, nameRun_cons_of_pos hdash]
    have hkey : (∃ c, isIdentStart c = true ∧ ['-', '-', c] <+: '-' :: '-' :: nameRun u) ↔
        StartsName u := by
      simp only [List.cons_prefix_cons, List.singleton_prefix_iff_head?_eq_some, true_and,
        StartsName, and_comm]
    rw [startsOptionHead_mark, hrun, behindRun_cons_of_pos hdash, behindRun_cons_of_pos hdash,
      hkey, ←leadingIdent_ne_nil_iff, Bool.and_eq_true, decide_eq_true_eq, decide_eq_true_eq]
    refine and_congr_right fun hne => ?_
    rw [leadingIdent_eq_nameRun (leadingIdent_ne_nil_iff.mp hne), nameRun,
      drop_length_takeWhile, behindRun]

/-- A text holds a mark at its front or behind its first character. -/
theorem holdsMark_cons_iff :
    HoldsMark (c :: t) ↔
      (∃ d, isIdentStart d = true ∧ ['-', '-', d] <+: c :: t) ∨ HoldsMark t := by
  simp only [HoldsMark, List.infix_cons_iff, and_or_left, exists_or]

/-- The empty text holds no mark. -/
theorem not_holdsMark_nil : ¬HoldsMark [] := by
  rintro ⟨c, -, hinfix⟩
  cases List.infix_nil.mp hinfix

/-- A text without a run begins with no option head. -/
theorem startsOptionHead_of_not_isIdentChar (h : isIdentChar c = false) :
    startsOptionHead (c :: t) = false := by
  rw [Bool.eq_false_iff, ne_eq, startsOptionHead_iff, nameRun_cons_of_neg h]
  rintro ⟨⟨d, -, hprefix⟩, -⟩
  cases List.prefix_nil.mp hprefix

/-- The lexer meets an option head in a name exactly when the run holds an option
mark with the beginning of a key and `=` is behind the run. -/
theorem cutName?_eq_none_iff :
    cutName? t = none ↔ HoldsMark (nameRun t) ∧ behindRun t = some '=' := by
  induction t with
  | nil => exact iff_of_false (by simp [cutName?]) fun h => not_holdsMark_nil h.1
  | cons c t ih =>
    cases hc : isIdentChar c with
    | false =>
      rw [cutName?, startsOptionHead_of_not_isIdentChar hc, hc, nameRun_cons_of_neg hc]
      exact iff_of_false (by simp) fun h => not_holdsMark_nil h.1
    | true =>
      -- The head is met at this character, or else further on, where the character behind the
      -- run is the same.
      have hhere : startsOptionHead (c :: t) = true ↔
          (∃ d, isIdentStart d = true ∧ ['-', '-', d] <+: c :: nameRun t) ∧
            behindRun t = some '=' := by
        rw [startsOptionHead_iff, nameRun_cons_of_pos hc, behindRun_cons_of_pos hc]
      have hlater : (cutName? t).map (fun cut => (c :: cut.1, cut.2)) = none ↔
          HoldsMark (nameRun t) ∧ behindRun t = some '=' := by
        rw [Option.map_eq_none_iff, ih]
      rw [nameRun_cons_of_pos hc, behindRun_cons_of_pos hc, holdsMark_cons_iff, or_and_right,
        ←hhere, ←hlater, cutName?, if_pos hc]
      by_cases hmet : startsOptionHead (c :: t) = true
      · rw [if_pos hmet]
        exact iff_of_true rfl (.inl hmet)
      · rw [if_neg hmet]
        exact (or_iff_right hmet).symm

/-- A name that is cut off is the whole run. -/
theorem cutName?_eq_some_run {cut : Text × Text} (h : cutName? t = some cut) :
    cut = (nameRun t, t.dropWhile isIdentChar) := by
  induction t generalizing cut with
  | nil =>
    cases h
    rfl
  | cons c t ih =>
    rw [cutName?] at h
    split at h
    · cases h
    split at h
    · next hc =>
      obtain ⟨later, hlater, rfl⟩ := Option.map_eq_some_iff.mp h
      rw [ih hlater, nameRun_cons_of_pos hc, List.dropWhile_cons_of_pos hc]
    · next hc =>
      cases h
      rw [nameRun_cons_of_neg (Bool.eq_false_iff.mpr hc), List.dropWhile_cons_of_neg hc]

end Run

section Reading

variable {t : Text}

/-- A name may end behind the run exactly when nothing, a separator or a blank
stands there. -/
theorem endsName_dropWhile_iff :
    endsName (t.dropWhile isIdentChar) = true ↔
      ∀ c, behindRun t = some c → c = '|' ∨ isAsciiBlank c = true := by
  rw [endsName, behindRun]
  cases (t.dropWhile isIdentChar).head? with
  | none => simp
  | some c => simp

/-- No option is glued to a name that ends where it may. -/
theorem IsName.not_isGlued (h : IsName t) : ¬IsGlued t := by
  intro hglued
  rcases h.ends '=' hglued.equals with heq | hblank
  · cases heq
  · cases hblank

/-- A name is read as its run of name characters. -/
theorem lexName_of_isName (h : IsName t) : lexName t = .ok ⟨.name (nameRun t), nameRun t⟩ := by
  have hcut : cutName? t ≠ none := by
    intro hnone
    obtain ⟨hmark, hequals⟩ := cutName?_eq_none_iff.mp hnone
    exact h.not_isGlued ⟨h.starts, hequals, hmark⟩
  obtain ⟨cut, hcut⟩ := Option.ne_none_iff_exists'.mp hcut
  have hends : endsName (t.dropWhile isIdentChar) = true := endsName_dropWhile_iff.mpr h.ends
  rw [cutName?_eq_some_run hcut] at hcut
  cases t with
  | nil =>
    obtain ⟨c, hc, -⟩ := h.starts
    cases hc
  | cons c t => simp [lexName, startsName_cons_iff.mp h.starts, hcut, hends]

/-- What is wrong with a text that begins with no module name: an option is glued
to the run, or else the run is no name. -/
theorem lexName_of_not_isName (ht : t ≠ []) (h : ¬IsName t) :
    ∃ cause, lexName t = .error ⟨cause, word t⟩ ∧
      (cause.kind = .malformedOption ↔ IsGlued t) ∧
      (cause.kind = .invalidModuleName ↔ ¬IsGlued t) := by
  obtain ⟨c, t, rfl⟩ := List.exists_cons_of_ne_nil ht
  by_cases hstart : isIdentStart c = true
  · have hstarts : StartsName (c :: t) := startsName_cons_iff.mpr hstart
    rw [lexName, if_pos hstart]
    cases hcut : cutName? (c :: t) with
    | none =>
      obtain ⟨hmark, hequals⟩ := cutName?_eq_none_iff.mp hcut
      have hglued : IsGlued (c :: t) := ⟨hstarts, hequals, hmark⟩
      exact ⟨.gluedOption, rfl, by simp [Cause.kind, hglued]⟩
    | some cut =>
      obtain rfl := cutName?_eq_some_run hcut
      have hends : ¬endsName ((c :: t).dropWhile isIdentChar) = true :=
        fun hends => h ⟨hstarts, endsName_dropWhile_iff.mp hends⟩
      have hglued : ¬IsGlued (c :: t) := by
        intro hglued
        rw [cutName?_eq_none_iff.mpr ⟨hglued.mark, hglued.equals⟩] at hcut
        cases hcut
      exact ⟨.nameCharacter, if_neg hends, by simp [Cause.kind, hglued]⟩
  · have hglued : ¬IsGlued (c :: t) := fun h => hstart (startsName_cons_iff.mp h.starts)
    exact ⟨.nameStart, if_neg hstart, by simp [Cause.kind, hglued]⟩

end Reading

section Next

variable {d : Dialect} {nameDue : Bool} {offset : Nat} {c : Char} {t rest : Text}

/-- A blank is passed and counted. -/
theorem LexerState.next_blank (hc : isAsciiBlank c = true) :
    (LexerState.mk nameDue offset (c :: t)).next d =
      (LexerState.mk nameDue (offset + 1) t).next d := by
  have hplace : offset + ((t.takeWhile isAsciiBlank).length + 1) =
      offset + 1 + (t.takeWhile isAsciiBlank).length := by omega
  rw [next, next, List.dropWhile_cons_of_pos hc, List.takeWhile_cons_of_pos hc, List.length_cons,
    hplace]

/-- Behind the blanks the next token stands at the front of what is left. -/
theorem LexerState.next_of_dropWhile (h : t.dropWhile isAsciiBlank = c :: rest) :
    ((LexerState.mk nameDue offset t).next d).map (Option.map Prod.fst) =
      match lexToken d nameDue (c :: rest) with
      | .error f => .error ⟨f.cause, f.fragment, offset + (t.takeWhile isAsciiBlank).length⟩
      | .ok l => .ok (some ⟨l.kind, l.text, offset + (t.takeWhile isAsciiBlank).length⟩) := by
  rw [next]
  dsimp only
  rw [h]
  dsimp only
  cases lexToken d nameDue (c :: rest) <;> rfl

/-- The lexer over bytes gives the same next token, or the same fault. -/
theorem ByteLexer.nextToken_eq_next (d : Dialect) (nameDue : Bool) (before t : Text) :
    (nextToken d (before ++ t) nameDue (.after before)).map (Option.map Prod.fst) =
      (((LexerState.mk nameDue before.length t).next d).map (Option.map Prod.fst)).mapError
        .fault := by
  induction t generalizing before with
  | nil =>
    rw [List.append_nil, nextToken_end]
    rfl
  | cons c t ih =>
    cases hc : isAsciiBlank c with
    | true =>
      have hlater := ih (before ++ [c])
      rw [←List.append_cons, List.length_append] at hlater
      rw [nextToken_blank rfl hc, hlater, LexerState.next_blank hc]
      rfl
    | false =>
      have hdrop : (c :: t).dropWhile isAsciiBlank = c :: t :=
        List.dropWhile_cons_of_neg (by rw [hc]; exact Bool.false_ne_true)
      have htake : (c :: t).takeWhile isAsciiBlank = [] :=
        List.takeWhile_cons_of_neg (by rw [hc]; exact Bool.false_ne_true)
      rw [nextToken_after rfl hc, LexerState.next_of_dropWhile hdrop, htake]
      cases lexToken d nameDue (c :: t) <;> rfl

end Next

/-- How a module name is read, at every place of every text where one is due and
the next thing is neither a separator nor an option mark. The longest run of
identifier characters there is the next token exactly when it begins as an
identifier does and ends where a name may end. Otherwise the whole word is
shown as a malformed option, if an option is glued to the run, and as an
invalid module name in all other cases. The lexer over bytes does the same. -/
theorem module_name_classes (d : Dialect) (before t : Text)
    (hpresent : t.dropWhile isAsciiBlank ≠ [])
    (hpipe : (t.dropWhile isAsciiBlank).head? ≠ some '|')
    (hmark : startsOption (t.dropWhile isAsciiBlank) = false) :
    let rest := t.dropWhile isAsciiBlank
    let place := before.length + (t.takeWhile isAsciiBlank).length
    let next := ((LexerState.mk true before.length t).next d).map (Option.map Prod.fst)
    (next = .ok (some ⟨.name (nameRun rest), nameRun rest, place⟩) ↔ IsName rest) ∧
    (¬IsName rest → ∃ e, next = .error e ∧ e.fragment = word rest ∧ e.offset = place ∧
      (e.kind = .malformedOption ↔ IsGlued rest) ∧
      (e.kind = .invalidModuleName ↔ ¬IsGlued rest)) ∧
    (ByteLexer.nextToken d (before ++ t) true (.after before)).map (Option.map Prod.fst) =
      next.mapError .fault := by
  intro rest place next
  have hname : lexToken d true rest = lexName rest := by
    rw [lexToken, if_neg hpipe, hmark]
    rfl
  obtain ⟨c, u, hrest⟩ := List.exists_cons_of_ne_nil hpresent
  have hnext : next = _ := LexerState.next_of_dropWhile hrest
  change rest = c :: u at hrest
  rw [←hrest, hname] at hnext
  have hbad (h : ¬IsName rest) : ∃ e, next = .error e ∧ e.fragment = word rest ∧
      e.offset = place ∧ (e.kind = .malformedOption ↔ IsGlued rest) ∧
      (e.kind = .invalidModuleName ↔ ¬IsGlued rest) := by
    obtain ⟨cause, hcause, hkind⟩ := lexName_of_not_isName hpresent h
    rw [hcause] at hnext
    exact ⟨⟨cause, word rest, place⟩, hnext, rfl, rfl, hkind⟩
  refine ⟨⟨fun hok => ?_, fun h => ?_⟩, hbad, ByteLexer.nextToken_eq_next d true before t⟩
  · by_contra h
    obtain ⟨e, herror, -⟩ := hbad h
    rw [hok] at herror
    cases herror
  · rw [lexName_of_isName h] at hnext
    exact hnext

/-- The dashes overlap with a second mark, and the key of the option is read as
a part of the name up to its `=`. -/
theorem module_name_classes_sample :
    let rest := "a---b=1|é".toList
    "  a---b=1|é".toList.dropWhile isAsciiBlank = rest ∧ rest ≠ [] ∧ rest.head? ≠ some '|' ∧
      startsOption rest = false ∧ nameRun rest = "a---b".toList ∧ ¬IsName rest ∧ IsGlued rest ∧
      ∃ e, ((LexerState.mk true 3 "  a---b=1|é".toList).next {}).map (Option.map Prod.fst) =
          .error e ∧
        e.fragment = "a---b=1".toList ∧ e.offset = 5 ∧ e.kind = .malformedOption := by
  intro rest
  have hdrop : "  a---b=1|é".toList.dropWhile isAsciiBlank = rest := by decide
  have hpresent : rest ≠ [] := List.cons_ne_nil _ _
  have hpipe : rest.head? ≠ some '|' := by decide
  have hmark : startsOption rest = false := by decide
  have hrun : nameRun rest = "a---b".toList := by decide
  have hbehind : behindRun rest = some '=' := by decide
  have hglued : IsGlued rest :=
    ⟨⟨'a', by decide, by decide⟩, hbehind, 'b', by decide, "a-".toList, [], by decide⟩
  have hname : ¬IsName rest := fun h => h.not_isGlued hglued
  have hreading := module_name_classes {} "x |".toList "  a---b=1|é".toList
    (by rw [hdrop]; exact hpresent) (by rw [hdrop]; exact hpipe) (by rw [hdrop]; exact hmark)
  dsimp only at hreading
  rw [hdrop] at hreading
  obtain ⟨e, herror, hfragment, hoffset, hmalformed, -⟩ := hreading.2.1 hname
  exact ⟨hdrop, hpresent, hpipe, hmark, hrun, hname, hglued, e, herror,
    hfragment.trans (by decide), hoffset, hmalformed.mpr hglued⟩

end DataPipeline.Definition
