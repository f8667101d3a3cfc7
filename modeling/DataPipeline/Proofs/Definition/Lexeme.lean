import DataPipeline.Proofs.Definition.RawValue

/-!
# One token at a time

The rules by which one token stands at the front of a text, as a relation of
its own, and the proof that the lexer reads a token exactly when a rule gives
one. A token or fault depends on the text only up to a place where a value may
stop, and the characters that a fault shows stand at the front of the text.
-/

namespace DataPipeline.Definition

open Text

/-- The characters of an option with that key and raw value. -/
def optionText (key raw : Text) : Text := '-' :: '-' :: (key ++ '=' :: raw)

/-- The tokens that may stand before a rest, by what is due there. -/
inductive Stands (d : Dialect) : (nameDue : Bool) → Lexeme → (rest : Text) → Prop
  /-- Separators stand anywhere, unless there must be one module only. -/
  | pipe {nameDue : Bool} {rest : Text} (allowed : d.singleModule = false) :
      Stands d nameDue ⟨.pipe, ['|']⟩ rest
  /-- A module name is an identifier up to a word boundary. -/
  | name {name rest : Text} (ident : IsIdent name) (ends : endsName rest = true) :
      Stands d true ⟨.name name, name⟩ rest
  /-- An option has an identifier as its key, and its raw value reaches up to
  a place where a value may stop. -/
  | option {key raw rest : Text} (ident : IsIdent key) (delimitable : IsDelimitable raw)
      (given : trimEnd raw = [] → d.allowEmptyValues = true) (stops : stopsValue rest = true) :
      Stands d false ⟨.option key (trimEnd raw), optionText key raw⟩ rest

section Option

variable {d : Dialect} {t : Text}

/-- A mark without a key behind it is a fault. -/
theorem lexOption_no_key (h : leadingIdent t = []) :
    lexOption d ('-' :: '-' :: t) = .error ⟨.optionKey, word ('-' :: '-' :: t)⟩ := by
  simp [lexOption, h]

/-- A key without `=` behind it is a fault. -/
theorem lexOption_no_equals (h : leadingIdent t ≠ [])
    (he : (t.drop (leadingIdent t).length).head? ≠ some '=') :
    lexOption d ('-' :: '-' :: t) =
      .error ⟨.noEquals (leadingIdent t), word ('-' :: '-' :: t)⟩ := by
  simp only [lexOption, List.drop_succ_cons, List.drop_zero, if_neg h]
  split
  · next heq => rw [heq] at he; exact absurd rfl he
  · rfl

/-- With key and `=` in place, the value decides. -/
theorem lexOption_equals {value : Text} (h : leadingIdent t ≠ [])
    (he : t.drop (leadingIdent t).length = '=' :: value) :
    lexOption d ('-' :: '-' :: t) =
      if trimEnd (rawValue value) = [] ∧ d.allowEmptyValues = false then
        .error ⟨.noValue (leadingIdent t), optionText (leadingIdent t) (rawValue value)⟩
      else .ok ⟨.option (leadingIdent t) (trimEnd (rawValue value)),
        optionText (leadingIdent t) (rawValue value)⟩ := by
  simp only [lexOption, List.drop_succ_cons, List.drop_zero, if_neg h, he, optionText,
    Bool.and_eq_true, decide_eq_true_eq, Bool.not_eq_true']

end Option

section Append

variable {d : Dialect} {t rest : Text}

/-- A name is read alike before any boundary. -/
theorem lexName_append (ht : t ≠ []) (h : endsName rest = true) :
    lexName (t ++ rest) = lexName t := by
  obtain ⟨c, t, rfl⟩ := List.exists_cons_of_ne_nil ht
  have hcut := cutName?_append (t := c :: t) h
  have hword := word_append (t := c :: t) h
  rw [List.cons_append] at hcut hword ⊢
  simp only [lexName, hcut, hword]
  cases cutName? (c :: t) with
  | none => rfl
  | some cut => simp only [Option.map_some, endsName_append h]

/-- An option is read alike before any place where its value stops. -/
theorem lexOption_append (ht : startsOption t = true) (h : stopsValue rest = true) :
    lexOption d (t ++ rest) = lexOption d t := by
  have hb := endsName_of_stopsValue h
  obtain ⟨u, rfl⟩ := startsOption_iff.mp ht
  have hword := word_append (t := '-' :: '-' :: u) hb
  rw [List.cons_append, List.cons_append] at hword ⊢
  have hkey := leadingIdent_append (t := u) hb
  have hdrop := drop_leadingIdent_append (t := u) hb
  by_cases hk : leadingIdent u = []
  · rw [lexOption_no_key hk, lexOption_no_key (hkey.trans hk), hword]
  · by_cases he : (u.drop (leadingIdent u).length).head? = some '='
    · obtain ⟨value, hv⟩ := List.head?_eq_some_iff.mp he
      rw [hv, List.cons_append] at hdrop
      rw [lexOption_equals hk hv, lexOption_equals (hkey ▸ hk) hdrop, rawValue_append value h, hkey]
    · have he' := fun heq => he ((head?_append_eq_equals hb).mp heq)
      rw [←hdrop] at he'
      rw [lexOption_no_equals hk he, lexOption_no_equals (hkey ▸ hk) he', hword, hkey]

/-- The token or fault at the front of a text is the same with and without
the text behind a place where a value may stop. -/
theorem lexToken_append {nameDue : Bool} (ht : t ≠ []) (h : stopsValue rest = true) :
    lexToken d nameDue (t ++ rest) = lexToken d nameDue t := by
  have hb := endsName_of_stopsValue h
  have hhead : (t ++ rest).head? = t.head? := by
    obtain ⟨c, t, rfl⟩ := List.exists_cons_of_ne_nil ht
    rfl
  rw [lexToken, lexToken, hhead, startsOption_append ht hb, word_append hb, lexName_append ht hb]
  cases ho : startsOption t with
  | false => rfl
  | true => rw [lexOption_append ho h]

end Append

section Reading

variable {d : Dialect} {nameDue : Bool} {t : Text} {l : Lexeme}

/-- A name that is read is an identifier at the front of the text. -/
theorem lexName_inversion (h : lexName t = .ok l) :
    ∃ name rest, l = ⟨.name name, name⟩ ∧ t = name ++ rest ∧ IsIdent name ∧
      endsName rest = true := by
  cases t with
  | nil => cases h
  | cons c t =>
    rw [lexName] at h
    split at h
    · next hc =>
      split at h
      · cases h
      · next name after hcut =>
        split at h
        · next hends =>
          cases h
          obtain ⟨ht, hall⟩ := cutName?_eq_some hcut
          refine ⟨name, after, rfl, ht, ?_, hends⟩
          cases name with
          | nil =>
            -- An empty name would leave an identifier character at a boundary.
            rw [List.nil_append] at ht
            rw [←ht] at hends
            have hn := isIdentStart_eq_false (boundary_character hends).1
            rw [hc] at hn
            cases hn
          | cons b name =>
            obtain ⟨rfl, -⟩ := List.cons.inj ht
            exact isIdent_cons.mpr ⟨hc, fun e he => hall e (List.mem_cons_of_mem _ he)⟩
        · cases h
    · cases h

/-- An option that is read stands at the front of the text, and its raw value
reaches up to a place where a value may stop. -/
theorem lexOption_inversion (ht : startsOption t = true) (h : lexOption d t = .ok l) :
    ∃ key raw rest, l = ⟨.option key (trimEnd raw), optionText key raw⟩ ∧
      t = optionText key raw ++ rest ∧ IsIdent key ∧ IsDelimitable raw ∧
      (trimEnd raw = [] → d.allowEmptyValues = true) ∧ stopsValue rest = true := by
  obtain ⟨u, rfl⟩ := startsOption_iff.mp ht
  by_cases hk : leadingIdent u = []
  · rw [lexOption_no_key hk] at h
    cases h
  · by_cases he : (u.drop (leadingIdent u).length).head? = some '='
    · obtain ⟨value, hv⟩ := List.head?_eq_some_iff.mp he
      rw [lexOption_equals hk hv] at h
      split at h
      · cases h
      · next hgiven =>
        cases h
        obtain ⟨rest, hvalue, hstops⟩ := exists_append_rawValue value
        refine ⟨leadingIdent u, rawValue value, rest, rfl, ?_, isIdent_leadingIdent hk,
          isDelimitable_rawValue value, ?_, hstops⟩
        · have hu := leadingIdent_append_drop u
          rw [hv, hvalue] at hu
          simp only [optionText, List.cons_append, List.append_assoc]
          rw [hu]
        · intro hempty
          cases hallow : d.allowEmptyValues with
          | true => rfl
          | false => exact absurd ⟨hempty, hallow⟩ hgiven
    · rw [lexOption_no_equals hk he] at h
      cases h

/-- What the lexer reads stands by the rules. -/
theorem stands_of_lexToken (h : lexToken d nameDue t = .ok l) :
    ∃ rest, t = l.text ++ rest ∧ Stands d nameDue l rest := by
  rw [lexToken] at h
  split at h
  · next hp =>
    obtain ⟨rest, rfl⟩ := List.head?_eq_some_iff.mp hp
    split at h
    · cases h
    · next hs =>
      cases h
      exact ⟨rest, rfl, .pipe (Bool.eq_false_iff.mpr hs)⟩
  · split at h
    · next ho =>
      cases nameDue with
      | true => cases h
      | false =>
        obtain ⟨key, raw, rest, rfl, rfl, hident, hraw, hgiven, hstops⟩ := lexOption_inversion ho h
        exact ⟨rest, rfl, .option hident hraw hgiven hstops⟩
    · cases nameDue with
      | true =>
        obtain ⟨name, rest, rfl, rfl, hident, hends⟩ := lexName_inversion h
        exact ⟨rest, rfl, .name hident hends⟩
      | false => cases h

/-- An identifier is read as a name. -/
theorem lexName_of_isIdent {name : Text} (h : IsIdent name) :
    lexName name = .ok ⟨.name name, name⟩ := by
  have hcut := cutName?_of_isIdentChar (isIdentChar_of_isIdent h)
  cases name with
  | nil => exact h.elim
  | cons c name => simp [lexName, hcut, (isIdent_cons.mp h).1, endsName]

/-- A written option is read as its key and its trimmed value. -/
theorem lexOption_optionText {key raw : Text} (hkey : IsIdent key) (hraw : IsDelimitable raw)
    (hgiven : trimEnd raw = [] → d.allowEmptyValues = true) :
    lexOption d (optionText key raw) = .ok ⟨.option key (trimEnd raw), optionText key raw⟩ := by
  have hlead : leadingIdent (key ++ '=' :: raw) = key :=
    leadingIdent_of_isIdent hkey fun c u hc => by
      obtain ⟨rfl, -⟩ := List.cons.inj hc
      rfl
  have hne : key ≠ [] := by
    rintro rfl
    exact hkey
  have hdrop : (key ++ '=' :: raw).drop (leadingIdent (key ++ '=' :: raw)).length = '=' :: raw := by
    rw [hlead, List.drop_left]
  rw [optionText, lexOption_equals (hlead.symm ▸ hne) hdrop, hlead, rawValue_of_isDelimitable hraw,
    if_neg fun hno => Bool.false_ne_true (hno.2.symm.trans (hgiven hno.1))]
  rfl

/-- What a rule gives is read. -/
theorem lexToken_of_stands {rest : Text} (h : Stands d nameDue l rest) :
    lexToken d nameDue (l.text ++ rest) = .ok l := by
  cases h with
  | pipe allowed => simp [lexToken, allowed]
  | @name name _ ident ends =>
    have hne : name ≠ [] := by
      rintro rfl
      exact ident
    obtain ⟨c, u, rfl⟩ := List.exists_cons_of_ne_nil hne
    have hc := (isIdent_cons.mp ident).1
    have hp : c ≠ '|' := by
      rintro rfl
      exact absurd hc (by decide)
    have hm : c ≠ '-' := by
      rintro rfl
      exact absurd hc (by decide)
    have ho : startsOption (c :: u ++ rest) = false := by
      rw [List.cons_append, startsOption_cons, decide_eq_false hm, Bool.false_and]
    rw [lexToken, if_neg (by simpa using hp), ho, lexName_append hne ends, lexName_of_isIdent ident]
    rfl
  | @option key raw _ ident delimitable given stops =>
    have hne : optionText key raw ≠ [] := List.cons_ne_nil _ _
    change lexToken d false (optionText key raw ++ rest) = _
    rw [lexToken_append hne stops]
    change lexOption d (optionText key raw) = _
    exact lexOption_optionText ident delimitable given

end Reading

/-- What the lexer can find wrong. -/
def Cause.isLexical : Cause → Bool
  | .nameStart | .nameCharacter | .gluedOption | .optionFirst | .optionKey | .noEquals _
  | .noValue _ | .strayWord | .separatorRefused => true
  | _ => false

section Faults

variable {d : Dialect} {nameDue : Bool} {t : Text} {f : Fault}

/-- The lexer does not look at the name of the pipeline. -/
theorem Cause.ne_blankName {cause : Cause} (h : cause.isLexical = true) : cause ≠ .blankName := by
  rintro rfl
  cases h

/-- The lexer does not notice repeated keys. -/
theorem Cause.kind_ne_duplicateOption {cause : Cause} (h : cause.isLexical = true) :
    cause.kind ≠ .duplicateOption := by
  intro hk
  cases cause <;> cases h <;> cases hk

/-- A word is the beginning of its text. -/
theorem word_prefix (t : Text) : word t <+: t := List.takeWhile_prefix _

/-- A word is not empty unless a blank or a separator stands there. -/
theorem word_ne_nil {c : Char} {t : Text} (hb : isAsciiBlank c = false) (hp : c ≠ '|') :
    word (c :: t) ≠ [] := by
  rw [word, List.takeWhile_cons_of_pos (by simp [hb, hp])]
  exact List.cons_ne_nil _ _

/-- A fault of a name shows the whole word. -/
theorem lexName_fault (h : lexName t = .error f) :
    f.cause.isLexical = true ∧ f.fragment = word t := by
  cases t with
  | nil => cases h; exact ⟨rfl, rfl⟩
  | cons c t =>
    rw [lexName] at h
    split at h
    · split at h
      · cases h; exact ⟨rfl, rfl⟩
      · split at h
        · cases h
        · cases h; exact ⟨rfl, rfl⟩
    · cases h; exact ⟨rfl, rfl⟩

/-- A fault of an option shows the whole word or a beginning of the text. -/
theorem lexOption_fault (ht : startsOption t = true) (h : lexOption d t = .error f) :
    f.cause.isLexical = true ∧
      (f.fragment = word t ∨ (f.fragment ≠ [] ∧ f.fragment <+: t)) := by
  obtain ⟨u, rfl⟩ := startsOption_iff.mp ht
  by_cases hk : leadingIdent u = []
  · rw [lexOption_no_key hk] at h
    cases h
    exact ⟨rfl, .inl rfl⟩
  · by_cases he : (u.drop (leadingIdent u).length).head? = some '='
    · obtain ⟨value, hv⟩ := List.head?_eq_some_iff.mp he
      rw [lexOption_equals hk hv] at h
      split at h
      · cases h
        obtain ⟨rest, hvalue, -⟩ := exists_append_rawValue value
        have hu := leadingIdent_append_drop u
        rw [hv, hvalue] at hu
        refine ⟨rfl, .inr ⟨List.cons_ne_nil _ _, rest, ?_⟩⟩
        simp only [optionText, List.cons_append, List.append_assoc]
        rw [hu]
      · cases h
    · rw [lexOption_no_equals hk he] at h
      cases h
      exact ⟨rfl, .inl rfl⟩

/-- A fault shows at least one character, and what it shows stands at the front
of the text. -/
theorem lexToken_fault {c : Char} {t : Text} (hc : isAsciiBlank c = false)
    (h : lexToken d nameDue (c :: t) = .error f) :
    f.cause.isLexical = true ∧ f.fragment ≠ [] ∧ f.fragment <+: c :: t := by
  by_cases hp : c = '|'
  · subst hp
    rw [lexToken, List.head?_cons, if_pos rfl] at h
    split at h
    · cases h
      exact ⟨rfl, List.cons_ne_nil _ _, t, rfl⟩
    · cases h
  · have hword : f.fragment = word (c :: t) → f.fragment ≠ [] ∧ f.fragment <+: c :: t := by
      intro hf
      rw [hf]
      exact ⟨word_ne_nil hc hp, word_prefix _⟩
    rw [lexToken, List.head?_cons, if_neg fun heq => hp (Option.some.inj heq)] at h
    split at h
    · next ho =>
      cases nameDue with
      | true => cases h; exact ⟨rfl, hword rfl⟩
      | false =>
        obtain ⟨hcause, hf | hf⟩ := lexOption_fault ho h
        · exact ⟨hcause, hword hf⟩
        · exact ⟨hcause, hf⟩
    · cases nameDue with
      | true =>
        rw [if_pos rfl] at h
        obtain ⟨hcause, hf⟩ := lexName_fault h
        exact ⟨hcause, hword hf⟩
      | false => cases h; exact ⟨rfl, hword rfl⟩

end Faults

end DataPipeline.Definition
