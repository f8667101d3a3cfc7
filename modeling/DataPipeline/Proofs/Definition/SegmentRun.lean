import DataPipeline.Definition.Pipeline
import DataPipeline.Proofs.Definition.Grouping
import DataPipeline.Proofs.Definition.TokenRun

/-!
# Segments of a text

Reading segments runs the lexer over the whole text and groups its tokens. It
succeeds exactly when the text holds tokens by the rules and these make
segments, and otherwise fails for one of four reasons.
-/

namespace DataPipeline.Definition

open Text

/-- The dialect of the lexer under given settings. -/
def ParserSettings.dialect (settings : ParserSettings) (singleModule : Bool) : Dialect :=
  ⟨settings.allowEmptyValues, singleModule⟩

section Steps

variable {settings : ParserSettings} {singleModule : Bool} {text : Text}

/-- A blank text is refused. -/
theorem segments_of_blank (h : isAllBlank text = true) :
    segments settings singleModule text = .error ⟨.blankText, text, 0⟩ := by
  rw [segments, h]
  rfl

/-- Reading a text that is not blank is reading its tokens and grouping them. -/
theorem segments_of_nonblank (hb : isAllBlank text = false) :
    segments settings singleModule text =
      tokenize (settings.dialect singleModule) text >>= fun tokens =>
        groupTokens settings.repeatedKeys none none tokens >>= fun found =>
          if found = [] then .error ⟨.noModules, text, 0⟩ else .ok found := by
  rw [segments, hb]
  rfl

end Steps

/-- A text with a token is not blank. -/
theorem Lexes.isAllBlank_eq_false {d : Dialect} {nameDue : Bool} {offset : Nat} {t : Text}
    {tokens : List Token} (h : Lexes d nameDue offset t tokens) (hne : tokens ≠ []) :
    isAllBlank t = false := by
  cases h with
  | done => exact absurd rfl hne
  | @token _ _ gap rest l tokens blank stands next =>
    obtain ⟨c, u, htext, hc⟩ := stands.exists_cons
    have hm : c ∈ gap ++ (l.text ++ rest) := by
      rw [htext]
      simp
    rw [isAllBlank, List.all_eq_false]
    exact ⟨c, hm, by rw [hc]; exact Bool.false_ne_true⟩

section Run

variable {settings : ParserSettings} {singleModule : Bool} {text : Text}

/-- Reading segments succeeds exactly when what the text says makes these
segments. -/
theorem segments_eq_ok_iff {found : List Segment} :
    segments settings singleModule text = .ok found ↔
      ∃ kinds, Says (settings.dialect singleModule) true text kinds ∧
        Groups settings.repeatedKeys none kinds found := by
  constructor
  · intro h
    cases hb : isAllBlank text with
    | true => rw [segments_of_blank hb] at h; cases h
    | false =>
      rw [segments_of_nonblank hb] at h
      obtain ⟨tokens, ht, h⟩ := Except.bind_eq_ok_iff.mp h
      obtain ⟨later, hg, h⟩ := Except.bind_eq_ok_iff.mp h
      split at h
      · cases h
      · next hne =>
        cases h
        exact ⟨_, says_of_lexes (lexes_of_tokensFrom ht), groupTokens_eq_ok_iff.mp ⟨hg, hne⟩⟩
  · rintro ⟨kinds, hs, hg⟩
    obtain ⟨tokens, hl, rfl⟩ := hs 0
    have hne : tokens ≠ [] := by
      rintro rfl
      cases hg
    obtain ⟨hrun, hfound⟩ := groupTokens_eq_ok_iff.mpr hg
    rw [segments_of_nonblank (hl.isAllBlank_eq_false hne)]
    exact Except.bind_eq_ok_iff.mpr ⟨tokens, tokensFrom_of_lexes hl,
      Except.bind_eq_ok_iff.mpr ⟨found, hrun, if_neg hfound⟩⟩

/-- The reasons for which reading segments fails. -/
theorem segments_error {e : ParseError} (h : segments settings singleModule text = .error e) :
    (isAllBlank text = true ∧ e = ⟨.blankText, text, 0⟩) ∨
      tokenize (settings.dialect singleModule) text = .error e ∨
      (∃ tokens, Lexes (settings.dialect singleModule) true 0 text tokens ∧
        groupTokens settings.repeatedKeys none none tokens = .error e) ∨
      (isAllBlank text = false ∧ e = ⟨.noModules, text, 0⟩) := by
  cases hb : isAllBlank text with
  | true =>
    rw [segments_of_blank hb] at h
    cases h
    exact .inl ⟨rfl, rfl⟩
  | false =>
    rw [segments_of_nonblank hb] at h
    rcases Except.bind_eq_error_iff.mp h with ht | ⟨tokens, ht, h⟩
    · exact .inr (.inl ht)
    · rcases Except.bind_eq_error_iff.mp h with hg | ⟨found, -, h⟩
      · exact .inr (.inr (.inl ⟨tokens, lexes_of_tokensFrom ht, hg⟩))
      · split at h
        · cases h
          exact .inr (.inr (.inr ⟨rfl, rfl⟩))
        · cases h

end Run

section Entry

variable {settings : ParserSettings} {group text : Text}

/-- A blank name is refused. -/
theorem parse_of_blank (h : isAllBlank group = true) :
    parse settings group text = .error ⟨.blankName, group, 0⟩ := by
  rw [parse, h]
  rfl

/-- Under a proper name, a definition gives the requests of its segments. -/
theorem parse_of_named (h : isAllBlank group = false) :
    parse settings group text =
      (segments settings false text).map fun found => (requestsOf group found).reverse := by
  rw [parse, h]
  cases segments settings false text <;> rfl

/-- A pipeline is read exactly if its name is not blank and its segments are. -/
theorem parse_eq_ok_iff {requests : List Request} :
    parse settings group text = .ok requests ↔
      isAllBlank group = false ∧ ∃ found, segments settings false text = .ok found ∧
        requests = (requestsOf group found).reverse := by
  cases hb : isAllBlank group with
  | true => simp [parse_of_blank hb]
  | false =>
    rw [parse_of_named hb, Except.map_eq_ok_iff]
    simp only [true_and, eq_comm]

/-- A definition is refused for the name, or as its segments are. -/
theorem parse_eq_error_iff {e : ParseError} :
    parse settings group text = .error e ↔
      (isAllBlank group = true ∧ e = ⟨.blankName, group, 0⟩) ∨
        (isAllBlank group = false ∧ segments settings false text = .error e) := by
  cases hb : isAllBlank group with
  | true => simp [parse_of_blank hb, eq_comm]
  | false =>
    rw [parse_of_named hb, Except.map_eq_error_iff]
    simp

/-- The options of a single module are those of the only segment. -/
theorem parameters_eq :
    parameters settings text =
      match segments settings true text with
      | .error e => .error e
      | .ok [segment] => .ok segment.options
      | .ok _ => .error ⟨.notOneModule, text, 0⟩ := by
  rw [parameters]
  cases segments settings true text with
  | error e => rfl
  | ok found =>
    cases found with
    | nil => rfl
    | cons segment later => cases later <;> rfl

/-- Options are read exactly if there is one segment, and are its options. -/
theorem parameters_eq_ok_iff {options : OptionMap} :
    parameters settings text = .ok options ↔
      ∃ segment, segments settings true text = .ok [segment] ∧ segment.options = options := by
  rw [parameters_eq]
  cases segments settings true text with
  | error e => simp
  | ok found =>
    rcases found with - | ⟨segment, - | ⟨next, later⟩⟩ <;> simp

/-- A single module is refused as its segments are, or for their number. -/
theorem parameters_error {e : ParseError} (h : parameters settings text = .error e) :
    segments settings true text = .error e ∨ e = ⟨.notOneModule, text, 0⟩ := by
  rw [parameters_eq] at h
  split at h
  · next hs =>
    cases h
    exact .inl hs
  · cases h
  · cases h
    exact .inr rfl

end Entry

end DataPipeline.Definition
