import DataPipeline.Proofs.Definition.ByteLexerRun
import DataPipeline.Proofs.Definition.SegmentRun

/-!
# Places in a definition

The tokens of a definition tile it: between them stand ASCII blanks only, and
the offset of a token is the number of characters before it. An error shows a
part of the text that it is about, at the place that it names. Counting bytes
instead of characters changes none of this.
-/

namespace DataPipeline.Definition

open Text

/-- A token is written as what it says. -/
def Token.Spelled (token : Token) : Prop :=
  match token.kind with
  | .name name => token.text = name
  | .option key value => ∃ raw, token.text = optionText key raw ∧ trimEnd raw = value
  | .pipe => token.text = ['|']

/-- The tokens tile the rest of a text behind some of its characters. -/
inductive Tiles : (before rest : Text) → List Token → Prop
  /-- Behind the last token there are blanks only. -/
  | done {before gap : Text} (blank : ∀ c ∈ gap, isAsciiBlank c = true) : Tiles before gap []
  /-- A token stands behind blanks, at its offset. -/
  | token {before gap rest : Text} {token : Token} {tokens : List Token}
      (blank : ∀ c ∈ gap, isAsciiBlank c = true) (nonempty : token.text ≠ [])
      (spelled : token.Spelled) (place : token.offset = (before ++ gap).length)
      (later : Tiles (before ++ gap ++ token.text) rest tokens) :
      Tiles before (gap ++ token.text ++ rest) (token :: tokens)

/-- The error shows a part of the text at the place that it names, and shows
something unless the text is blank. -/
structure ParseError.LocatedIn (e : ParseError) (t : Text) : Prop where
  /-- The fragment stands in the text behind as many characters as told. -/
  place : ∃ before after, t = before ++ e.fragment ++ after ∧ before.length = e.offset
  /-- There is something to show. -/
  nonempty : isAllBlank t = false → e.fragment ≠ []

section Tokens

variable {d : Dialect} {nameDue : Bool} {before t : Text} {tokens : List Token}

/-- A token that stands by the rules is spelled by its text. -/
theorem Stands.spelled {l : Lexeme} {rest : Text} (h : Stands d nameDue l rest) (offset : Nat) :
    (⟨l.kind, l.text, offset⟩ : Token).Spelled := by
  cases h with
  | pipe => rfl
  | name => rfl
  | @option key raw => exact ⟨raw, rfl, rfl⟩

/-- The tokens of a run tile the text. -/
theorem tiles_of_lexes {offset : Nat} (h : Lexes d nameDue offset t tokens)
    (hoffset : offset = before.length) : Tiles before t tokens := by
  induction h generalizing before with
  | done blank => exact .done blank
  | @token nameDue offset gap rest l tokens blank stands next ih =>
    obtain ⟨c, u, htext, -⟩ := stands.exists_cons
    have hplace : offset + gap.length = (before ++ gap).length := by
      rw [List.length_append, hoffset]
    have hlater : offset + gap.length + l.text.length = (before ++ gap ++ l.text).length := by
      rw [List.length_append, ←hplace]
    have hne : l.text ≠ [] := by
      rw [htext]
      exact List.cons_ne_nil c u
    rw [←List.append_assoc]
    exact @Tiles.token before gap rest ⟨l.kind, l.text, offset + gap.length⟩ tokens blank hne
      (stands.spelled _) hplace (ih hlater)

/-- Each tile stands in the text at its offset. -/
theorem Tiles.place {token : Token} (h : Tiles before t tokens) (hm : token ∈ tokens) :
    token.text ≠ [] ∧
      ∃ front back, before ++ t = front ++ token.text ++ back ∧ front.length = token.offset := by
  induction h with
  | done => cases hm
  | @token before gap rest first tokens blank nonempty spelled place later ih =>
    rcases List.mem_cons.mp hm with rfl | hm
    · exact ⟨nonempty, before ++ gap, rest, by simp only [List.append_assoc], place.symm⟩
    · obtain ⟨hne, front, back, ht, hlen⟩ := ih hm
      refine ⟨hne, front, back, ?_, hlen⟩
      rw [←ht]
      simp only [List.append_assoc]

end Tokens

section Errors

variable {settings : ParserSettings} {singleModule : Bool} {group text : Text} {e : ParseError}

/-- An error about a whole text shows the text. -/
theorem locatedIn_whole (cause : Cause) (t : Text) : (⟨cause, t, 0⟩ : ParseError).LocatedIn t where
  place := ⟨[], [], (List.append_nil t).symm, rfl⟩
  nonempty := by
    rintro hb rfl
    cases hb

/-- An error of the lexer is located in the text. -/
theorem locatedIn_of_tokenize {d : Dialect} (h : tokenize d text = .error e) :
    e.LocatedIn text := by
  obtain ⟨-, hne, before, after, ht, hlen⟩ := tokensFrom_error h
  exact ⟨⟨before, after, ht, by omega⟩, fun _ => hne⟩

/-- An error of reading segments is located in the text. -/
theorem locatedIn_of_segments (h : segments settings singleModule text = .error e) :
    e.LocatedIn text ∧ e.cause ≠ .blankName := by
  rcases segments_error h with ⟨-, rfl⟩ | hf | ⟨tokens, hl, hg⟩ | ⟨-, rfl⟩
  · exact ⟨locatedIn_whole _ _, by simp⟩
  · exact ⟨locatedIn_of_tokenize hf, Cause.ne_blankName (tokensFrom_error hf).1⟩
  · obtain ⟨token, hm, hfragment, hoffset, hcause⟩ := groupTokens_error hg
    obtain ⟨hne, before, after, ht, hlen⟩ := (tiles_of_lexes hl rfl : Tiles [] _ _).place hm
    rw [←hfragment] at hne ht
    exact ⟨⟨⟨before, after, ht, hlen.trans hoffset.symm⟩, fun _ => hne⟩, hcause⟩
  · exact ⟨locatedIn_whole _ _, by simp⟩

/-- An error of reading a pipeline is located in its name or in the text. -/
theorem locatedIn_of_parse (h : parse settings group text = .error e) :
    e.LocatedIn (if e.cause = .blankName then group else text) := by
  rcases parse_eq_error_iff.mp h with ⟨-, rfl⟩ | ⟨-, hs⟩
  · exact locatedIn_whole _ _
  · obtain ⟨hl, hcause⟩ := locatedIn_of_segments hs
    rw [if_neg hcause]
    exact hl

/-- An error of reading a single module is located in the text. -/
theorem locatedIn_of_parameters (h : parameters settings text = .error e) : e.LocatedIn text := by
  rcases parameters_error h with hs | rfl
  · exact (locatedIn_of_segments hs).1
  · exact locatedIn_whole _ _

end Errors

/-- Every place is exact. For every text and dialect, the tokens of the text
tile it, each written as what it says, and every error of the lexer, of the
reader of pipelines and of the reader of single modules shows a part of its
input at the place that it names: of the name of the pipeline when that is
blank, and of the text otherwise. The lexer over bytes ends with the same
tokens or fault, so no slice that it takes falls inside a character. -/
theorem exact_places (d : Dialect) (settings : ParserSettings) (group text : Text) :
    (∀ tokens, tokenize d text = .ok tokens → Tiles [] text tokens) ∧
    (∀ e, tokenize d text = .error e → e.LocatedIn text) ∧
    (∀ e, parse settings group text = .error e →
      e.LocatedIn (if e.cause = .blankName then group else text)) ∧
    (∀ e, parameters settings text = .error e → e.LocatedIn text) ∧
    (∀ outcome, ByteLexer.Runs d text true ⟨0, 0⟩ outcome ↔
      outcome = (tokenize d text).mapError .fault) :=
  ⟨fun _ h => tiles_of_lexes (lexes_of_tokensFrom h) rfl, fun _ h => locatedIn_of_tokenize h,
    fun _ h => locatedIn_of_parse h, fun _ h => locatedIn_of_parameters h,
    fun _ => ByteLexer.runs_iff⟩

theorem exact_places_sample :
    tokenize {} "a --k=ü |é".toList = .error ⟨.nameStart, ['é'], 9⟩ ∧
    (⟨.nameStart, ['é'], 9⟩ : ParseError).LocatedIn "a --k=ü |é".toList ∧
    ByteLexer.Runs {} "a --k=ü |é".toList true ⟨0, 0⟩
      (.error (.fault ⟨.nameStart, ['é'], 9⟩)) ∧
    tokenize {} "a\n".toList = .ok [⟨.name ['a'], ['a'], 0⟩] ∧
    Tiles [] "a\n".toList [⟨.name ['a'], ['a'], 0⟩] ∧
    parse {} [] "a\n".toList = .error ⟨.blankName, [], 0⟩ ∧
    (⟨.blankName, [], 0⟩ : ParseError).LocatedIn [] ∧
    parameters {} " ".toList = .error ⟨.blankText, [' '], 0⟩ ∧
    (⟨.blankText, [' '], 0⟩ : ParseError).LocatedIn " ".toList := by
  have hstands : Stands {} false ⟨.option ['k'] ['ü'], ['-', '-', 'k', '=', 'ü']⟩ [' ', '|', 'é'] :=
    @Stands.option _ ['k'] ['ü'] [' ', '|', 'é'] (by decide) (by decide) (by decide) (by decide)
  have hlast : tokensFrom {} true 9 ['é'] = .error ⟨.nameStart, ['é'], 9⟩ :=
    @tokensFrom_fault {} true 9 'é' [] ⟨.nameStart, ['é']⟩ (by decide) rfl
  have hpipe : tokensFrom {} false 8 ['|', 'é'] = .error ⟨.nameStart, ['é'], 9⟩ := by
    refine (@tokensFrom_stands {} false 8 ⟨.pipe, ['|']⟩ ['é'] (.pipe rfl)).trans ?_
    change (tokensFrom {} true 9 ['é']).map _ = _
    rw [hlast]
    rfl
  have hoption : tokensFrom {} false 2 "--k=ü |é".toList = .error ⟨.nameStart, ['é'], 9⟩ := by
    refine (@tokensFrom_stands {} false 2 _ _ hstands).trans ?_
    change (tokensFrom {} false 7 (' ' :: ['|', 'é'])).map _ = _
    rw [tokensFrom_blank (by decide), hpipe]
    rfl
  have hfault : tokenize {} "a --k=ü |é".toList = .error ⟨.nameStart, ['é'], 9⟩ := by
    refine (@tokensFrom_stands {} true 0 ⟨.name ['a'], ['a']⟩ " --k=ü |é".toList
      (.name (by decide) (by decide))).trans ?_
    change (tokensFrom {} false 1 (' ' :: "--k=ü |é".toList)).map _ = _
    rw [tokensFrom_blank (by decide), hoption]
    rfl
  have htokens : tokenize {} "a\n".toList = .ok [⟨.name ['a'], ['a'], 0⟩] := by
    refine (@tokensFrom_stands {} true 0 ⟨.name ['a'], ['a']⟩ "\n".toList
      (.name (by decide) (by decide))).trans ?_
    change (tokensFrom {} false 1 ('\n' :: [])).map _ = _
    rw [tokensFrom_blank (by decide), tokensFrom_nil]
    rfl
  have hparse : parse {} [] "a\n".toList = .error ⟨.blankName, [], 0⟩ := parse_of_blank rfl
  have hparameters : parameters {} " ".toList = .error ⟨.blankText, [' '], 0⟩ := by
    rw [parameters_eq, segments_of_blank (by decide)]
    rfl
  have hwide := exact_places {} {} [] "a --k=ü |é".toList
  have hshort := exact_places {} {} [] "a\n".toList
  exact ⟨hfault, hwide.2.1 _ hfault, (hwide.2.2.2.2 _).mpr (by rw [hfault]; rfl), htokens,
    hshort.1 _ htokens, hparse, hshort.2.2.1 _ hparse, hparameters,
    (exact_places {} {} [] " ".toList).2.2.2.1 _ hparameters⟩

end DataPipeline.Definition
