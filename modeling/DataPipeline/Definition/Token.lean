import DataPipeline.Definition.Error
import DataPipeline.Definition.Identifier

/-!
# Tokens of a definition

The text of a definition falls into module names, options and separators,
with ASCII blanks between them. Which of them is due depends on one fact only:
whether a module name is expected next. The value of an option reaches up to
the first run of blanks that is followed by a separator, by another option
mark or by the end of the text.
-/

namespace DataPipeline.Definition

open Text

/-- What a token says. -/
inductive TokenKind
  /-- The module name at the head of a segment. -/
  | name (name : Text)
  /-- An option of the module before it; the value has no trailing blanks. -/
  | option (key value : Text)
  /-- The separator `|` between two segments. -/
  | pipe
  deriving DecidableEq, Repr

/-- A token with its place in the definition. -/
structure Token where
  /-- What the token says. -/
  kind : TokenKind
  /-- The exact characters of the token. -/
  text : Text
  /-- Number of characters before the token. -/
  offset : Nat
  deriving DecidableEq, Repr

/-- Which definitions the lexer accepts. -/
structure Dialect where
  /-- Accept `--key=` with nothing before the next boundary. -/
  allowEmptyValues : Bool := false
  /-- Refuse separators, for the text of a single module. -/
  singleModule : Bool := false
  deriving DecidableEq, Repr

/-- Whether a value must stop before this text, once blanks were skipped. -/
def endsValue (t : Text) : Bool := t = [] || t.head? = some '|' || startsOption t

/-- The raw value of an option: everything up to the first run of ASCII blanks
that a value must stop before. Other runs belong to the value as a whole. -/
def rawValue (t : Text) : Text :=
  match t with
  | [] => []
  | c :: rest =>
    if isAsciiBlank c then
      if endsValue ((c :: rest).dropWhile isAsciiBlank) then []
      else (c :: rest).takeWhile isAsciiBlank ++ rawValue ((c :: rest).dropWhile isAsciiBlank)
    else c :: rawValue rest
termination_by t.length
decreasing_by
  · rename_i h _
    have := (List.dropWhile_sublist (l := rest) isAsciiBlank).length_le
    simp only [List.dropWhile_cons, h, if_true, List.length_cons]
    omega
  · simp

/-- The characters of one token and what they say. -/
structure Lexeme where
  /-- What the characters say. -/
  kind : TokenKind
  /-- The characters. -/
  text : Text
  deriving DecidableEq, Repr

/-- What is wrong at the front of a text, with the characters to show. -/
structure Fault where
  /-- What is wrong. -/
  cause : Cause
  /-- The characters to show. -/
  fragment : Text
  deriving DecidableEq, Repr

/-- Whether a module name may stop before this text. -/
def endsName (t : Text) : Bool :=
  match t.head? with
  | none => true
  | some c => c = '|' || isAsciiBlank c

/-- Reads a module name at the front of a text. -/
def lexName (t : Text) : Except Fault Lexeme :=
  match t with
  | [] => .error ⟨.nameStart, []⟩
  | c :: _ =>
    if isIdentStart c then
      match cutName? t with
      | none => .error ⟨.gluedOption, word t⟩
      | some (name, after) =>
        if endsName after then .ok ⟨.name name, name⟩
        else .error ⟨.nameCharacter, word t⟩
    else .error ⟨.nameStart, word t⟩

/-- Reads an option at the front of a text that starts with `--`. -/
def lexOption (d : Dialect) (t : Text) : Except Fault Lexeme :=
  let afterMark := t.drop 2
  let key := leadingIdent afterMark
  if key = [] then .error ⟨.optionKey, word t⟩
  else
    match afterMark.drop key.length with
    | '=' :: afterEquals =>
      let raw := rawValue afterEquals
      let text := '-' :: '-' :: (key ++ '=' :: raw)
      if trimEnd raw = [] && !d.allowEmptyValues then .error ⟨.noValue key, text⟩
      else .ok ⟨.option key (trimEnd raw), text⟩
    | _ => .error ⟨.noEquals key, word t⟩

/-- Reads the token at the front of a text that starts with no blank. -/
def lexToken (d : Dialect) (nameDue : Bool) (t : Text) : Except Fault Lexeme :=
  if t.head? = some '|' then
    if d.singleModule then .error ⟨.separatorRefused, ['|']⟩ else .ok ⟨.pipe, ['|']⟩
  else if startsOption t then
    if nameDue then .error ⟨.optionFirst, word t⟩ else lexOption d t
  else if nameDue then lexName t
  else .error ⟨.strayWord, word t⟩

/-- A module name takes at least its first character. -/
theorem lexName_text_ne_nil {t : Text} {l : Lexeme} (h : lexName t = .ok l) : l.text ≠ [] := by
  cases t with
  | nil => simp [lexName] at h
  | cons c rest =>
    by_cases hc : isIdentStart c = true
    · by_cases ho : startsOptionHead (c :: rest) = true
      · simp [lexName, cutName?, hc, ho] at h
      · cases hn : cutName? rest with
        | none => simp [lexName, cutName?, hc, ho, hn, isIdentChar_of_isIdentStart hc] at h
        | some cut =>
          simp only [lexName, cutName?, hc, ho, hn, isIdentChar_of_isIdentStart hc, if_true,
            if_false, Bool.false_eq_true, Option.map_some] at h
          split at h
          · cases h; simp
          · cases h
    · simp [lexName, hc] at h

/-- An option takes at least its mark. -/
theorem lexOption_text_ne_nil {d : Dialect} {t : Text} {l : Lexeme}
    (h : lexOption d t = .ok l) : l.text ≠ [] := by
  simp only [lexOption] at h
  split at h
  · cases h
  · split at h
    · split at h
      · cases h
      · cases h; simp
    · cases h

/-- Every token takes at least one character. -/
theorem lexToken_text_ne_nil {d : Dialect} {nameDue : Bool} {t : Text} {l : Lexeme}
    (h : lexToken d nameDue t = .ok l) : l.text ≠ [] := by
  simp only [lexToken] at h
  split at h
  · split at h
    · cases h
    · cases h; simp
  · split at h
    · split at h
      · cases h
      · exact lexOption_text_ne_nil h
    · split at h
      · exact lexName_text_ne_nil h
      · cases h

/-- Behind a token there is less than in front of it. -/
theorem length_rest_lt {d : Dialect} {nameDue : Bool} {c : Char} {t rest : Text} {l : Lexeme}
    (ht : t.dropWhile isAsciiBlank = c :: rest) (h : lexToken d nameDue (c :: rest) = .ok l) :
    ((c :: rest).drop l.text.length).length < t.length := by
  have hpos := List.length_pos_iff.mpr (lexToken_text_ne_nil h)
  have hle := (List.dropWhile_sublist (l := t) isAsciiBlank).length_le
  rw [ht] at hle
  simp only [List.length_drop, List.length_cons] at hle ⊢
  omega

/-- The tokens of a text whose first character stands at the given offset, or its
first fault. -/
def tokensFrom (d : Dialect) (nameDue : Bool) (offset : Nat) (t : Text) :
    Except ParseError (List Token) :=
  match _ht : t.dropWhile isAsciiBlank with
  | [] => .ok []
  | c :: rest =>
    let start := offset + (t.takeWhile isAsciiBlank).length
    match _hl : lexToken d nameDue (c :: rest) with
    | .error fault => .error ⟨fault.cause, fault.fragment, start⟩
    | .ok l => do
      let tokens ← tokensFrom d (l.kind = .pipe) (start + l.text.length)
        ((c :: rest).drop l.text.length)
      return ⟨l.kind, l.text, start⟩ :: tokens
termination_by t.length
decreasing_by exact length_rest_lt _ht _hl

/-- The tokens of a definition, or its first fault. -/
def tokenize (d : Dialect) (t : Text) : Except ParseError (List Token) := tokensFrom d true 0 t

end DataPipeline.Definition
