import DataPipeline.Text.Basic

/-!
# Identifiers of the definition language

Module names and option keys share one class of words: an ASCII letter or
`_`, then letters, digits, `_` and `-`. The scanners here cut such a word
from the front of a text.
-/

namespace DataPipeline.Definition

/-- Characters that may open an identifier. -/
def isIdentStart (c : Char) : Bool := c.isAlpha || c = '_'

/-- Characters that may continue an identifier. -/
def isIdentChar (c : Char) : Bool := c.isAlphanum || c = '_' || c = '-'

/-- An identifier is a nonempty word of identifier characters with a proper
first character. -/
def IsIdent : Text → Prop
  | [] => False
  | c :: rest => isIdentStart c = true ∧ rest.all isIdentChar = true

instance : DecidablePred IsIdent
  | [] => isFalse id
  | c :: rest => inferInstanceAs (Decidable (isIdentStart c = true ∧ rest.all isIdentChar = true))

theorem isIdentChar_of_isIdentStart {c : Char} (h : isIdentStart c = true) :
    isIdentChar c = true := by
  simp only [isIdentStart, Bool.or_eq_true] at h
  rcases h with h | h <;> simp [isIdentChar, Char.isAlphanum, h]

/-- The longest identifier at the front of a text; empty if there is none. -/
def leadingIdent (t : Text) : Text :=
  match t with
  | [] => []
  | c :: _ => if isIdentStart c then t.takeWhile isIdentChar else []

/-- Whether the text starts with the option mark `--`. -/
def startsOption : Text → Bool
  | '-' :: '-' :: _ => true
  | _ => false

/-- Whether the text starts with a complete option head `--key=`. -/
def startsOptionHead : Text → Bool
  | '-' :: '-' :: t => leadingIdent t ≠ [] && (t.drop (leadingIdent t).length).head? = some '='
  | _ => false

/-- The word at the front of a text ends before an ASCII blank or a `|`. -/
def word (t : Text) : Text := t.takeWhile fun c => !(Text.isAsciiBlank c || c = '|')

/-- Cuts the identifier characters from the front of a text. There is no
answer if a complete option head is met on the way. -/
def cutName? (t : Text) : Option (Text × Text) :=
  match t with
  | [] => some ([], [])
  | c :: rest =>
    if startsOptionHead (c :: rest) then none
    else if isIdentChar c then (cutName? rest).map fun (name, after) => (c :: name, after)
    else some ([], c :: rest)

end DataPipeline.Definition
