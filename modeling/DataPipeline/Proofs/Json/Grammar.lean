import DataPipeline.Json.Reader

/-!
# The grammar of JSON texts

Which texts spell a JSON value. Blanks may stand around every value, key, bracket,
comma and colon. A string spells its characters one by one, by themselves, by
their short escapes or by their 16-bit codes, and a number is known by its
spelling. The relation does not mention the reader.
-/

namespace DataPipeline.Json

/-- Blanks of JSON. -/
def AreBlanks (gap : Text) : Prop := ∀ c ∈ gap, isJsonBlank c = true

section Numbers

/-- Decimal digits, at least one. -/
structure AreDigits (digits : Text) : Prop where
  /-- There is a digit. -/
  nonempty : digits ≠ []
  /-- All characters are digits. -/
  digit : ∀ c ∈ digits, c.isDigit = true

/-- The digits of a number before its point: a lone zero, or digits of which the
first one is not zero. -/
inductive IsWhole : Text → Prop
  | zero : IsWhole ['0']
  | digits {c : Char} {rest : Text} (first : c ≠ '0') (spelled : AreDigits (c :: rest)) :
      IsWhole (c :: rest)

/-- The fraction of a number, if it has one. -/
inductive IsFraction : Text → Prop
  | none : IsFraction []
  | point {digits : Text} (spelled : AreDigits digits) : IsFraction ('.' :: digits)

/-- The exponent of a number, if it has one. -/
inductive IsExponent : Text → Prop
  | none : IsExponent []
  | mark {mark : Char} {sign digits : Text} (letter : mark = 'e' ∨ mark = 'E')
      (signed : sign = [] ∨ sign = ['+'] ∨ sign = ['-']) (spelled : AreDigits digits) :
      IsExponent (mark :: (sign ++ digits))

/-- The spelling of a number. -/
inductive IsNumeral : Text → Prop
  | parts {sign whole fraction exponent : Text} (signed : sign = [] ∨ sign = ['-'])
      (isWhole : IsWhole whole) (isFraction : IsFraction fraction)
      (isExponent : IsExponent exponent) : IsNumeral (sign ++ whole ++ fraction ++ exponent)

end Numbers

/-- What the body of a string literal spells. -/
inductive SpellsBody : Text → List Spelled → Prop
  | nil : SpellsBody [] []
  | plain {c : Char} {t : Text} {body : List Spelled} (quote : c ≠ '"') (slash : c ≠ '\\')
      (control : ¬c.toNat < 0x20) (rest : SpellsBody t body) : SpellsBody (c :: t) (.char c :: body)
  | short {mark c : Char} {t : Text} {body : List Spelled} (named : shortEscape? mark = some c)
      (rest : SpellsBody t body) : SpellsBody ('\\' :: mark :: t) (.char c :: body)
  | code {a b c d : Char} {h i j k : Nat} {t : Text} {body : List Spelled}
      (first : hexValue? a = some h) (second : hexValue? b = some i) (third : hexValue? c = some j)
      (fourth : hexValue? d = some k) (rest : SpellsBody t body) :
      SpellsBody ('\\' :: 'u' :: a :: b :: c :: d :: t)
        (.code ((h * 16 + i) * 256 + (j * 16 + k)) :: body)

/-- A member of an object with its spelling. -/
structure MemberText where
  /-- The spelling of the key. -/
  keyText : Text
  /-- The content of the key. -/
  key : Option Text
  /-- The spelling of the value. -/
  valueText : Text
  /-- The value. -/
  value : Json

/-- The spelling of a member. -/
def MemberText.text (m : MemberText) : Text := m.keyText ++ ':' :: m.valueText

/-- A text spells a JSON value, with any blanks between its parts. -/
inductive Spells : Text → Json → Prop
  | null : Spells ['n', 'u', 'l', 'l'] .null
  | bool (value : Bool) :
      Spells (if value then ['t', 'r', 'u', 'e'] else ['f', 'a', 'l', 's', 'e']) (.bool value)
  | number {literal : Text} (numeral : IsNumeral literal) : Spells literal (.number literal)
  | string {t : Text} {body : List Spelled} (spelled : SpellsBody t body) :
      Spells ('"' :: (t ++ ['"'])) (.string (bodyText? body))
  | array {gap : Text} {items : List (Text × Json)} (blank : AreBlanks gap)
      (spelled : ∀ item ∈ items, Spells item.1 item.2) :
      Spells ('[' :: (gap ++ [','].intercalate (items.map Prod.fst) ++ [']']))
        (.array (items.map Prod.snd))
  | object {gap : Text} {members : List MemberText} (blank : AreBlanks gap)
      (keys : ∀ m ∈ members, Spells m.keyText (.string m.key))
      (values : ∀ m ∈ members, Spells m.valueText m.value) :
      Spells ('\x7b' :: (gap ++ [','].intercalate (members.map MemberText.text) ++ ['\x7d']))
        (.object (members.map fun m => (m.key, m.value)))
  /-- Blanks around a value do not matter. -/
  | blanks {before t after : Text} {j : Json} (front : AreBlanks before) (back : AreBlanks after)
      (spelled : Spells t j) : Spells (before ++ t ++ after) j

/-- A string is spelled by a literal with blanks around it. -/
theorem Spells.exists_literal {t : Text} {content : Option Text} (h : Spells t (.string content)) :
    ∃ before literal body after, t = before ++ '"' :: (literal ++ '"' :: after) ∧
      AreBlanks before ∧ AreBlanks after ∧ SpellsBody literal body ∧ bodyText? body = content := by
  generalize hj : Json.string content = j at h
  induction h with
  | @string literal body spelled =>
    cases hj
    exact ⟨[], literal, body, [], rfl, List.forall_mem_nil _, List.forall_mem_nil _, spelled, rfl⟩
  | @blanks outerFront t outerBack j front back spelled ih =>
    obtain ⟨before, literal, body, after, rfl, hbefore, hafter, hbody, hcontent⟩ := ih hj
    refine ⟨outerFront ++ before, literal, body, after ++ outerBack, by simp, ?_, ?_, hbody,
      hcontent⟩
    · exact List.forall_mem_append.mpr ⟨front, hbefore⟩
    · exact List.forall_mem_append.mpr ⟨hafter, back⟩
  | null | bool | number | array | object => cases hj

end DataPipeline.Json
