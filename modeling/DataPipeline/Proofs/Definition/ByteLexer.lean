import DataPipeline.Definition.Token
import DataPipeline.Proofs.Text.Utf8

/-!
# The lexer over bytes

The lexer as it works on the UTF-8 bytes of a definition. Its cursor is a byte
position together with the number of characters before it, every test looks at
one byte, and texts are cut out between byte positions. A cut inside a
character, positions out of order and a count below zero all break the run,
and the run says so.
-/

namespace DataPipeline.Definition.ByteLexer

open Text

/-- A place in the bytes of a definition. -/
structure Cursor where
  /-- Number of bytes before the place. -/
  index : Nat
  /-- Number of characters before the place. -/
  chars : Nat
  deriving DecidableEq, Repr

/-- Why a run over bytes stops early. -/
inductive Halt
  /-- A slice or a count that does not exist. -/
  | broken
  /-- A fault in the definition. -/
  | fault (e : ParseError)
  deriving DecidableEq, Repr

/-- The value that must be there, or else the run breaks. -/
def orBroken {α : Type} : Option α → Except Halt α
  | some a => .ok a
  | none => .error .broken

section Bytes

variable (bytes : List UInt8)

/-- Whether there is a byte at an index and it passes a test. -/
def byteIs (q : UInt8 → Bool) (i : Nat) : Bool := bytes[i]?.any q

theorem lt_of_byteIs {bytes : List UInt8} {q : UInt8 → Bool} {i : Nat}
    (h : byteIs bytes q i = true) : i < bytes.length := by
  refine Nat.lt_of_not_le fun hi => ?_
  rw [byteIs, List.getElem?_eq_none hi] at h
  cases h

/-- The first index from here on at which a test fails. -/
def passWhile (q : UInt8 → Bool) (i : Nat) : Nat :=
  if byteIs bytes q i then passWhile q (i + 1) else i
termination_by bytes.length - i
decreasing_by
  rename_i h
  have := lt_of_byteIs h
  omega

theorem le_passWhile (q : UInt8 → Bool) (i : Nat) : i ≤ passWhile bytes q i := by
  fun_induction passWhile bytes q i with
  | case1 i h ih => omega
  | case2 i h => exact Nat.le_refl i

theorem lt_passWhile {q : UInt8 → Bool} {i : Nat} (h : byteIs bytes q i = true) :
    i < passWhile bytes q i := by
  rw [passWhile, if_pos h]
  exact le_passWhile bytes q (i + 1)

/-- Where the word at an index ends. -/
def wordEnd (i : Nat) : Nat :=
  passWhile bytes (fun b => !onByte (fun c => isAsciiBlank c || c = '|') b) i

/-- Whether an option mark stands at an index. -/
def markAt (i : Nat) : Bool :=
  byteIs bytes (onByte fun c => c = '-') i && byteIs bytes (onByte fun c => c = '-') (i + 1)

/-- Whether a complete option head stands at an index. -/
def optionAhead (i : Nat) : Bool :=
  markAt bytes i && byteIs bytes (onByte isIdentStart) (i + 2) &&
    byteIs bytes (onByte fun c => c = '=') (passWhile bytes (onByte isIdentChar) (i + 2))

/-- Where the value that starts at an index ends. -/
def valueEnd (i : Nat) : Nat :=
  if i < bytes.length then
    if byteIs bytes (onByte isAsciiBlank) i then
      let next := passWhile bytes (onByte isAsciiBlank) i
      if next = bytes.length || byteIs bytes (onByte fun c => c = '|') next ||
        markAt bytes next then i
      else valueEnd next
    else valueEnd (i + 1)
  else bytes.length
termination_by bytes.length - i
decreasing_by
  · rename_i hi hb _
    have := lt_passWhile bytes hb
    change bytes.length - passWhile bytes _ i < _
    omega
  · omega

/-- The cursor one byte further, unless it is at the end. -/
def advance (p : Cursor) : Cursor :=
  match bytes[p.index]? with
  | some b => ⟨p.index + 1, p.chars + countChars [b]⟩
  | none => p

theorem advance_index {bytes : List UInt8} {p : Cursor} (h : p.index < bytes.length) :
    (advance bytes p).index = p.index + 1 := by
  rw [advance, List.getElem?_eq_getElem h]

/-- The cursor at the first byte from here on that fails a test. -/
def advanceWhile (q : UInt8 → Bool) (p : Cursor) : Cursor :=
  if byteIs bytes q p.index then advanceWhile q (advance bytes p) else p
termination_by bytes.length - p.index
decreasing_by
  rename_i h
  have := lt_of_byteIs h
  rw [advance_index this]
  omega

/-- The cursor behind the characters of a module name, or the cursor at a
complete option head that is met before. -/
def passName (p : Cursor) : Except Cursor Cursor :=
  if p.index < bytes.length then
    if optionAhead bytes p.index then .error p
    else if byteIs bytes (onByte isIdentChar) p.index then passName (advance bytes p)
    else .ok p
  else .ok p
termination_by bytes.length - p.index
decreasing_by
  rename_i h _ _
  rw [advance_index h]
  omega

/-- The cursor at a byte index further on, or at the end. -/
def seek (p : Cursor) (index : Nat) : Except Halt Cursor := do
  let passed ← orBroken (bytesBetween? bytes p.index (min index bytes.length))
  return ⟨min index bytes.length, p.chars + countChars passed⟩

/-- The number of characters before a byte, counted from the cursor. -/
def charOffset (p : Cursor) (index : Nat) : Except Halt Nat := do
  if index ≤ p.index then
    let passed ← orBroken (bytesBetween? bytes index p.index)
    if countChars passed ≤ p.chars then return p.chars - countChars passed
    else .error .broken
  else
    let ahead ← orBroken (bytesBetween? bytes p.index (min index bytes.length))
    return p.chars + countChars ahead

end Bytes

section Source

variable (d : Dialect) (src : Text)

/-- The first index from here on that lies between two characters. -/
def boundaryFrom (i : Nat) : Nat :=
  ((List.range' i (byteSize src + 1 - i)).find? fun k => (splitAtByte? k src).isSome).getD
    (byteSize src)

/-- Reports a fault that lies between two byte positions. -/
def faultAt {α : Type} (p : Cursor) (cause : Cause) (start stop : Nat) : Except Halt α := do
  let fragment ← orBroken
    (textBetween? src start (boundaryFrom src (min (max stop start) (byteSize src))))
  let offset ← charOffset (utf8 src) p start
  .error (.fault ⟨cause, fragment, offset⟩)

/-- The token between a byte position and the cursor. -/
def tokenAt (p : Cursor) (kind : TokenKind) (start : Nat) : Except Halt Token := do
  let text ← orBroken (textBetween? src start p.index)
  let offset ← charOffset (utf8 src) p start
  return ⟨kind, text, offset⟩

/-- Reads a module name at the cursor. -/
def readName (p : Cursor) : Except Halt (Token × Cursor) :=
  let bytes := utf8 src
  if byteIs bytes (onByte isIdentStart) p.index then
    match passName bytes p with
    | .error q => faultAt src q .gluedOption p.index (wordEnd bytes p.index)
    | .ok q =>
      if bytes[q.index]?.all (onByte fun c => c = '|' || isAsciiBlank c) then do
        let name ← orBroken (textBetween? src p.index q.index)
        let token ← tokenAt src q (.name name) p.index
        return (token, q)
      else faultAt src q .nameCharacter p.index (wordEnd bytes p.index)
  else faultAt src p .nameStart p.index (wordEnd bytes p.index)

/-- Reads the value of an option whose `=` stands at the cursor. -/
def readValue (start : Nat) (key : Text) (p : Cursor) : Except Halt (Token × Cursor) := do
  let bytes := utf8 src
  let valueStart := advance bytes p
  let q ← seek bytes valueStart (valueEnd bytes valueStart.index)
  let raw ← orBroken (textBetween? src valueStart.index q.index)
  if trimEnd raw = [] && !d.allowEmptyValues then faultAt src q (.noValue key) start q.index
  else
    let token ← tokenAt src q (.option key (trimEnd raw)) start
    return (token, q)

/-- Reads an option whose mark stands at the cursor. -/
def readOption (p : Cursor) : Except Halt (Token × Cursor) := do
  let bytes := utf8 src
  let keyStart ← seek bytes p (p.index + 2)
  let keyEnd :=
    if byteIs bytes (onByte isIdentStart) keyStart.index then
      advanceWhile bytes (onByte isIdentChar) keyStart
    else keyStart
  if keyStart.index = keyEnd.index then
    faultAt src keyEnd .optionKey p.index (wordEnd bytes p.index)
  else
    let key ← orBroken (textBetween? src keyStart.index keyEnd.index)
    if byteIs bytes (onByte fun c => c = '=') keyEnd.index then readValue d src p.index key keyEnd
    else faultAt src keyEnd (.noEquals key) p.index (wordEnd bytes p.index)

/-- Reads the next token, with the place behind it and whether a module name
is due there. There is none at the end. -/
def nextToken (nameDue : Bool) (p : Cursor) : Except Halt (Option (Token × Cursor × Bool)) :=
  let bytes := utf8 src
  let p := advanceWhile bytes (onByte isAsciiBlank) p
  if p.index < bytes.length then
    if byteIs bytes (onByte fun c => c = '|') p.index then
      if d.singleModule then faultAt src p .separatorRefused p.index (p.index + 1)
      else do
        let token ← tokenAt src (advance bytes p) .pipe p.index
        return some (token, advance bytes p, true)
    else if markAt bytes p.index then
      if nameDue then faultAt src p .optionFirst p.index (wordEnd bytes p.index)
      else do
        let (token, q) ← readOption d src p
        return some (token, q, nameDue)
    else if nameDue then do
      let (token, q) ← readName src p
      return some (token, q, false)
    else faultAt src p .strayWord p.index (wordEnd bytes p.index)
  else .ok none

/-- The loop over the tokens: how a run from a place can end. -/
inductive Runs : (nameDue : Bool) → Cursor → Except Halt (List Token) → Prop
  /-- There is no further token. -/
  | done {nameDue : Bool} {p : Cursor} (next : nextToken d src nameDue p = .ok none) :
      Runs nameDue p (.ok [])
  /-- The next token cannot be read. -/
  | halt {nameDue : Bool} {p : Cursor} {h : Halt} (next : nextToken d src nameDue p = .error h) :
      Runs nameDue p (.error h)
  /-- A token is read, and the loop goes on. -/
  | token {nameDue due : Bool} {p q : Cursor} {token : Token} {outcome : Except Halt (List Token)}
      (next : nextToken d src nameDue p = .ok (some (token, q, due))) (later : Runs due q outcome) :
      Runs nameDue p (outcome.map fun tokens => token :: tokens)

end Source

end DataPipeline.Definition.ByteLexer
