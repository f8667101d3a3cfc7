import DataPipeline.Json.Tree

/-!
# Reading JSON

The reader accepts exactly one value with blanks around it. Each cutter takes
one part from the front of a text and returns what follows. The nesting of
values is bounded by the length of the text, which is what the wrapper `read?`
passes to the recursive readers.
-/

namespace DataPipeline.Json

/-- The value of a hexadecimal digit in either case. -/
def hexValue? (c : Char) : Option Nat :=
  if c.isDigit then some (c.toNat - '0'.toNat)
  else if 'a' ≤ c ∧ c ≤ 'f' then some (c.toNat - 'a'.toNat + 10)
  else if 'A' ≤ c ∧ c ≤ 'F' then some (c.toNat - 'A'.toNat + 10)
  else none

/-- What a string literal spells at one place: a character, or a 16-bit code
by its number. -/
inductive Spelled
  | char (c : Char)
  | code (n : Nat)
  deriving DecidableEq, Repr

/-- The character that a short escape names. -/
def shortEscape? (c : Char) : Option Char :=
  match c with
  | '"' => some '"'
  | '\\' => some '\\'
  | '/' => some '/'
  | 'b' => some '\x08'
  | 'f' => some '\x0c'
  | 'n' => some '\n'
  | 'r' => some '\r'
  | 't' => some '\t'
  | _ => none

/-- Cuts the body of a string literal up to its closing quote. -/
def cutBody? : Text → Option (List Spelled × Text)
  | [] => none
  | '"' :: rest => some ([], rest)
  | '\\' :: 'u' :: a :: b :: c :: d :: rest => do
    let n := ((← hexValue? a) * 16 + (← hexValue? b)) * 256 +
      ((← hexValue? c) * 16 + (← hexValue? d))
    let (body, after) ← cutBody? rest
    return (.code n :: body, after)
  | '\\' :: c :: rest => do
    let named ← shortEscape? c
    let (body, after) ← cutBody? rest
    return (.char named :: body, after)
  | c :: rest =>
    if c.toNat < 0x20 || c = '\\' then none
    else (cutBody? rest).map fun (body, after) => (.char c :: body, after)

/-- The text that a body spells, unless a surrogate stands alone in it. -/
def bodyText? : List Spelled → Option Text
  | [] => some []
  | .char c :: rest => (bodyText? rest).map (c :: ·)
  | .code high :: .code low :: rest =>
    if 0xD800 ≤ high ∧ high < 0xDC00 then
      if 0xDC00 ≤ low ∧ low < 0xE000 then
        (bodyText? rest).map
          (Char.ofNat (0x10000 + (high - 0xD800) * 0x400 + (low - 0xDC00)) :: ·)
      else none
    else if 0xDC00 ≤ high ∧ high < 0xE000 then none
    else (bodyText? (.code low :: rest)).map (Char.ofNat high :: ·)
  | .code n :: rest =>
    if 0xD800 ≤ n ∧ n < 0xE000 then none else (bodyText? rest).map (Char.ofNat n :: ·)

/-- Cuts a string literal after its opening quote. -/
def cutString? (t : Text) : Option (Option Text × Text) :=
  (cutBody? t).map fun (body, after) => (bodyText? body, after)

/-- Cuts the fraction of a number: a point and at least one digit, or nothing. -/
def cutFraction? : Text → Option (Text × Text)
  | '.' :: rest =>
    let digits := rest.takeWhile Char.isDigit
    if digits = [] then none else some ('.' :: digits, rest.dropWhile Char.isDigit)
  | t => some ([], t)

/-- Cuts the exponent of a number: the mark, a sign and at least one digit, or
nothing. -/
def cutExponent? : Text → Option (Text × Text)
  | [] => some ([], [])
  | mark :: rest =>
    if mark = 'e' || mark = 'E' then
      let sign := rest.takeWhile (fun c => c = '+' || c = '-') |>.take 1
      let afterSign := rest.drop sign.length
      let digits := afterSign.takeWhile Char.isDigit
      if digits = [] then none
      else some (mark :: (sign ++ digits), afterSign.dropWhile Char.isDigit)
    else some ([], mark :: rest)

/-- Cuts the digits before the point: a lone zero, or digits that start with
another one. -/
def cutInteger? : Text → Option (Text × Text)
  | '0' :: rest => some (['0'], rest)
  | t =>
    let digits := t.takeWhile Char.isDigit
    if digits = [] then none else some (digits, t.dropWhile Char.isDigit)

/-- Cuts the spelling of a number. -/
def cutNumber? (t : Text) : Option (Text × Text) := do
  let sign := if t.head? = some '-' then ['-'] else []
  let (whole, afterWhole) ← cutInteger? (t.drop sign.length)
  let (fraction, afterFraction) ← cutFraction? afterWhole
  let (exponent, afterExponent) ← cutExponent? afterFraction
  return (sign ++ whole ++ fraction ++ exponent, afterExponent)

mutual

/-- Cuts a value, after blanks, that is nested at most so deep. -/
def cutValue? : (bound : Nat) → Text → Option (Json × Text)
  | 0, _ => none
  | bound + 1, t =>
    match skipBlanks t with
    | 'n' :: 'u' :: 'l' :: 'l' :: rest => some (.null, rest)
    | 't' :: 'r' :: 'u' :: 'e' :: rest => some (.bool true, rest)
    | 'f' :: 'a' :: 'l' :: 's' :: 'e' :: rest => some (.bool false, rest)
    | '"' :: rest => (cutString? rest).map fun (content, after) => (.string content, after)
    | '[' :: rest =>
      match skipBlanks rest with
      | ']' :: after => some (.array [], after)
      | items => (cutItems? bound items).map fun (found, after) => (.array found, after)
    | '\x7b' :: rest =>
      match skipBlanks rest with
      | '\x7d' :: after => some (.object [], after)
      | members => (cutMembers? bound members).map fun (found, after) => (.object found, after)
    | rest => (cutNumber? rest).map fun (literal, after) => (.number literal, after)

/-- Cuts the items of an array and its closing bracket. -/
def cutItems? : (bound : Nat) → Text → Option (List Json × Text)
  | 0, _ => none
  | bound + 1, t => do
    let (item, afterItem) ← cutValue? bound t
    match skipBlanks afterItem with
    | ']' :: after => return ([item], after)
    | ',' :: rest =>
      let (items, after) ← cutItems? bound rest
      return (item :: items, after)
    | _ => none

/-- Cuts the members of an object and its closing brace. -/
def cutMembers? : (bound : Nat) → Text → Option (List (Option Text × Json) × Text)
  | 0, _ => none
  | bound + 1, t =>
    match skipBlanks t with
    | '"' :: rest => do
      let (key, afterKey) ← cutString? rest
      match skipBlanks afterKey with
      | ':' :: rest =>
        let (value, afterValue) ← cutValue? bound rest
        match skipBlanks afterValue with
        | '\x7d' :: after => return ([(key, value)], after)
        | ',' :: rest =>
          let (members, after) ← cutMembers? bound rest
          return ((key, value) :: members, after)
        | _ => none
      | _ => none
    | _ => none

end

/-- The tree of a JSON text. -/
def read? (t : Text) : Option Json :=
  match cutValue? (2 * t.length + 2) t with
  | some (value, after) => if skipBlanks after = [] then some value else none
  | none => none

end DataPipeline.Json
