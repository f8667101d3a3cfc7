import DataPipeline.Json.Tree

/-!
# Writing JSON

Trees are written compactly or over indented lines of two blanks a level. The
two layouts differ only in the blanks between the parts. In strings only the
quote, the backslash and control characters are escaped.
-/

namespace DataPipeline.Json

/-- A hexadecimal digit in lower case. -/
def hexDigit (n : Nat) : Char := Nat.digitChar n

/-- A character as it stands within a JSON string. -/
def escapeChar (c : Char) : Text :=
  if c = '"' then ['\\', '"']
  else if c = '\\' then ['\\', '\\']
  else if c = '\x08' then ['\\', 'b']
  else if c = '\x0c' then ['\\', 'f']
  else if c = '\n' then ['\\', 'n']
  else if c = '\r' then ['\\', 'r']
  else if c = '\t' then ['\\', 't']
  else if c.toNat < 0x20 then
    ['\\', 'u', '0', '0', hexDigit (c.toNat / 16), hexDigit (c.toNat % 16)]
  else [c]

/-- A string literal. An absent content is written as a lone surrogate. -/
def quote : Option Text → Text
  | some t => '"' :: (t.flatMap escapeChar ++ ['"'])
  | none => ['"', '\\', 'u', 'd', '8', '0', '0', '"']

/-- Where blanks go between the parts of a tree. -/
structure Layout where
  /-- What stands before an item, a member or a closing bracket at a depth. -/
  lineBreak : Nat → Text
  /-- What stands between a key and its value. -/
  colon : Text

/-- No blanks at all. -/
def compact : Layout := ⟨fun _ => [], [':']⟩

/-- One item or member a line, two blanks a level. -/
def indented : Layout := ⟨fun depth => '\n' :: List.replicate (2 * depth) ' ', [':', ' ']⟩

mutual

/-- A tree in the given layout, with its lines at the given depth. -/
def write (layout : Layout) (depth : Nat) : Json → Text
  | .null => ['n', 'u', 'l', 'l']
  | .bool true => ['t', 'r', 'u', 'e']
  | .bool false => ['f', 'a', 'l', 's', 'e']
  | .number literal => literal
  | .string content => quote content
  | .array [] => ['[', ']']
  | .array (item :: items) =>
    '[' :: (layout.lineBreak (depth + 1) ++ write layout (depth + 1) item ++
      writeItems layout depth items)
  | .object [] => ['\x7b', '\x7d']
  | .object (member :: members) =>
    '\x7b' :: (layout.lineBreak (depth + 1) ++ writeMember layout (depth + 1) member ++
      writeMembers layout depth members)

/-- The items after the first one and the closing bracket. -/
def writeItems (layout : Layout) (depth : Nat) : List Json → Text
  | [] => layout.lineBreak depth ++ [']']
  | item :: items =>
    ',' :: (layout.lineBreak (depth + 1) ++ write layout (depth + 1) item ++
      writeItems layout depth items)

/-- A key with its value. -/
def writeMember (layout : Layout) (depth : Nat) : Option Text × Json → Text
  | (key, value) => quote key ++ layout.colon ++ write layout depth value

/-- The members after the first one and the closing brace. -/
def writeMembers (layout : Layout) (depth : Nat) : List (Option Text × Json) → Text
  | [] => layout.lineBreak depth ++ ['\x7d']
  | member :: members =>
    ',' :: (layout.lineBreak (depth + 1) ++ writeMember layout (depth + 1) member ++
      writeMembers layout depth members)

end

/-- The compact text of a tree. -/
def toCompact (j : Json) : Text := write compact 0 j

/-- The indented text of a tree. -/
def toIndented (j : Json) : Text := write indented 0 j

end DataPipeline.Json
