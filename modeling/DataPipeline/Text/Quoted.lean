import DataPipeline.Text.Basic
import DataPipeline.Text.Hidden

/-!
# Quoted texts

Quoting makes every character of a text visible between quotes. The quote
itself, the backslash and four control characters have short escapes, and
other hidden characters are written by their number in base sixteen.
-/

namespace DataPipeline.Text

/-- A character within the given quotes. -/
def quoteChar (mark c : Char) : Text :=
  if c = '\x00' then ['\\', '0']
  else if c = '\t' then ['\\', 't']
  else if c = '\r' then ['\\', 'r']
  else if c = '\n' then ['\\', 'n']
  else if c = '\\' || c = mark then ['\\', c]
  else if isHidden c then
    '\\' :: 'u' :: '\x7b' :: (Nat.toDigits 16 c.toNat ++ ['\x7d'])
  else [c]

/-- A text between the given quotes. -/
def quoteBy (mark : Char) (t : Text) : Text := mark :: (t.flatMap (quoteChar mark) ++ [mark])

/-- A text between double quotes. -/
def quote (t : Text) : Text := quoteBy '"' t

/-- Texts separated by a comma and a blank. -/
def commaSeparated (ts : List Text) : Text := [',', ' '].intercalate ts

/-- A list of texts between brackets. -/
def bracketed (ts : List Text) : Text := '[' :: (commaSeparated ts ++ [']'])

end DataPipeline.Text
