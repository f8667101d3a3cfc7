/-!
# Texts and their blanks

A text is the list of its characters, so a position in a text is a number of
characters and every cut falls between two of them. Two classes of blanks are
used: the ASCII blanks that separate the parts of a pipeline definition, and
the Unicode blanks that are trimmed from values and expressions.
-/

namespace DataPipeline

/-- A text is the list of its characters. -/
abbrev Text := List Char

/-- Comparing texts character by character decides their equality. -/
instance : LawfulBEq Text := inferInstanceAs (LawfulBEq (List Char))

namespace Text

/-- The blanks of the ASCII range: space, tab, line feed, form feed and
carriage return. The vertical tab is not one of them. -/
def isAsciiBlank (c : Char) : Bool :=
  c = ' ' || c = '\t' || c = '\n' || c = '\x0c' || c = '\r'

/-- The characters with the Unicode property White_Space. -/
def isBlank (c : Char) : Bool :=
  let n := c.toNat
  (9 ≤ n && n ≤ 13) || n = 0x20 || n = 0x85 || n = 0xA0 || n = 0x1680 ||
    (0x2000 ≤ n && n ≤ 0x200A) || n = 0x2028 || n = 0x2029 || n = 0x202F ||
    n = 0x205F || n = 0x3000

/-- Every ASCII blank has the property White_Space. -/
theorem isBlank_of_isAsciiBlank {c : Char} (h : isAsciiBlank c = true) :
    isBlank c = true := by
  simp only [isAsciiBlank, Bool.or_eq_true, decide_eq_true_eq] at h
  rcases h with (((rfl | rfl) | rfl) | rfl) | rfl <;> decide

/-- The text without its leading blanks. -/
def trimStart (t : Text) : Text := t.dropWhile isBlank

/-- The text without its trailing blanks. -/
def trimEnd (t : Text) : Text := (t.reverse.dropWhile isBlank).reverse

/-- The text without blanks at either end. -/
def trim (t : Text) : Text := trimEnd (trimStart t)

/-- A text is blank when nothing is left of it after trimming. -/
def isAllBlank (t : Text) : Bool := t.all isBlank

/-- Size of the UTF-8 form of a text in bytes. -/
def byteSize (t : Text) : Nat := t.foldr (fun c size => c.utf8Size + size) 0

/-- The rest of a text that starts with the given beginning. -/
def dropStart? : (start : Text) → Text → Option Text
  | [], t => some t
  | _ :: _, [] => none
  | a :: start, c :: t => if a = c then dropStart? start t else none

/-- The beginning of a text that stops with the given ending. -/
def dropEnd? (ending t : Text) : Option Text :=
  (dropStart? ending.reverse t.reverse).map List.reverse

theorem dropStart?_eq_some_iff {start t rest : Text} :
    dropStart? start t = some rest ↔ t = start ++ rest := by
  induction start generalizing t with
  | nil => simp [dropStart?]
  | cons a start ih =>
    cases t with
    | nil => simp [dropStart?]
    | cons c t =>
      by_cases h : a = c
      · subst h; simp [dropStart?, ih]
      · simp [dropStart?, h, Ne.symm h]

/-- Lower case of the letters `A` to `Z`; other characters stay. -/
def asciiLower (t : Text) : Text := t.map Char.toLower

/-- The single character of a text of length one. -/
def single? : Text → Option Char
  | [c] => some c
  | _ => none

end Text

end DataPipeline
