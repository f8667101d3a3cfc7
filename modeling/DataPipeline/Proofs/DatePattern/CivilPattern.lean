import DataPipeline.Proofs.DatePattern.NumberItem
import DataPipeline.Proofs.Text.Utf8
import Mathlib.Logic.Function.Basic

/-!
# Patterns of characters and numbers

A pattern of single characters and of the numbers of a date and a time of day.
Runs of characters are one item of the pattern, but they match as their
characters do one by one, so a pattern is read piece by piece. What it finds in
a text is one number for each of its fields, and these are the fields that the
reader collects.
-/

namespace DataPipeline.DatePattern

open Numeric Text

/-- A number of a date or of a time of day. -/
inductive CivilField
  | year
  | month
  | day
  | hour
  | minute
  | second
  deriving DecidableEq

namespace CivilField

/-- The number item of a field. -/
def number : CivilField → NumberField
  | year => .year
  | month => .month
  | day => .day
  | hour => .hour
  | minute => .minute
  | second => .second

/-- The letter of a field in a pattern. -/
def letter : CivilField → Char
  | year => 'Y'
  | month => 'm'
  | day => 'd'
  | hour => 'H'
  | minute => 'M'
  | second => 'S'

/-- The least number of a field. -/
def least : CivilField → Int
  | year => -2147483648
  | month | day => 1
  | hour | minute | second => 0

/-- The greatest number of a field; a minute with a leap second has a second 60. -/
def greatest : CivilField → Int
  | year => 2147483647
  | month => 12
  | day => 31
  | hour => 23
  | minute => 59
  | second => 60

/-- The numbers that a field can have. -/
def Admits (field : CivilField) (n : Int) : Prop := field.least ≤ n ∧ n ≤ field.greatest

instance (field : CivilField) (n : Int) : Decidable (field.Admits n) :=
  inferInstanceAs (Decidable (field.least ≤ n ∧ n ≤ field.greatest))

theorem Admits.fitsSigned {field : CivilField} {n : Int} (h : field.Admits n) :
    fitsSigned 64 n.natAbs = true := by
  have hbounds : -2147483648 ≤ n ∧ n ≤ 2147483647 := by
    cases field <;> simp only [Admits, least, greatest] at h <;> omega
  exact fitsSigned_natCast (by omega)

end CivilField

/-- A piece of a pattern: a character that stands for itself, or a number. -/
inductive Piece
  | char (c : Char)
  | number (field : CivilField)

namespace Piece

/-- How a piece is written; a percent sign is doubled. -/
def text : Piece → Text
  | char c => if c = '%' then ['%', '%'] else [c]
  | number field => ['%', field.letter]

/-- The field of a piece. -/
def field? : Piece → Option CivilField
  | char _ => none
  | number field => some field

end Piece

/-- How pieces are written. -/
def patternText (pieces : List Piece) : Text := pieces.flatMap Piece.text

theorem patternText_cons_append (piece : Piece) (pieces : List Piece) (t : Text) :
    patternText (piece :: pieces) ++ t = piece.text ++ (patternText pieces ++ t) := by
  rw [patternText, List.flatMap_cons, List.append_assoc, ←patternText]

/-- The fields of pieces. -/
def patternFields (pieces : List Piece) : List CivilField := pieces.filterMap Piece.field?

/-- The item of a run of characters, all of them blanks or none. -/
def runItem (c : Char) (run : Text) : Item :=
  if isBlank c then .blanks (c :: run) else .literal (c :: run)

/-- The item of a piece on its own. -/
def Piece.item : Piece → Item
  | char c => runItem c []
  | number field => .zeros field.number

section Items

variable {c : Char} {t : Text}

/-- Whether a character goes on with a run. -/
def joins (c d : Char) : Bool := isBlank d = isBlank c && d ≠ '%'

theorem items_nil : items [] = [] := by rw [items]

/-- A run of characters is one item. -/
theorem items_run (hc : c ≠ '%') (t : Text) :
    items (c :: t) = runItem c (t.takeWhile (joins c)) :: items (t.dropWhile (joins c)) := by
  rw [items, if_neg hc, runItem]
  cases hblank : isBlank c with
  | true =>
    have hjoins : joins c = isBlank := by
      funext d
      rw [joins, hblank]
      cases hd : isBlank d with
      | false => rfl
      | true =>
        have hne : d ≠ '%' := by
          rintro rfl
          cases hd
        simp [hne]
    rw [if_pos rfl, if_pos rfl, hjoins, ←drop_length_takeWhile]
  | false =>
    have hjoins : joins c = fun d => !(isBlank d || d = '%') := by
      funext d
      rw [joins, hblank]
      cases isBlank d <;> simp
    rw [if_neg Bool.false_ne_true, if_neg Bool.false_ne_true, hjoins, ←drop_length_takeWhile]

/-- The items of a pattern with one more character in front: this character has
its own item or belongs to the first one. -/
theorem items_char (hc : c ≠ '%') (t : Text) :
    items (c :: t) = runItem c [] :: items t ∨
      ∃ d run rest, isBlank d = isBlank c ∧ items t = runItem d run :: rest ∧
        items (c :: t) = runItem c (d :: run) :: rest := by
  rw [items_run hc]
  cases t with
  | nil => exact .inl rfl
  | cons d t =>
    cases hd : joins c d with
    | false =>
      rw [List.takeWhile_cons_of_neg (by simp [hd]), List.dropWhile_cons_of_neg (by simp [hd])]
      exact .inl rfl
    | true =>
      obtain ⟨hblank, hne⟩ := (Bool.and_eq_true _ _).mp hd
      have hjoins : joins d = joins c := by
        funext x
        rw [joins, joins, of_decide_eq_true hblank]
      rw [List.takeWhile_cons_of_pos hd, List.dropWhile_cons_of_pos hd]
      refine .inr ⟨d, _, _, of_decide_eq_true hblank, ?_, rfl⟩
      rw [items_run (of_decide_eq_true hne), hjoins]

/-- A letter behind a percent sign is the number of its field. -/
theorem items_letter (field : CivilField) (t : Text) :
    items ('%' :: field.letter :: t) = .zeros field.number :: items t := by
  rw [items, if_pos rfl]
  cases field <;> rfl

/-- A doubled percent sign stands for itself. -/
theorem items_percent (t : Text) : items ('%' :: '%' :: t) = runItem '%' [] :: items t := by
  rw [items, if_pos rfl]
  rfl

end Items

section Reading

variable {f f' : Fields} {t rest : Text} {s s' : Fields × Text}

/-- A literal is read exactly if the text begins with it. -/
theorem takeLiteral_eq_ok_iff {literal : Text} :
    takeLiteral literal t = .ok rest ↔ t = literal ++ rest := by
  rw [takeLiteral]
  constructor
  · intro h
    split_ifs at h with hshort
    cases hdrop : dropStart? literal t with
    | none =>
      rw [hdrop] at h
      cases h
    | some rest' =>
      rw [hdrop] at h
      cases h
      exact dropStart?_eq_some_iff.mp hdrop
  · rintro rfl
    rw [if_neg (by rw [byteSize_append]; omega), dropStart?_eq_some_iff.mpr rfl]
    rfl

/-- Blanks skip blanks; other characters are read off the text. -/
theorem takeAnyItem_runItem_eq_ok_iff {c : Char} {run : Text} :
    takeAnyItem (f, t) (runItem c run) = .ok s' ↔
      if isBlank c then s' = (f, trimStart t)
      else ∃ rest, t = c :: run ++ rest ∧ s' = (f, rest) := by
  rw [runItem]
  split
  · exact ⟨fun h => by cases h; rfl, fun h => by rw [h]; rfl⟩
  · change (takeLiteral (c :: run) t >>= fun rest => pure (f, rest)) = .ok s' ↔ _
    rw [Except.bind_eq_ok_iff]
    refine exists_congr fun rest => ?_
    rw [takeLiteral_eq_ok_iff]
    exact and_congr_right fun _ => ⟨fun h => by cases h; rfl, fun h => by rw [h]; rfl⟩

/-- A run matches as its first character and the rest of it do. -/
theorem takeAnyItem_run_cons {c d : Char} {run : Text} (h : isBlank d = isBlank c) :
    takeAnyItem s (runItem c (d :: run)) = .ok s' ↔
      ∃ s₁, takeAnyItem s (runItem c []) = .ok s₁ ∧ takeAnyItem s₁ (runItem d run) = .ok s' := by
  obtain ⟨f, t⟩ := s
  simp only [takeAnyItem_runItem_eq_ok_iff]
  cases hc : isBlank c with
  | true =>
    simp only [if_true, exists_eq_left, takeAnyItem_runItem_eq_ok_iff, h, hc, trimStart_trimStart]
  | false =>
    simp only [Bool.false_eq_true, if_false]
    constructor
    · rintro ⟨rest, rfl, rfl⟩
      refine ⟨(f, d :: run ++ rest), ⟨_, rfl, rfl⟩, ?_⟩
      rw [takeAnyItem_runItem_eq_ok_iff, h, hc]
      exact ⟨rest, rfl, rfl⟩
    · rintro ⟨s₁, ⟨rest₁, rfl, rfl⟩, hrun⟩
      rw [takeAnyItem_runItem_eq_ok_iff, h, hc] at hrun
      obtain ⟨rest, rfl, rfl⟩ := hrun
      exact ⟨rest, rfl, rfl⟩

/-- A pattern reads a text as its first piece and the rest of it do. -/
theorem foldlM_items_piece (piece : Piece) (t : Text) :
    (items (piece.text ++ t)).foldlM takeAnyItem s = .ok s' ↔
      ∃ s₁, takeAnyItem s piece.item = .ok s₁ ∧ (items t).foldlM takeAnyItem s₁ = .ok s' := by
  cases piece with
  | number field =>
    rw [Piece.text, List.cons_append, List.cons_append, List.nil_append, items_letter,
      List.foldlM_cons, Except.bind_eq_ok_iff]
    rfl
  | char c =>
    rw [Piece.text, Piece.item]
    split
    case isTrue hc =>
      subst hc
      rw [List.cons_append, List.cons_append, List.nil_append, items_percent, List.foldlM_cons,
        Except.bind_eq_ok_iff]
    case isFalse hc =>
      rw [List.cons_append, List.nil_append]
      rcases items_char hc t with hitems | ⟨d, run, rest, hd, ht, hitems⟩
      · rw [hitems, List.foldlM_cons, Except.bind_eq_ok_iff]
      · rw [hitems, ht, List.foldlM_cons, Except.bind_eq_ok_iff]
        simp only [takeAnyItem_run_cons hd, List.foldlM_cons, Except.bind_eq_ok_iff]
        constructor
        · rintro ⟨s₂, ⟨s₁, hchar, hrun⟩, hrest⟩
          exact ⟨s₁, hchar, s₂, hrun, hrest⟩
        · rintro ⟨s₁, hchar, s₂, hrun, hrest⟩
          exact ⟨s₂, ⟨s₁, hchar, hrun⟩, hrest⟩

end Reading

end DataPipeline.DatePattern
