import DataPipeline.Text.Basic

/-!
# Texts as bytes

The UTF-8 form of a text. An ASCII character is one byte, its own number, and
every other character is a head byte with continuation bytes behind it, all
outside the ASCII range. So a test for ASCII characters that is made on bytes
finds exactly these characters, and counting the bytes that continue no
character counts the characters.
-/

namespace DataPipeline.Text

/-- The bytes of a text in UTF-8. -/
def utf8 (t : Text) : List UInt8 := t.flatMap String.utf8EncodeChar

/-- Whether a byte continues a character. -/
def isContinuation (b : UInt8) : Bool := b &&& 0xC0 = 0x80

/-- The number of characters that start in the bytes. -/
def countChars (bytes : List UInt8) : Nat := (bytes.filter fun b => !isContinuation b).length

/-- A test for ASCII characters, made on a byte. -/
def onByte (p : Char → Bool) (b : UInt8) : Bool := b.toNat < 128 && p (Char.ofNat b.toNat)

/-- Continuation bytes are those from 128 to 191. -/
theorem isContinuation_iff (b : UInt8) :
    isContinuation b = true ↔ 128 ≤ b.toNat ∧ b.toNat < 192 := by
  have hall : ∀ n < 256, isContinuation (UInt8.ofNat n) = true ↔ 128 ≤ n ∧ n < 192 := by
    decide +kernel
  have h := hall b.toNat b.toNat_lt
  rwa [UInt8.ofNat_toNat] at h

/-- The empty text has no bytes. -/
theorem utf8_nil : utf8 [] = [] := rfl

/-- The bytes of a text begin with those of its first character. -/
theorem utf8_cons (c : Char) (t : Text) : utf8 (c :: t) = String.utf8EncodeChar c ++ utf8 t := rfl

/-- A single character has its own bytes. -/
theorem utf8_singleton (c : Char) : utf8 [c] = String.utf8EncodeChar c := List.flatMap_singleton _ c

/-- The bytes of two texts stand one after the other. -/
theorem utf8_append (t u : Text) : utf8 (t ++ u) = utf8 t ++ utf8 u := List.flatMap_append

/-- The size of a text is the number of its bytes. -/
theorem length_utf8 (t : Text) : (utf8 t).length = byteSize t := by
  induction t with
  | nil => rfl
  | cons c t ih =>
    rw [utf8_cons, List.length_append, String.length_utf8EncodeChar, ih]
    rfl

/-- The sizes of two texts add up. -/
theorem byteSize_append (t u : Text) : byteSize (t ++ u) = byteSize t + byteSize u := by
  rw [←length_utf8, utf8_append, List.length_append, length_utf8, length_utf8]

/-- An ASCII character is its number. -/
theorem utf8EncodeChar_ascii {c : Char} (h : c.toNat < 128) :
    String.utf8EncodeChar c = [UInt8.ofNat c.toNat] := by
  have hle : c.val.toNat ≤ 0x7f := by
    change c.toNat ≤ 0x7f
    omega
  rw [String.utf8EncodeChar]
  exact if_pos hle

/-- Any other character is a head byte with continuation bytes behind it. -/
theorem utf8EncodeChar_wide {c : Char} (h : 128 ≤ c.toNat) :
    ∃ b bytes, String.utf8EncodeChar c = b :: bytes ∧ 192 ≤ b.toNat ∧
      ∀ x ∈ bytes, 128 ≤ x.toNat ∧ x.toNat < 192 := by
  have htail : ∀ n, 128 ≤ (UInt8.ofNat (n % 0x40 + 0x80)).toNat ∧
      (UInt8.ofNat (n % 0x40 + 0x80)).toNat < 192 := by
    intro n
    rw [UInt8.toNat_ofNat']
    omega
  have hgt : ¬c.val.toNat ≤ 0x7f := by
    change ¬c.toNat ≤ 0x7f
    omega
  simp only [String.utf8EncodeChar, if_neg hgt]
  split
  · refine ⟨_, _, rfl, ?_, ?_⟩
    · rw [UInt8.toNat_ofNat']
      omega
    · simpa using htail _
  · split
    · refine ⟨_, _, rfl, ?_, ?_⟩
      · rw [UInt8.toNat_ofNat']
        omega
      · simpa using ⟨htail _, htail _⟩
    · refine ⟨_, _, rfl, ?_, ?_⟩
      · rw [UInt8.toNat_ofNat']
        omega
      · simpa using ⟨htail _, htail _, htail _⟩

/-- The characters of two runs of bytes add up. -/
theorem countChars_append (a b : List UInt8) :
    countChars (a ++ b) = countChars a + countChars b := by
  rw [countChars, countChars, countChars, List.filter_append, List.length_append]

/-- One character starts in the bytes of a character. -/
theorem countChars_utf8EncodeChar (c : Char) : countChars (String.utf8EncodeChar c) = 1 := by
  by_cases h : c.toNat < 128
  · have hn : (UInt8.ofNat c.toNat).toNat = c.toNat := by
      rw [UInt8.toNat_ofNat']
      omega
    have hhead : isContinuation (UInt8.ofNat c.toNat) = false := by
      rw [Bool.eq_false_iff, Ne, isContinuation_iff, hn]
      omega
    rw [utf8EncodeChar_ascii h, countChars, List.filter_cons_of_pos (by rw [hhead]; rfl)]
    rfl
  · obtain ⟨b, bytes, henc, hb, htail⟩ := utf8EncodeChar_wide (Nat.le_of_not_lt h)
    have hhead : isContinuation b = false := by
      rw [Bool.eq_false_iff, Ne, isContinuation_iff]
      omega
    have hnone : bytes.filter (fun x => !isContinuation x) = [] := by
      rw [List.filter_eq_nil_iff]
      intro x hx
      rw [isContinuation_iff x |>.mpr (htail x hx)]
      exact Bool.false_ne_true
    rw [henc, countChars, List.filter_cons_of_pos (by rw [hhead]; rfl), hnone]
    rfl

/-- Counting the bytes that continue no character counts the characters. -/
theorem countChars_utf8 (t : Text) : countChars (utf8 t) = t.length := by
  induction t with
  | nil => rfl
  | cons c t ih =>
    rw [utf8_cons, countChars_append, countChars_utf8EncodeChar, ih, List.length_cons]
    omega

section Reads

/-- A test on bytes reads a test on characters when it answers the same on
every byte of a character. -/
def Reads (q : UInt8 → Bool) (p : Char → Bool) : Prop :=
  ∀ c, ∀ b ∈ String.utf8EncodeChar c, q b = p c

/-- A test that only ASCII characters pass. -/
def IsAscii (p : Char → Bool) : Prop := ∀ c, p c = true → c.toNat < 128

variable {q : UInt8 → Bool} {p : Char → Bool}

/-- A test for ASCII characters can be made on the bytes. -/
theorem reads_onByte (h : IsAscii p) : Reads (onByte p) p := by
  intro c b hb
  by_cases hc : c.toNat < 128
  · rw [utf8EncodeChar_ascii hc, List.mem_singleton] at hb
    have hn : b.toNat = c.toNat := by
      rw [hb, UInt8.toNat_ofNat']
      omega
    rw [onByte, hn, decide_eq_true hc, Bool.true_and, Char.ofNat_toNat]
  · obtain ⟨head, tail, henc, hhead, htail⟩ := utf8EncodeChar_wide (Nat.le_of_not_lt hc)
    have hwide : ¬b.toNat < 128 := by
      rw [henc] at hb
      rcases List.mem_cons.mp hb with rfl | hb
      · omega
      · have := htail b hb
        omega
    have hfail : p c = false := Bool.eq_false_iff.mpr fun hp => hc (h c hp)
    rw [onByte, decide_eq_false hwide, Bool.false_and, hfail]

theorem Reads.not (h : Reads q p) : Reads (fun b => !q b) (fun c => !p c) :=
  fun c b hb => congrArg (!·) (h c b hb)

theorem utf8EncodeChar_ne_nil (c : Char) : String.utf8EncodeChar c ≠ [] := by
  rw [←List.length_pos_iff, String.length_utf8EncodeChar]
  exact c.utf8Size_pos

/-- The first byte answers for the first character. -/
theorem head?_utf8 (h : Reads q p) (t : Text) : (utf8 t).head?.any q = t.head?.any p := by
  cases t with
  | nil => rfl
  | cons c t =>
    obtain ⟨b, bytes, henc⟩ := List.exists_cons_of_ne_nil (utf8EncodeChar_ne_nil c)
    rw [utf8_cons, henc]
    exact h c b (henc ▸ List.mem_cons_self)

/-- A scan of bytes stops where the scan of characters does. -/
theorem takeWhile_utf8 (h : Reads q p) (t : Text) :
    (utf8 t).takeWhile q = utf8 (t.takeWhile p) := by
  induction t with
  | nil => rfl
  | cons c t ih =>
    cases hc : p c with
    | true =>
      have hall : ∀ b ∈ String.utf8EncodeChar c, q b = true := fun b hb => (h c b hb).trans hc
      rw [utf8_cons, List.takeWhile_append_of_pos hall, ih, List.takeWhile_cons_of_pos hc,
        utf8_cons]
    | false =>
      obtain ⟨b, bytes, henc⟩ := List.exists_cons_of_ne_nil (utf8EncodeChar_ne_nil c)
      have hb : q b = false := (h c b (henc ▸ List.mem_cons_self)).trans hc
      rw [utf8_cons, henc, List.cons_append, List.takeWhile_cons_of_neg (by rw [hb]; decide),
        List.takeWhile_cons_of_neg (by rw [hc]; decide), utf8_nil]

end Reads

section Cuts

/-- The text before and behind a byte position. There is no answer inside a
character or behind the end. -/
def splitAtByte? : (index : Nat) → Text → Option (Text × Text)
  | 0, t => some ([], t)
  | _ + 1, [] => none
  | n + 1, c :: t =>
    if c.utf8Size ≤ n + 1 then
      (splitAtByte? (n + 1 - c.utf8Size) t).map fun (front, back) => (c :: front, back)
    else none

/-- The text between two byte positions. -/
def textBetween? (t : Text) (start stop : Nat) : Option Text := do
  let (front, _) ← splitAtByte? stop t
  let (_, part) ← splitAtByte? start front
  return part

/-- The bytes between two positions. -/
def bytesBetween? (bytes : List UInt8) (start stop : Nat) : Option (List UInt8) :=
  if start ≤ stop ∧ stop ≤ bytes.length then some ((bytes.take stop).drop start) else none

theorem byteSize_cons (c : Char) (t : Text) : byteSize (c :: t) = c.utf8Size + byteSize t := rfl

/-- A text splits at a byte exactly where a part of that size ends. -/
theorem splitAtByte?_eq_some_iff {index : Nat} {t front back : Text} :
    splitAtByte? index t = some (front, back) ↔ t = front ++ back ∧ byteSize front = index := by
  induction t generalizing index front with
  | nil =>
    cases index with
    | zero => cases front <;> simp [splitAtByte?, byteSize, eq_comm]
    | succ n => cases front <;> simp [splitAtByte?, byteSize]
  | cons c t ih =>
    have hpos := c.utf8Size_pos
    cases index with
    | zero =>
      cases front with
      | nil => simp [splitAtByte?, byteSize, eq_comm]
      | cons a front =>
        have hsize := a.utf8Size_pos
        have hne : byteSize (a :: front) ≠ 0 := by
          rw [byteSize_cons]
          omega
        simp [splitAtByte?, hne]
    | succ n =>
      cases front with
      | nil =>
        have hne : byteSize [] ≠ n + 1 := by
          rw [show byteSize [] = 0 from rfl]
          omega
        rw [splitAtByte?]
        split <;> simp [hne]
      | cons a front =>
        rw [splitAtByte?, byteSize_cons]
        split
        · next hle =>
          simp only [Option.map_eq_some_iff, Prod.exists, Prod.mk.injEq, List.cons.injEq,
            List.cons_append]
          constructor
          · rintro ⟨x, y, hxy, ⟨rfl, rfl⟩, rfl⟩
            obtain ⟨ht, hx⟩ := ih.mp hxy
            exact ⟨⟨rfl, ht⟩, by omega⟩
          · rintro ⟨⟨rfl, ht⟩, hx⟩
            exact ⟨front, back, ih.mpr ⟨ht, by omega⟩, ⟨rfl, rfl⟩, rfl⟩
        · next hgt =>
          simp only [List.cons_append, List.cons.injEq, reduceCtorEq, false_iff, not_and]
          rintro ⟨rfl, -⟩
          omega

/-- A part of a text lies between its byte positions. -/
theorem textBetween?_append (front part back : Text) :
    textBetween? (front ++ part ++ back) (byteSize front) (byteSize (front ++ part)) =
      some part := by
  have hstop : splitAtByte? (byteSize (front ++ part)) (front ++ part ++ back) =
      some (front ++ part, back) := splitAtByte?_eq_some_iff.mpr ⟨rfl, rfl⟩
  have hstart : splitAtByte? (byteSize front) (front ++ part) = some (front, part) :=
    splitAtByte?_eq_some_iff.mpr ⟨rfl, rfl⟩
  rw [textBetween?, hstop]
  change (splitAtByte? (byteSize front) (front ++ part)).bind _ = _
  rw [hstart]
  rfl

/-- The bytes of a part of a text lie between its byte positions. -/
theorem bytesBetween?_append (front part back : Text) :
    bytesBetween? (utf8 (front ++ part ++ back)) (byteSize front) (byteSize (front ++ part)) =
      some (utf8 part) := by
  have hbounds : byteSize front ≤ byteSize (front ++ part) ∧
      byteSize (front ++ part) ≤ (utf8 (front ++ part ++ back)).length := by
    rw [length_utf8, byteSize_append (front ++ part), byteSize_append front]
    omega
  rw [bytesBetween?, if_pos hbounds, utf8_append, ←length_utf8 (front ++ part), List.take_left,
    utf8_append, ←length_utf8 front, List.drop_left]

end Cuts

end DataPipeline.Text
