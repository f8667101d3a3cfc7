import DataPipeline.Proofs.Numeric.LiteralForm
import DataPipeline.Proofs.Numeric.NearestNumber

/-!
# Decimal literals of floating point numbers

A decimal literal is a sign or none, digits with at most one point before, among
or behind them, and an exponent or none. It spells a sign and a number, and is
read in every format as the number that this is rounded to, or as an infinity if
that is not finite.
-/

namespace DataPipeline.Numeric

open Text

/-- The exponents of literals: none, or an integer in digits behind its mark. -/
inductive SpellsExponent : Text → Int → Prop
  | none : SpellsExponent [] 0
  | marked {mark : Char} {sign digits : Text} {negative : Bool} {values : List Nat}
      (letter : mark = 'e' ∨ mark = 'E') (isSign : IsSign sign negative)
      (digits_ne_nil : digits ≠ []) (areDigits : List.Forall₂ (IsDigit 10) digits values) :
      SpellsExponent (mark :: (sign ++ digits))
        (Decimal.signed negative (Nat.ofDigits 10 values.reverse))

/-- What stands behind the digits before the point: a point and more digits, or no
point. -/
inductive IsFraction : Text → Text → Prop
  | none : IsFraction [] []
  | point (digits : Text) : IsFraction ('.' :: digits) digits

/-- A decimal literal spells whether it has a minus sign and the number behind the
sign. At least one digit stands before or behind the point. -/
inductive SpellsDecimal (t : Text) (negative : Bool) (x : ℚ) : Prop
  | intro {sign whole pointed fraction exponent : Text} {values : List Nat} {n : Int}
      (isSign : IsSign sign negative) (isFraction : IsFraction pointed fraction)
      (digits_ne_nil : whole ++ fraction ≠ [])
      (areDigits : List.Forall₂ (IsDigit 10) (whole ++ fraction) values)
      (spellsExponent : SpellsExponent exponent n)
      (text : t = sign ++ (whole ++ (pointed ++ exponent)))
      (value : x = (Nat.ofDigits 10 values.reverse : Nat) * 10 ^ (n - fraction.length))

section Parts

variable {t : Text} {values : List Nat}

theorem isDigit_of_digitValue_lt {c : Char} (h : digitValue c < 10) : c.isDigit = true := by
  by_contra hdigit
  rw [digitValue, if_neg hdigit] at h
  split at h
  · omega
  · split at h <;> omega

theorem toLower_of_isDigit {c : Char} (h : c.isDigit = true) : c.toLower = c := by
  simp only [Char.isDigit, Bool.and_eq_true, decide_eq_true_eq] at h
  have hle : c.toNat ≤ 57 := h.2
  refine dif_neg ?_
  rintro ⟨hge, -⟩
  have hge : 65 ≤ c.toNat := hge
  omega

/-- Digits of base ten are decimal digits, and their number is the one that they
denote by their places. -/
theorem digits_of_forall₂ (h : List.Forall₂ (IsDigit 10) t values) (hne : t ≠ []) :
    (∀ c ∈ t, c.isDigit = true) ∧ natural? 10 t = some (Nat.ofDigits 10 values.reverse) ∧
      ofDigits 10 t = Nat.ofDigits 10 values.reverse := by
  have hdigits : ∀ c ∈ t, c.isDigit = true := fun c hc =>
    isDigit_of_digitValue_lt (((forall₂_isDigit_iff (by decide)).mp h).1 c hc)
  have hread : natural? 10 t = some (Nat.ofDigits 10 values.reverse) :=
    (natural?_eq_some_iff (by decide)).mpr ⟨hne, values, h, rfl⟩
  refine ⟨hdigits, hread, Option.some.inj ?_⟩
  rw [←hread, natural?_of_digits hdigits hne]

/-- Decimal digits are digits of base ten, which denote their number. -/
theorem exists_forall₂_isDigit (h : ∀ c ∈ t, c.isDigit = true) (hne : t ≠ []) :
    ∃ values, List.Forall₂ (IsDigit 10) t values ∧ ofDigits 10 t = Nat.ofDigits 10 values.reverse :=
  have hvalues := (forall₂_isDigit_iff (by decide)).mpr
    ⟨fun c hc => digitValue_lt_ten (h c hc), rfl⟩
  ⟨_, hvalues, (digits_of_forall₂ hvalues hne).2.2⟩

/-- The integer of an exponent is read behind its mark. -/
theorem SpellsExponent.read {n : Int} (h : SpellsExponent t n) :
    t = [] ∧ n = 0 ∨
      ∃ mark rest, t = mark :: rest ∧ (mark = 'e' ∨ mark = 'E') ∧ signedDigits? rest = some n := by
  cases h with
  | none => exact .inl ⟨rfl, rfl⟩
  | @marked mark sign digits negative values letter isSign digits_ne_nil areDigits =>
    obtain ⟨hdigits, hread, -⟩ := digits_of_forall₂ areDigits digits_ne_nil
    have hhead : ∀ c ∈ digits.head?, c ≠ '-' ∧ c ≠ '+' := fun c hc =>
      have hc := hdigits c (List.mem_of_mem_head? hc)
      ⟨ne_of_isDigit hc rfl, ne_of_isDigit hc rfl⟩
    refine .inr ⟨mark, sign ++ digits, rfl, letter, ?_⟩
    rw [signedDigits?, cutSign_append isSign hhead]
    simp only [hread]
    rfl

theorem SpellsExponent.not_isDigit_head {n : Int} (h : SpellsExponent t n) :
    ∀ c ∈ t.head?, c.isDigit = false := by
  intro c hc
  rcases h.read with ⟨rfl, -⟩ | ⟨mark, rest, rfl, rfl | rfl, -⟩
  · cases hc
  · cases hc
    rfl
  · cases hc
    rfl

end Parts

section Literals

variable {whole pointed fraction exponent : Text} {values : List Nat} {n : Int}

/-- The digits, the point and the exponent are taken apart again. -/
theorem decimalMagnitude?_append (isFraction : IsFraction pointed fraction)
    (hne : whole ++ fraction ≠ [])
    (areDigits : List.Forall₂ (IsDigit 10) (whole ++ fraction) values)
    (spellsExponent : SpellsExponent exponent n) :
    decimalMagnitude? (whole ++ (pointed ++ exponent)) =
      some (.decimal (Nat.ofDigits 10 values.reverse) (n - fraction.length)) := by
  obtain ⟨hdigits, -, hvalue⟩ := digits_of_forall₂ areDigits hne
  have hwhole : ∀ c ∈ whole, c.isDigit = true := fun c hc => hdigits c (List.mem_append_left _ hc)
  have hfraction : ∀ c ∈ fraction, c.isDigit = true := fun c hc =>
    hdigits c (List.mem_append_right _ hc)
  have hexponent := spellsExponent.not_isDigit_head
  have hpointed : ∀ c ∈ (pointed ++ exponent).head?, c.isDigit = false := by
    cases isFraction with
    | none => exact hexponent
    | point digits =>
      intro c hc
      cases hc
      rfl
  have hcut := (cut_digits hwhole hpointed).1
  have hcutFraction := (cut_digits hfraction hexponent).1
  have hsome : ¬(whole = [] ∧ fraction = []) := by simpa using hne
  rw [decimalMagnitude?]
  simp only [hcut, List.drop_left]
  cases isFraction with
  | none =>
    rw [List.append_nil] at hvalue hne
    rcases spellsExponent.read with ⟨rfl, rfl⟩ | ⟨mark, rest, rfl, rfl | rfl, hread⟩
    · simp [hne, hvalue]
    · simp [hne, hvalue, hread]
    · simp [hne, hvalue, hread]
  | point =>
    simp only [List.cons_append, hcutFraction, List.drop_left]
    rcases spellsExponent.read with ⟨rfl, rfl⟩ | ⟨mark, rest, rfl, rfl | rfl, hread⟩
    · simp [hsome, hvalue]
    · simp [hsome, hvalue, hread]
    · simp [hsome, hvalue, hread]

/-- A decimal literal without its sign begins with a digit or a point. -/
theorem head_of_digits (isFraction : IsFraction pointed fraction) (hne : whole ++ fraction ≠ [])
    (areDigits : List.Forall₂ (IsDigit 10) (whole ++ fraction) values) (rest : Text) :
    ∃ c t, whole ++ (pointed ++ rest) = c :: t ∧ (c.isDigit = true ∨ c = '.') := by
  obtain ⟨hdigits, -⟩ := digits_of_forall₂ areDigits hne
  cases whole with
  | cons c whole => exact ⟨c, _, rfl, .inl (hdigits c List.mem_cons_self)⟩
  | nil =>
    cases isFraction with
    | none => exact absurd rfl hne
    | point digits => exact ⟨'.', _, rfl, .inr rfl⟩

/-- What begins with a digit or a point is no name of infinity or NaN. -/
theorem magnitude?_cons {c : Char} (hc : c.isDigit = true ∨ c = '.') (t : Text) :
    magnitude? (c :: t) = decimalMagnitude? (c :: t) := by
  have hlower : c.toLower = c := by
    rcases hc with hc | rfl
    · exact toLower_of_isDigit hc
    · rfl
  have hne : ∀ letter : Char, letter.isDigit = false → letter ≠ '.' → c ≠ letter := by
    rintro letter hletter hpoint rfl
    exact hc.elim (fun hc => Bool.false_ne_true (hletter.symm.trans hc)) hpoint
  rw [magnitude?, asciiLower, List.map_cons, hlower, if_neg, if_neg]
  · rintro (h | h) <;> exact hne 'i' rfl (by decide) (List.cons.inj h).1
  · exact fun h => hne 'n' rfl (by decide) (List.cons.inj h).1

end Literals

section Writing

variable {sign whole pointed fraction exponent digits : Text} {negative : Bool} {n : Int}

/-- An integer in digits behind its mark is an exponent. -/
theorem spellsExponent_of_digits {mark : Char} (letter : mark = 'e' ∨ mark = 'E')
    (isSign : IsSign sign negative) (hne : digits ≠ []) (h : ∀ c ∈ digits, c.isDigit = true) :
    SpellsExponent (mark :: (sign ++ digits)) (Decimal.signed negative (ofDigits 10 digits)) := by
  obtain ⟨values, hvalues, heq⟩ := exists_forall₂_isDigit h hne
  rw [heq]
  exact .marked letter isSign hne hvalues

/-- Digits with a sign, a point and an exponent are a decimal literal. -/
theorem spellsDecimal_of_digits (isSign : IsSign sign negative)
    (isFraction : IsFraction pointed fraction) (hne : whole ++ fraction ≠ [])
    (h : ∀ c ∈ whole ++ fraction, c.isDigit = true) (spellsExponent : SpellsExponent exponent n) :
    SpellsDecimal (sign ++ (whole ++ (pointed ++ exponent))) negative
      (ofDigits 10 (whole ++ fraction) * 10 ^ (n - fraction.length)) := by
  obtain ⟨values, hvalues, heq⟩ := exists_forall₂_isDigit h hne
  exact .intro isSign isFraction hne hvalues spellsExponent rfl (by rw [heq])

end Writing

section Reading

variable {f : Format} {t : Text} {negative : Bool} {x : ℚ}

/-- A decimal literal is read as the number that its number is rounded to. -/
theorem SpellsDecimal.read (hf : f.HasFraction) (h : SpellsDecimal t negative x) :
    ∃ n, f.RoundsTo x n ∧
      (Binary.ofText? t : Option (Binary f)) = some (.ofPattern negative n) := by
  obtain ⟨isSign, isFraction, hne, areDigits, spellsExponent, rfl, rfl⟩ := h
  rename_i exponent _ _
  obtain ⟨c, rest, htext, hc⟩ := head_of_digits isFraction hne areDigits exponent
  have hmagnitude := decimalMagnitude?_append isFraction hne areDigits spellsExponent
  have hhead : ∀ c' ∈ (c :: rest).head?, c' ≠ '-' ∧ c' ≠ '+' := by
    intro c' hc'
    cases hc'
    rcases hc with hc | rfl
    · exact ⟨ne_of_isDigit hc rfl, ne_of_isDigit hc rfl⟩
    · decide
  rw [htext] at hmagnitude ⊢
  rw [Binary.ofText?, cutSign_append isSign hhead]
  simp only [magnitude?_cons hc, hmagnitude, Option.map_some]
  obtain ⟨n, hround, heq⟩ := Binary.exists_ofDecimal hf negative _ _
  exact ⟨n, hround, congrArg some heq⟩

/-- There are no blanks in a decimal literal. -/
theorem SpellsDecimal.isTrimmed (h : SpellsDecimal t negative x) : IsTrimmed t := by
  obtain ⟨isSign, isFraction, hne, areDigits, spellsExponent, rfl, rfl⟩ := h
  obtain ⟨hdigits, -⟩ := digits_of_forall₂ areDigits hne
  have hsign : ∀ {sign : Text} {b : Bool}, IsSign sign b → ∀ c ∈ sign, isBlank c = false := by
    rintro sign b (_ | _ | _) <;> simp [isBlank]
  refine isTrimmed_of_forall fun c hc => ?_
  rcases List.mem_append.mp hc with hc | hc
  · exact hsign isSign c hc
  rcases List.mem_append.mp hc with hc | hc
  · exact isBlank_of_isDigit (hdigits c (List.mem_append_left _ hc))
  rcases List.mem_append.mp hc with hc | hc
  · cases isFraction with
    | none => cases hc
    | point digits =>
      rcases List.mem_cons.mp hc with rfl | hc
      · rfl
      · exact isBlank_of_isDigit (hdigits c (List.mem_append_right _ hc))
  · cases spellsExponent with
    | none => cases hc
    | marked letter isSign digits_ne_nil areDigits =>
      rcases List.mem_cons.mp hc with rfl | hc
      · rcases letter with rfl | rfl <;> rfl
      rcases List.mem_append.mp hc with hc | hc
      · exact hsign isSign c hc
      · exact isBlank_of_isDigit ((digits_of_forall₂ areDigits digits_ne_nil).1 c hc)

end Reading

end DataPipeline.Numeric
