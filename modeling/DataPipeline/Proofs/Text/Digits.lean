import DataPipeline.Text.Digits

/-!
# Digits of numbers

A number is written in decimal digits, at least one and none of them a zero in
front, and is read back from them.
-/

namespace DataPipeline.Text

theorem ofNat_ne_nil (n : Nat) : ofNat n ≠ [] := Nat.toDigits_ne_nil

theorem isDigit_of_mem_ofNat {n : Nat} {c : Char} (h : c ∈ ofNat n) : c.isDigit = true :=
  Nat.isDigit_of_mem_toDigits (by decide) (by decide) h

/-- Only zero has a leading zero. -/
theorem eq_zero_of_ofNat_eq {n : Nat} {t : Text} (h : ofNat n = '0' :: t) : n = 0 ∧ t = [] := by
  induction n using Nat.strongRecOn generalizing t with
  | ind n ih =>
    by_cases hlt : n < 10
    · rw [ofNat, Nat.toDigits_of_lt_base hlt] at h
      obtain ⟨hdigit, rfl⟩ := List.cons.inj h
      exact ⟨Nat.digitChar_eq_zero.mp hdigit, rfl⟩
    · rw [ofNat, Nat.toDigits_of_base_le (by decide) (by omega)] at h
      -- A leading zero of several digits is one of all digits but the last.
      rcases List.append_eq_cons_iff.mp h with ⟨hnil, -⟩ | ⟨rest, hrest, -⟩
      · exact absurd hnil Nat.toDigits_ne_nil
      · have hzero := (ih (n / 10) (by omega) hrest).1
        omega

/-- A decimal digit has its value in every base. -/
theorem digitValue_eq {c : Char} (h : c.isDigit = true) : digitValue c = c.toNat - '0'.toNat := by
  rw [digitValue, if_pos h]

theorem digitValue_lt_ten {c : Char} (h : c.isDigit = true) : digitValue c < 10 := by
  rw [digitValue_eq h]
  simp only [Char.isDigit, Bool.and_eq_true, decide_eq_true_eq] at h
  have hle : c.toNat ≤ 57 := h.2
  have hzero : '0'.toNat = 48 := rfl
  omega

/-- The digits of a number denote it. -/
theorem ofDigits_ofNat (n : Nat) : ofDigits 10 (ofNat n) = n := by
  have hsame : ∀ (t : Text) (k : Nat), (∀ c ∈ t, c.isDigit = true) →
      t.foldl (fun n c => n * 10 + digitValue c) k = Nat.ofDigitChars 10 t k := by
    intro t
    induction t with
    | nil => exact fun _ _ => rfl
    | cons c t ih =>
      intro k h
      rw [List.foldl_cons, Nat.ofDigitChars_cons, ih _ fun c hc => h c (List.mem_cons_of_mem _ hc),
        digitValue_eq (h c List.mem_cons_self), Nat.mul_comm k]
  rw [ofDigits, hsame _ _ fun c hc => isDigit_of_mem_ofNat hc]
  exact Nat.ofDigitChars_ten_toDigits

/-- Decimal digits, if there are any, are read as the number that they
denote. -/
theorem natural?_of_digits {t : Text} (h : ∀ c ∈ t, c.isDigit = true) (hne : t ≠ []) :
    natural? 10 t = some (ofDigits 10 t) := by
  have hall : t.all (fun c => digitValue c < 10) = true := by
    rw [List.all_eq_true]
    intro c hc
    exact decide_eq_true (digitValue_lt_ten (h c hc))
  rw [natural?, if_pos ⟨hne, hall⟩]

/-- The decimal digits of a number are read back as the number. -/
theorem natural?_ofNat (n : Nat) : natural? 10 (ofNat n) = some n := by
  rw [natural?_of_digits (fun c hc => isDigit_of_mem_ofNat hc) (ofNat_ne_nil n), ofDigits_ofNat]

/-- The digits in front of a text are cut off where no digit follows. -/
theorem cut_digits {digits rest : Text} (hdigits : ∀ c ∈ digits, c.isDigit = true)
    (hrest : ∀ c ∈ rest.head?, c.isDigit = false) :
    (digits ++ rest).takeWhile Char.isDigit = digits ∧
      (digits ++ rest).dropWhile Char.isDigit = rest := by
  have hnone : rest.takeWhile Char.isDigit = [] ∧ rest.dropWhile Char.isDigit = rest := by
    cases rest with
    | nil => exact ⟨rfl, rfl⟩
    | cons c rest =>
      have hc : ¬c.isDigit = true := Bool.eq_false_iff.mp (hrest c rfl)
      exact ⟨List.takeWhile_cons_of_neg hc, List.dropWhile_cons_of_neg hc⟩
  rw [List.takeWhile_append_of_pos hdigits, List.dropWhile_append_of_pos hdigits, hnone.1, hnone.2]
  exact ⟨List.append_nil _, rfl⟩

end DataPipeline.Text
