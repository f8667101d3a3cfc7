/-!
# Outcomes of steps

What a run of steps gives, read off what its steps give: a result comes from a
result of each step, and an error from the first step that fails.
-/

namespace Except

variable {ε α β : Type} {outcome : Except ε α} {e : ε} {b : β}

section Map

variable {g : α → β}

/-- A mapped outcome has a result exactly if the outcome has. -/
theorem map_eq_ok_iff : outcome.map g = .ok b ↔ ∃ a, outcome = .ok a ∧ g a = b := by
  cases outcome with
  | error e => simp [Except.map]
  | ok a => simp [Except.map]

/-- A mapped outcome has the errors of the outcome. -/
theorem map_eq_error_iff : outcome.map g = .error e ↔ outcome = .error e := by
  cases outcome with
  | error e => simp [Except.map]
  | ok a => simp [Except.map]

end Map

section Bind

variable {next : α → Except ε β}

/-- Two steps have a result exactly if both have. -/
theorem bind_eq_ok_iff :
    (outcome >>= next) = .ok b ↔ ∃ a, outcome = .ok a ∧ next a = .ok b := by
  cases outcome with
  | error e => simp [bind, Except.bind]
  | ok a => simp [bind, Except.bind]

/-- Two steps fail exactly if the first one does, or the second one does behind
it. -/
theorem bind_eq_error_iff :
    (outcome >>= next) = .error e ↔
      outcome = .error e ∨ ∃ a, outcome = .ok a ∧ next a = .error e := by
  cases outcome with
  | error e => simp [bind, Except.bind]
  | ok a => simp [bind, Except.bind]

end Bind

section Fold

variable {step : β → α → Except ε β} {s : β} {items : List α}

/-- A fold fails at the first item at which its step does. -/
theorem foldlM_eq_error (h : items.foldlM step s = .error e) :
    ∃ before item after s', items = before ++ item :: after ∧
      before.foldlM step s = .ok s' ∧ step s' item = .error e := by
  induction items generalizing s with
  | nil => cases h
  | cons item items ih =>
    rw [List.foldlM_cons] at h
    rcases bind_eq_error_iff.mp h with hstep | ⟨s', hstep, hrest⟩
    · exact ⟨[], item, items, s, rfl, rfl, hstep⟩
    · obtain ⟨before, item', after, s'', rfl, hbefore, hitem⟩ := ih hrest
      refine ⟨item :: before, item', after, s'', rfl, ?_, hitem⟩
      rw [List.foldlM_cons, hstep]
      exact hbefore

end Fold

end Except
