import DataPipeline.Proofs.Definition.ByteLexerScan
import Mathlib.Logic.Function.Iterate
import Mathlib.Order.Bounds.Basic

/-!
# The least boundary of a value

The scan for the end of a value looks behind every run of blanks that it meets
and goes on behind the run if nothing there ends the value, so it never tests
the positions inside the run. None of them is a boundary, because the same
follows behind them. The scan therefore stops at the least boundary, after a
number of turns that is bounded by the bytes in front of it.
-/

namespace DataPipeline.Definition.ByteLexer

open Text

section Bytes

variable (bytes : List UInt8)

/-- Whether an ASCII blank stands at an index. -/
abbrev blankAt (i : Nat) : Bool := byteIs bytes (onByte isAsciiBlank) i

/-- Whether a separator stands at an index. -/
abbrev pipeAt (i : Nat) : Bool := byteIs bytes (onByte fun c => c = '|') i

/-- A value must stop before blanks that are followed by the end of the bytes,
by a separator or by an option mark. -/
def EndsValueAt (next : Nat) : Prop :=
  next = bytes.length ∨ pipeAt bytes next = true ∨ markAt bytes next = true

/-- Where a value may stop: at the end of the bytes, or at a blank if what stands
at the first position behind it that is no blank ends the value. -/
inductive IsBoundary (i : Nat) : Prop
  | finish (last : i = bytes.length)
  | blanks {next : Nat} (blank : blankAt bytes i = true)
      (first : IsLeast {k | i < k ∧ blankAt bytes k = false} next)
      (ends : EndsValueAt bytes next)

/-- Where the scan for the end of a value stands. -/
inductive ScanState
  /-- The value reaches up to an index at least. -/
  | within (i : Nat)
  /-- The blanks from an index on are passed to see what follows them. -/
  | ahead (i next : Nat)
  /-- The end of the value is known. -/
  | found (stop : Nat)
  deriving DecidableEq, Repr

/-- One turn of the scan, of its loop over the value or of the one over a run of
blanks. -/
def scanStep : ScanState → ScanState
  | .within i =>
    if i < bytes.length then
      if blankAt bytes i then .ahead i i else .within (i + 1)
    else .found bytes.length
  | .ahead i next =>
    if blankAt bytes next then .ahead i (next + 1)
    else if next = bytes.length || pipeAt bytes next || markAt bytes next then .found i
    else .within next
  | .found stop => .found stop

/-- What the scan from an index on knows where it stands: it has passed no
boundary, and the end that it finds is the least one. -/
def SoundScan (start : Nat) : ScanState → Prop
  | .within i => start ≤ i ∧ i ≤ bytes.length ∧ ∀ k, start ≤ k → k < i → ¬IsBoundary bytes k
  | .ahead i next =>
    (start ≤ i ∧ i ≤ next ∧ next ≤ bytes.length ∧ ∀ k, start ≤ k → k < i → ¬IsBoundary bytes k) ∧
      blankAt bytes i = true ∧ ∀ k, i ≤ k → k < next → blankAt bytes k = true
  | .found stop => IsLeast {i | start ≤ i ∧ IsBoundary bytes i} stop

end Bytes

section Boundaries

variable {bytes : List UInt8} {i next : Nat}

theorem blankAt_length : blankAt bytes bytes.length = false := by
  rw [blankAt, byteIs, List.getElem?_eq_none (Nat.le_refl _)]
  rfl

/-- What ends a value is no blank. -/
theorem blankAt_of_endsValueAt (h : EndsValueAt bytes next) : blankAt bytes next = false := by
  have hother : ∀ {a : Char}, isAsciiBlank a = false →
      byteIs bytes (onByte fun c => c = a) next = true → blankAt bytes next = false := by
    intro a ha hbyte
    rw [byteIs, Option.any_eq_true] at hbyte
    obtain ⟨b, hb, hchar⟩ := hbyte
    rw [onByte, Bool.and_eq_true, decide_eq_true_eq] at hchar
    rw [blankAt, byteIs, hb, Option.any_some, onByte, of_decide_eq_true hchar.2, ha, Bool.and_false]
  rcases h with rfl | hpipe | hmark
  · exact blankAt_length
  · exact hother (by decide) hpipe
  · rw [markAt, Bool.and_eq_true] at hmark
    exact hother (by decide) hmark.1

/-- The position behind a run of blanks is the first one behind each of them that
is no blank. -/
theorem isLeast_of_run (hi : i < next) (hrun : ∀ k, i ≤ k → k < next → blankAt bytes k = true)
    (hnext : blankAt bytes next = false) :
    IsLeast {k | i < k ∧ blankAt bytes k = false} next := by
  refine ⟨⟨hi, hnext⟩, fun k ⟨hk, hblank⟩ => Nat.le_of_not_lt fun hlt => ?_⟩
  rw [hrun k (Nat.le_of_lt hk) hlt] at hblank
  cases hblank

/-- All positions of a run of blanks are boundaries, or none of them is. -/
theorem isBoundary_iff_of_run (hi : i < next)
    (hrun : ∀ k, i ≤ k → k < next → blankAt bytes k = true)
    (hnext : blankAt bytes next = false) : IsBoundary bytes i ↔ EndsValueAt bytes next := by
  have hleast := isLeast_of_run hi hrun hnext
  constructor
  · rintro (last | ⟨-, first, ends⟩)
    · have hblank := hrun i (Nat.le_refl i) hi
      rw [last, blankAt_length] at hblank
      cases hblank
    · rwa [hleast.unique first]
  · exact fun ends => .blanks (hrun i (Nat.le_refl i) hi) hleast ends

/-- A blank right before what ends a value is a boundary. -/
theorem isBoundary_of_succ (hblank : blankAt bytes i = true)
    (hends : EndsValueAt bytes (i + 1)) : IsBoundary bytes i := by
  have hrun : ∀ k, i ≤ k → k < i + 1 → blankAt bytes k = true := by
    intro k hle hlt
    rwa [Nat.le_antisymm (Nat.le_of_lt_succ hlt) hle]
  exact (isBoundary_iff_of_run (Nat.lt_succ_self i) hrun (blankAt_of_endsValueAt hends)).mpr hends

/-- A blank right before a boundary is a boundary too. -/
theorem IsBoundary.pred (h : IsBoundary bytes (i + 1)) (hblank : blankAt bytes i = true) :
    IsBoundary bytes i := by
  cases h with
  | finish last => exact isBoundary_of_succ hblank (.inl last)
  | blanks blank first ends =>
    refine .blanks hblank ⟨⟨Nat.lt_of_succ_lt first.1.1, first.1.2⟩, fun k ⟨hk, hno⟩ => ?_⟩ ends
    refine first.2 ⟨Nat.lt_of_le_of_ne hk ?_, hno⟩
    rintro rfl
    rw [blank] at hno
    cases hno

end Boundaries

section Run

variable {bytes : List UInt8} {start : Nat}

/-- The test behind a run of blanks asks for what ends a value. -/
theorem endsValueAt_iff {next : Nat} :
    (next = bytes.length || pipeAt bytes next || markAt bytes next) = true ↔
      EndsValueAt bytes next := by
  rw [EndsValueAt, Bool.or_eq_true, Bool.or_eq_true, decide_eq_true_eq, or_assoc]

/-- Every turn keeps what the scan knows true. -/
theorem SoundScan.step {state : ScanState} (h : SoundScan bytes start state) :
    SoundScan bytes start (scanStep bytes state) := by
  cases state with
  | within i =>
    obtain ⟨hstart, hlength, hpassed⟩ := h
    rw [scanStep]
    split
    · next hi =>
      split
      · next hblank =>
        exact ⟨⟨hstart, Nat.le_refl i, hlength, hpassed⟩, hblank,
          fun k hle hlt => absurd hlt (Nat.not_lt_of_le hle)⟩
      · next hblank =>
        have hnone : ¬IsBoundary bytes i := by
          rintro (last | ⟨blank, -, -⟩)
          · exact Nat.ne_of_lt hi last
          · exact hblank blank
        refine ⟨Nat.le_succ_of_le hstart, hi, fun k hk hlt => ?_⟩
        rcases Nat.lt_succ_iff_lt_or_eq.mp hlt with hlt | rfl
        · exact hpassed k hk hlt
        · exact hnone
    · next hi =>
      have hend : i = bytes.length := Nat.le_antisymm hlength (Nat.le_of_not_lt hi)
      refine ⟨⟨hend ▸ hstart, .finish rfl⟩, fun k ⟨hk, hboundary⟩ => Nat.le_of_not_lt fun hlt => ?_⟩
      exact hpassed k hk (hend ▸ hlt) hboundary
  | ahead i next =>
    obtain ⟨⟨hstart, hi, hlength, hpassed⟩, hblank, hrun⟩ := h
    rw [scanStep]
    split
    · next hmore =>
      refine ⟨⟨hstart, Nat.le_succ_of_le hi, lt_of_byteIs hmore, hpassed⟩, hblank,
        fun k hk hlt => ?_⟩
      rcases Nat.lt_succ_iff_lt_or_eq.mp hlt with hlt | rfl
      · exact hrun k hk hlt
      · exact hmore
    · next hlast =>
      have hnext := Bool.eq_false_iff.mpr hlast
      have hlt : i < next := by
        refine Nat.lt_of_le_of_ne hi ?_
        rintro rfl
        exact hlast hblank
      -- The positions of the run share their answer, though only its end is tested.
      have hall : ∀ k, i ≤ k → k < next → (IsBoundary bytes k ↔ EndsValueAt bytes next) :=
        fun k hk hlt => isBoundary_iff_of_run hlt (fun j hj => hrun j (Nat.le_trans hk hj)) hnext
      split
      · next hends =>
        refine ⟨⟨hstart, (hall i (Nat.le_refl i) hlt).mpr (endsValueAt_iff.mp hends)⟩,
          fun k ⟨hk, hboundary⟩ => Nat.le_of_not_lt fun hbefore => ?_⟩
        exact hpassed k hk hbefore hboundary
      · next hends =>
        refine ⟨Nat.le_trans hstart hi, hlength, fun k hk hbefore => ?_⟩
        rcases Nat.lt_or_ge k i with hki | hki
        · exact hpassed k hk hki
        · exact fun hboundary => hends (endsValueAt_iff.mpr ((hall k hki hbefore).mp hboundary))
  | found stop => exact h

/-- Every run keeps what the scan knows true. -/
theorem SoundScan.run {state : ScanState} (h : SoundScan bytes start state) (turns : Nat) :
    SoundScan bytes start ((scanStep bytes)^[turns] state) := by
  induction turns generalizing state with
  | zero => exact h
  | succ turns ih => exact ih h.step

theorem sound_start (h : start ≤ bytes.length) : SoundScan bytes start (.within start) :=
  ⟨Nat.le_refl start, h, fun _ hk hlt => absurd hlt (Nat.not_lt_of_le hk)⟩

/-- The loop over a run of blanks takes one turn for each of them. -/
theorem iterate_ahead (i next : Nat) :
    (scanStep bytes)^[passWhile bytes (onByte isAsciiBlank) next - next] (.ahead i next) =
      .ahead i (passWhile bytes (onByte isAsciiBlank) next) := by
  fun_induction passWhile bytes (onByte isAsciiBlank) next with
  | case1 next hblank ih =>
    have hle := le_passWhile bytes (onByte isAsciiBlank) (next + 1)
    have hturns : passWhile bytes (onByte isAsciiBlank) (next + 1) - next =
        passWhile bytes (onByte isAsciiBlank) (next + 1) - (next + 1) + 1 := by omega
    rw [hturns, Function.iterate_succ_apply, scanStep, if_pos hblank, ih]
  | case2 next hblank =>
    rw [Nat.sub_self]
    rfl

theorem passWhile_spec {q : UInt8 → Bool} {i : Nat} (hi : i ≤ bytes.length) :
    passWhile bytes q i ≤ bytes.length ∧ byteIs bytes q (passWhile bytes q i) = false := by
  fun_induction passWhile bytes q i with
  | case1 i hbyte ih => exact ih (lt_of_byteIs hbyte)
  | case2 i hbyte => exact ⟨hi, Bool.eq_false_iff.mpr hbyte⟩

/-- At a run of blanks the scan looks behind it and then stops before the run or
goes on behind it. -/
theorem iterate_run {i : Nat} (hi : i < bytes.length) (hblank : blankAt bytes i = true) :
    let next := passWhile bytes (onByte isAsciiBlank) i
    (scanStep bytes)^[next - i + 2] (.within i) =
      if next = bytes.length || pipeAt bytes next || markAt bytes next then .found i
      else .within next := by
  intro next
  have hlast : blankAt bytes next = false := (passWhile_spec (Nat.le_of_lt hi)).2
  have henter : scanStep bytes (.within i) = .ahead i i := by
    rw [scanStep, if_pos hi, if_pos hblank]
  rw [Function.iterate_succ_apply', Function.iterate_succ_apply, henter, iterate_ahead, scanStep,
    if_neg (Bool.eq_false_iff.mp hlast)]

/-- The scan finds the end of the value in at most three turns for each byte that
it passes and one more. -/
theorem exists_turns {i : Nat} (hi : i ≤ bytes.length) :
    ∃ turns ≤ 3 * (bytes.length - i) + 1,
      (scanStep bytes)^[turns] (.within i) = .found (valueEnd bytes i) := by
  fun_induction valueEnd bytes i with
  | case1 i hlt hblank next hends =>
    have hle : next ≤ bytes.length := (passWhile_spec (Nat.le_of_lt hlt)).1
    refine ⟨next - i + 2, by omega, ?_⟩
    rw [iterate_run hlt hblank, if_pos hends]
  | case2 i hlt hblank next hends ih =>
    have hle : next ≤ bytes.length := (passWhile_spec (Nat.le_of_lt hlt)).1
    have hpassed : i < next := lt_passWhile bytes hblank
    obtain ⟨turns, hturns, hfound⟩ := ih hle
    refine ⟨turns + (next - i + 2), by omega, ?_⟩
    rw [Function.iterate_add_apply, iterate_run hlt hblank, if_neg hends, hfound]
  | case3 i hlt hblank ih =>
    obtain ⟨turns, hturns, hfound⟩ := ih hlt
    refine ⟨turns + 1, by omega, ?_⟩
    rw [Function.iterate_succ_apply, scanStep, if_pos hlt, if_neg hblank, hfound]
  | case4 i hlt =>
    refine ⟨1, by omega, ?_⟩
    rw [Function.iterate_one, scanStep, if_neg hlt]

/-- The scan stops at the least boundary. -/
theorem isLeast_valueEnd (h : start ≤ bytes.length) :
    IsLeast {i | start ≤ i ∧ IsBoundary bytes i} (valueEnd bytes start) := by
  obtain ⟨turns, -, hfound⟩ := exists_turns h
  have hsound := (sound_start h).run turns
  rwa [hfound] at hsound

end Run

/-- A value stops at its least boundary. From every position up to the end of a
text, between two characters or inside one, the scan ends at the smallest position
from there on that is the end of the text or a blank with nothing but blanks
between it and the end, a separator or an option mark. So no blank of the value
stands right before a separator or an option mark, and the value does not end in a
blank. The scan takes at most three turns for each byte in front of it and one
more, and between two characters it finds where the raw value of the text from
there on ends. -/
theorem value_stops_at_least_boundary (text : Text) {start : Nat}
    (h : start ≤ (utf8 text).length) :
    let bytes := utf8 text
    let stop := valueEnd bytes start
    IsLeast {i | start ≤ i ∧ IsBoundary bytes i} stop ∧
    (∀ k, start ≤ k → k < stop → blankAt bytes k = true →
      pipeAt bytes (k + 1) = false ∧ markAt bytes (k + 1) = false) ∧
    (start < stop → blankAt bytes (stop - 1) = false) ∧
    (∃ turns ≤ 3 * (bytes.length - start) + 1,
      (scanStep bytes)^[turns] (.within start) = .found stop) ∧
    ∀ before rest, text = before ++ rest → byteSize before = start →
      stop = byteSize (before ++ rawValue rest) := by
  intro bytes stop
  have hleast : IsLeast {i | start ≤ i ∧ IsBoundary bytes i} stop := isLeast_valueEnd h
  have hinside : ∀ k, start ≤ k → k < stop → ¬IsBoundary bytes k :=
    fun k hk hlt hboundary => Nat.not_lt_of_le (hleast.2 ⟨hk, hboundary⟩) hlt
  refine ⟨hleast, fun k hk hlt hblank => ?_, fun hlt => ?_, exists_turns h,
    fun before rest htext hstart => ?_⟩
  · have hnone : ¬EndsValueAt bytes (k + 1) :=
      fun hends => hinside k hk hlt (isBoundary_of_succ hblank hends)
    exact ⟨Bool.eq_false_iff.mpr fun hpipe => hnone (.inr (.inl hpipe)),
      Bool.eq_false_iff.mpr fun hmark => hnone (.inr (.inr hmark))⟩
  · obtain ⟨last, hlast⟩ : ∃ last, stop = last + 1 := ⟨stop - 1, by omega⟩
    refine Bool.eq_false_iff.mpr fun hblank => hinside (stop - 1) (by omega) (by omega) ?_
    rw [hlast] at hblank hleast ⊢
    exact hleast.1.2.pred hblank
  · subst htext hstart
    exact valueEnd_append

/-- The scan begins inside a character, passes a run of blanks before a single dash
and stops at the run before the separator. -/
theorem value_stops_at_least_boundary_sample :
    let bytes := utf8 "ü  - \t|".toList
    1 ≤ bytes.length ∧ valueEnd bytes 1 = 5 ∧ IsLeast {i | 1 ≤ i ∧ IsBoundary bytes i} 5 ∧
      blankAt bytes 2 = true ∧ pipeAt bytes 3 = false ∧ blankAt bytes 4 = false ∧
      ∃ turns ≤ 22, (scanStep bytes)^[turns] (.within 1) = .found 5 := by
  have hstart : 1 ≤ (utf8 "ü  - \t|".toList).length := by decide
  have hstop : valueEnd (utf8 "ü  - \t|".toList) 1 = 5 := by decide +kernel
  have hblank : blankAt (utf8 "ü  - \t|".toList) 2 = true := by decide
  obtain ⟨hleast, hnone, hlast, hturns, -⟩ := value_stops_at_least_boundary _ hstart
  rw [hstop] at hleast hnone hlast hturns
  exact ⟨hstart, hstop, hleast, hblank, (hnone 2 (by decide) (by decide) hblank).1,
    hlast (by decide), hturns⟩

end DataPipeline.Definition.ByteLexer
