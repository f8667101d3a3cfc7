import DataPipeline.Proofs.Definition.SegmentRun

/-!
# Joined definitions

Two texts that are joined by ` | ` are read one after the other. The run over
the first one is the same as without the second one, faults included, and the
run over the second one starts afresh behind the separator. Hence definitions
compose: the joined one is accepted exactly when both are.
-/

namespace DataPipeline.Definition

open Text

section Run

variable {d : Dialect} {nameDue : Bool} {t rest : Text}

/-- The separator between two texts. -/
def joint : Text := [' ', '|', ' ']

/-- A run over a text and a blank separator behind it is the run over the
text, which a fault ends, the separator, and a run over the rest. -/
theorem tokensFrom_append_pipe (hd : d.singleModule = false) (offset : Nat) :
    tokensFrom d nameDue offset (t ++ ' ' :: '|' :: rest) =
      match tokensFrom d nameDue offset t with
      | .error e => .error e
      | .ok before =>
        (tokensFrom d true (offset + t.length + 2) rest).map fun after =>
          before ++ ⟨.pipe, ['|'], offset + t.length + 1⟩ :: after := by
  have hstops : stopsValue (' ' :: '|' :: rest) = true := rfl
  induction nameDue, offset, t using run_induction (d := d) with
  | done nameDue offset =>
    have hl : lexToken d nameDue ('|' :: rest) = .ok ⟨.pipe, ['|']⟩ :=
      lexToken_of_stands (.pipe hd)
    rw [List.nil_append, tokensFrom_blank (by decide), tokensFrom_token (by decide) rfl hl,
      tokensFrom_nil]
    rfl
  | blank nameDue offset c t hc ih =>
    have hlen : offset + (c :: t).length = offset + 1 + t.length := by
      rw [List.length_cons]
      omega
    rw [List.cons_append, tokensFrom_blank hc, tokensFrom_blank hc, ih, hlen]
  | fault nameDue offset c t f hc hf =>
    have hf' : lexToken d nameDue (c :: (t ++ ' ' :: '|' :: rest)) = .error f := by
      rw [←List.cons_append, lexToken_append (List.cons_ne_nil c t) hstops, hf]
    rw [List.cons_append, tokensFrom_fault hc hf, tokensFrom_fault hc hf']
  | token nameDue offset c t l u hc hl ht hstands ih =>
    have hl' : lexToken d nameDue (c :: (t ++ ' ' :: '|' :: rest)) = .ok l := by
      rw [←List.cons_append, lexToken_append (List.cons_ne_nil c t) hstops, hl]
    have ht' : c :: (t ++ ' ' :: '|' :: rest) = l.text ++ (u ++ ' ' :: '|' :: rest) := by
      rw [←List.cons_append, ht, List.append_assoc]
    have hlen : offset + (c :: t).length = offset + l.text.length + u.length := by
      rw [ht, List.length_append]
      omega
    rw [List.cons_append, tokensFrom_token hc ht hl, tokensFrom_token hc ht' hl', ih, hlen]
    cases tokensFrom d (l.kind = .pipe) (offset + l.text.length) u with
    | error e => rfl
    | ok before =>
      cases tokensFrom d true (offset + l.text.length + u.length + 2) rest <;> rfl

/-- What a text says with another one behind a separator. -/
theorem says_append_pipe (hd : d.singleModule = false) {kinds : List TokenKind} :
    Says d nameDue (t ++ ' ' :: '|' :: rest) kinds ↔
      ∃ before after, kinds = before ++ .pipe :: after ∧
        Says d nameDue t before ∧ Says d true rest after := by
  constructor
  · intro h
    obtain ⟨tokens, hl, rfl⟩ := h 0
    have hrun := tokensFrom_of_lexes hl
    rw [tokensFrom_append_pipe hd] at hrun
    cases hb : tokensFrom d nameDue 0 t with
    | error e => rw [hb] at hrun; cases hrun
    | ok before =>
      cases ha : tokensFrom d true (0 + t.length + 2) rest with
      | error e => rw [hb] at hrun; dsimp only at hrun; rw [ha] at hrun; cases hrun
      | ok after =>
        rw [hb] at hrun
        dsimp only at hrun
        rw [ha] at hrun
        cases hrun
        exact ⟨_, _, List.map_append, says_of_lexes (lexes_of_tokensFrom hb),
          says_of_lexes (lexes_of_tokensFrom ha)⟩
  · rintro ⟨before, after, rfl, hb, ha⟩ offset
    obtain ⟨earlier, hearlier, rfl⟩ := hb offset
    obtain ⟨later, hlater, rfl⟩ := ha (offset + t.length + 2)
    refine ⟨earlier ++ ⟨.pipe, ['|'], offset + t.length + 1⟩ :: later,
      lexes_of_tokensFrom ?_, ?_⟩
    · rw [tokensFrom_append_pipe hd, tokensFrom_of_lexes hearlier, tokensFrom_of_lexes hlater]
      rfl
    · rw [List.map_append, List.map_cons]

/-- A blank in front changes nothing of what a text says. -/
theorem says_blank_cons {c : Char} (hc : isAsciiBlank c = true) {kinds : List TokenKind} :
    Says d nameDue (c :: t) kinds ↔ Says d nameDue t kinds := by
  constructor
  · intro h
    obtain ⟨tokens, hl, rfl⟩ := h 0
    rw [←tokensFrom_eq_ok_iff, tokensFrom_blank hc, tokensFrom_eq_ok_iff] at hl
    exact says_of_lexes hl
  · intro h offset
    obtain ⟨tokens, hl, hk⟩ := h (offset + 1)
    exact ⟨tokens, hl.blank_cons hc, hk⟩

end Run

section Joined

variable {settings : ParserSettings} {group a b : Text}

/-- The segments of a joined text are those of both texts, if both have any. -/
theorem segments_joined_iff {found : List Segment} :
    segments settings false (a ++ joint ++ b) = .ok found ↔
      ∃ earlier later, segments settings false a = .ok earlier ∧
        segments settings false b = .ok later ∧ found = earlier ++ later := by
  have htext : a ++ joint ++ b = a ++ ' ' :: '|' :: (' ' :: b) := by simp [joint]
  have hd : (settings.dialect false).singleModule = false := rfl
  rw [htext, segments_eq_ok_iff]
  constructor
  · rintro ⟨kinds, hsays, hgroups⟩
    obtain ⟨before, after, rfl, hbefore, hafter⟩ := (says_append_pipe hd).mp hsays
    obtain ⟨earlier, later, rfl, hearlier, hlater⟩ := groups_append_pipe.mp hgroups
    rw [says_blank_cons (by decide)] at hafter
    exact ⟨earlier, later, segments_eq_ok_iff.mpr ⟨_, hbefore, hearlier⟩,
      segments_eq_ok_iff.mpr ⟨_, hafter, hlater⟩, rfl⟩
  · rintro ⟨earlier, later, ha, hb, rfl⟩
    obtain ⟨before, hbefore, hearlier⟩ := segments_eq_ok_iff.mp ha
    obtain ⟨after, hafter, hlater⟩ := segments_eq_ok_iff.mp hb
    rw [←says_blank_cons (c := ' ') (by decide)] at hafter
    exact ⟨_, (says_append_pipe hd).mpr ⟨before, after, rfl, hbefore, hafter⟩,
      groups_append_pipe.mpr ⟨earlier, later, rfl, hearlier, hlater⟩⟩

end Joined

/-- The request with its index shifted, in a pipeline of that many modules. -/
def Request.placed (r : Request) (shift count : Nat) : Request :=
  { r with index := r.index + shift, role := Role.atPosition (r.index + shift) count }

theorem map_placed_requestsOf (group : Text) (found : List Segment) (shift count : Nat) :
    (requestsOf group found).map (·.placed shift count) =
      found.mapIdx fun index segment => ⟨segment.name, group, index + shift,
        Role.atPosition (index + shift) count, segment.options⟩ := by
  refine List.ext_getElem? fun i => ?_
  rw [List.getElem?_map, requestsOf, List.getElem?_mapIdx, List.getElem?_mapIdx, Option.map_map]
  rfl

theorem requestsOf_append (group : Text) (earlier later : List Segment) :
    requestsOf group (earlier ++ later) =
      (requestsOf group earlier).map (·.placed 0 (earlier.length + later.length)) ++
        (requestsOf group later).map (·.placed earlier.length (earlier.length + later.length)) := by
  rw [map_placed_requestsOf, map_placed_requestsOf, requestsOf, List.mapIdx_append,
    List.length_append]
  rfl

/-- Definitions compose. A definition that is joined of two is accepted
exactly when both are; then the requests of the second one, moved behind the
modules of the first one, stand before those of the first one, and all roles
are those of the whole pipeline. -/
theorem parse_joined_iff {settings : ParserSettings} {group a b : Text} {requests : List Request} :
    parse settings group (a ++ joint ++ b) = .ok requests ↔
      ∃ first second, parse settings group a = .ok first ∧ parse settings group b = .ok second ∧
        requests = second.map (·.placed first.length (first.length + second.length)) ++
          first.map (·.placed 0 (first.length + second.length)) := by
  have hlength : ∀ found, (requestsOf group found).reverse.length = found.length := by
    intro found
    rw [List.length_reverse, requestsOf, List.length_mapIdx]
  have hrequests : ∀ earlier later, (requestsOf group (earlier ++ later)).reverse =
      (requestsOf group later).reverse.map
          (·.placed earlier.length (earlier.length + later.length)) ++
        (requestsOf group earlier).reverse.map (·.placed 0 (earlier.length + later.length)) := by
    intro earlier later
    rw [requestsOf_append, List.reverse_append, List.map_reverse, List.map_reverse]
  rw [parse_eq_ok_iff]
  constructor
  · rintro ⟨hg, found, hfound, rfl⟩
    obtain ⟨earlier, later, ha, hb, rfl⟩ := segments_joined_iff.mp hfound
    refine ⟨_, _, parse_eq_ok_iff.mpr ⟨hg, _, ha, rfl⟩, parse_eq_ok_iff.mpr ⟨hg, _, hb, rfl⟩, ?_⟩
    rw [hlength, hlength, hrequests]
  · rintro ⟨first, second, ha, hb, rfl⟩
    obtain ⟨hg, earlier, hearlier, rfl⟩ := parse_eq_ok_iff.mp ha
    obtain ⟨-, later, hlater, rfl⟩ := parse_eq_ok_iff.mp hb
    refine ⟨hg, _, segments_joined_iff.mpr ⟨_, _, hearlier, hlater, rfl⟩, ?_⟩
    rw [hlength, hlength, hrequests]

end DataPipeline.Definition
