import DataPipeline.Proofs.Definition.Acceptance

/-!
# Emission of requests

The separators of a definition cut its tokens into segments, and each segment
becomes one request. The requests stand against the flow, their indices count
along it, and the role of a request follows from its place alone.
-/

namespace DataPipeline.Definition

open Text

section Roles

variable {index count : Nat}

/-- The last module is the sink. -/
theorem atPosition_eq_sink_iff : Role.atPosition index count = .sink ↔ count ≤ index + 1 := by
  rw [Role.atPosition]
  split
  · next h => simp [h]
  · next h => split <;> simp [h]

/-- The first of several modules is the source. -/
theorem atPosition_eq_source_iff :
    Role.atPosition index count = .source ↔ index + 1 < count ∧ index = 0 := by
  rw [Role.atPosition]
  split
  · next h => simp [Nat.not_lt.mpr h]
  · next h => split <;> simp_all

/-- All modules between them are processors. -/
theorem atPosition_eq_processor_iff :
    Role.atPosition index count = .processor ↔ index + 1 < count ∧ index ≠ 0 := by
  rw [Role.atPosition]
  split
  · next h => simp [Nat.not_lt.mpr h]
  · next h => split <;> simp_all

end Roles

/-- The tokens of a segment say its name and then its options, of which the
last one with a key gives its value. -/
def Spells (kinds : List TokenKind) (s : Segment) : Prop :=
  ∃ entries : List (Text × Text),
    kinds = .name s.name :: entries.map (fun e => .option e.1 e.2) ∧ s.options = .ofList entries

section Kinds

/-- What a form says spells its segment. -/
theorem SegmentForm.spells (f : SegmentForm) : Spells f.kinds f.segment := by
  refine ⟨f.entries, ?_, rfl⟩
  rw [SegmentForm.entries, List.map_map]
  rfl

/-- Within a segment there is no separator. -/
theorem Spells.pipe_not_mem {kinds : List TokenKind} {s : Segment} (h : Spells kinds s) :
    .pipe ∉ kinds := by
  obtain ⟨entries, rfl, -⟩ := h
  simp

/-- Separators cut what forms say into what each of them says. -/
theorem splitOn_kinds (f : SegmentForm) (later : List SegmentForm) :
    (f.kinds ++ laterKinds later).splitOn .pipe = (f :: later).map SegmentForm.kinds := by
  induction later generalizing f with
  | nil =>
    rw [laterKinds, List.flatMap_nil, List.append_nil,
      List.splitOn_eq_singleton f.spells.pipe_not_mem]
    rfl
  | cons g later ih =>
    have hkinds : f.kinds ++ laterKinds (g :: later) =
        f.kinds ++ .pipe :: (g.kinds ++ laterKinds later) := rfl
    rw [hkinds, List.splitOn_append_cons_self_of_not_mem f.spells.pipe_not_mem, ih]
    rfl

/-- There is one segment more than there are separators. -/
theorem length_splitOn (separator : TokenKind) (kinds : List TokenKind) :
    (kinds.splitOn separator).length = kinds.count separator + 1 := by
  induction kinds with
  | nil => rfl
  | cons kind kinds ih =>
    rw [List.splitOn_cons_eq_if_modifyHead, List.count_cons]
    split
    · rw [List.length_cons, ih]
    · rw [List.length_modifyHead, ih]

/-- The separators of a text cut its tokens into what its segments say. -/
theorem exists_tokens_of_segments {settings : ParserSettings} {singleModule : Bool} {text : Text}
    {found : List Segment} (h : segments settings singleModule text = .ok found) :
    ∃ tokens, tokenize (settings.dialect singleModule) text = .ok tokens ∧
      List.Forall₂ Spells ((tokens.map Token.kind).splitOn .pipe) found := by
  obtain ⟨forms, hne, hsingle, hsep, hforms, rfl, rfl⟩ := segments_eq_ok_iff_forms.mp h
  obtain ⟨f, later, rfl⟩ := List.exists_cons_of_ne_nil hne
  obtain ⟨tokens, hlexes, hkinds⟩ := says_forms hsingle hsep hforms 0
  refine ⟨tokens, tokensFrom_of_lexes hlexes, ?_⟩
  rw [hkinds, splitOn_kinds, List.forall₂_map_left_iff, List.forall₂_map_right_iff,
    List.forall₂_same]
  exact fun g _ => g.spells

end Kinds

/-- The module of a request with its options. -/
def Request.segment (r : Request) : Segment := ⟨r.moduleName, r.options⟩

section Requests

variable {group : Text} {found : List Segment}

/-- The request at a place is that of the segment there. -/
theorem getElem?_requestsOf (group : Text) (found : List Segment) (i : Nat) :
    (requestsOf group found)[i]? = found[i]?.map fun s =>
      ⟨s.name, group, i, Role.atPosition i found.length, s.options⟩ := by
  rw [requestsOf, List.getElem?_mapIdx]

/-- There are as many requests as segments. -/
theorem length_requestsOf (group : Text) (found : List Segment) :
    (requestsOf group found).length = found.length := List.length_mapIdx

/-- The requests hold the segments in their order. -/
theorem map_segment_requestsOf (group : Text) (found : List Segment) :
    (requestsOf group found).map Request.segment = found := by
  refine List.ext_getElem? fun i => ?_
  rw [List.getElem?_map, getElem?_requestsOf, Option.map_map]
  exact Option.map_id'

/-- All requests belong to the group. -/
theorem group_of_mem_requestsOf {r : Request} (h : r ∈ requestsOf group found) :
    r.group = group := by
  obtain ⟨i, hi, rfl⟩ := List.mem_mapIdx.mp h
  rfl

/-- In the order of the segments the indices increase. -/
theorem pairwise_index_requestsOf (group : Text) (found : List Segment) :
    (requestsOf group found).Pairwise fun a b => a.index < b.index := by
  rw [List.pairwise_iff_getElem]
  intro i j hi hj hij
  simpa [requestsOf] using hij

/-- The request at a place of a list of `n` requests of a group, where the
segments of the definition say what is given. -/
structure EmittedAt (group : Text) (said : List (List TokenKind)) (n p : Nat) (r : Request) :
    Prop where
  /-- Indices count against the list. -/
  index : r.index = n - 1 - p
  /-- The request belongs to the group. -/
  group : r.group = group
  /-- The module is that of the segment with this number from the left. -/
  segment : ∃ kinds, said[n - 1 - p]? = some kinds ∧ Spells kinds r.segment
  /-- The first request is the one for the sink. -/
  sink : r.role = .sink ↔ p = 0
  /-- The last of several requests is the one for the source. -/
  source : r.role = .source ↔ 2 ≤ n ∧ p = n - 1
  /-- All others are for processors. -/
  processor : r.role = .processor ↔ ¬p = 0 ∧ ¬(2 ≤ n ∧ p = n - 1)

/-- Requests are emitted in the reverse order of the segments. -/
theorem emittedAt_of_getElem? {said : List (List TokenKind)}
    (hsaid : List.Forall₂ Spells said found) {p : Nat} {r : Request}
    (hr : (requestsOf group found).reverse[p]? = some r) :
    EmittedAt group said found.length p r := by
  have hlt : p < found.length := by
    have hp := (List.getElem?_eq_some_iff.mp hr).1
    rwa [List.length_reverse, length_requestsOf] at hp
  have hi : found.length - 1 - p < found.length := by omega
  rw [List.getElem?_reverse (by rwa [length_requestsOf]), length_requestsOf, getElem?_requestsOf,
    List.getElem?_eq_getElem hi, Option.map_some, Option.some.injEq] at hr
  subst hr
  have hi' : found.length - 1 - p < said.length := hsaid.length_eq ▸ hi
  refine ⟨rfl, rfl, ⟨said[found.length - 1 - p], List.getElem?_eq_getElem hi', ?_⟩, ?_, ?_, ?_⟩
  · exact hsaid.get hi' hi
  · rw [atPosition_eq_sink_iff]
    omega
  · rw [atPosition_eq_source_iff]
    omega
  · rw [atPosition_eq_processor_iff]
    omega

end Requests

/-- The emission contract. When a definition is read, there is one request more
than there are separators among its tokens, and the request at each place of
the list has the index, the group, the module and the role that belong to this
place. When it is not read, there are no requests. -/
theorem emission_of_parse (settings : ParserSettings) (group text : Text) :
    (∀ requests, parse settings group text = .ok requests →
      ∃ tokens, tokenize (settings.dialect false) text = .ok tokens ∧
        requests.length = (tokens.map Token.kind).count .pipe + 1 ∧
        ∀ p r, requests[p]? = some r →
          EmittedAt group ((tokens.map Token.kind).splitOn .pipe) requests.length p r) ∧
    ∀ e, parse settings group text = .error e →
      ∀ requests, parse settings group text ≠ .ok requests := by
  constructor
  · intro requests h
    obtain ⟨-, found, hfound, rfl⟩ := parse_eq_ok_iff.mp h
    obtain ⟨tokens, htokens, hsaid⟩ := exists_tokens_of_segments hfound
    rw [List.length_reverse, length_requestsOf]
    refine ⟨tokens, htokens, ?_, fun p r hr => emittedAt_of_getElem? hsaid hr⟩
    rw [←hsaid.length_eq, length_splitOn]
  · intro e h requests hno
    rw [h] at hno
    cases hno

theorem emission_of_parse_sample :
    parse ⟨.lastWins, true⟩ "s".toList "\nm --z=1\t --a=x|y\u00a0 --z= |log".toList =
        .ok (requestsOf "s".toList (repeatedForms.map SegmentForm.segment)).reverse ∧
      (∃ tokens, tokenize ⟨true, false⟩ "\nm --z=1\t --a=x|y\u00a0 --z= |log".toList = .ok tokens ∧
        2 = (tokens.map Token.kind).count .pipe + 1 ∧
        EmittedAt "s".toList ((tokens.map Token.kind).splitOn .pipe) 2 1
          ⟨"m".toList, "s".toList, 0, .source,
            .ofList [("a".toList, "x|y".toList), ("z".toList, [])]⟩) ∧
      parse {} [] "a".toList = .error ⟨.blankName, [], 0⟩ ∧
      ∀ requests, parse {} [] "a".toList ≠ .ok requests := by
  obtain ⟨tokens, htokens, hlength, hemitted⟩ :=
    (emission_of_parse _ _ _).1 _ parse_repeatedForms
  have hblank : parse {} [] "a".toList = .error ⟨.blankName, [], 0⟩ := parse_of_blank rfl
  exact ⟨parse_repeatedForms, ⟨tokens, htokens, hlength, hemitted 1 _ (by decide)⟩, hblank,
    (emission_of_parse _ _ _).2 _ hblank⟩

end DataPipeline.Definition
