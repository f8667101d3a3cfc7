import DataPipeline.Proofs.Definition.LoggedEvents
import DataPipeline.Proofs.Definition.OptionLookup
import DataPipeline.Proofs.Json.Writing

/-!
# Requests through JSON

Requests and option maps are read back from their JSON trees, and their trees
are plain, so they are read back from their texts in both layouts. What the
commands print as JSON is therefore read as what the reader of definitions
returned. On the standard output it stands behind what is logged, so that the
whole output is only read where nothing is logged. The index of a request is a
word of 64 bits, and a definition that fits in memory has fewer segments than
there are such words.
-/

namespace DataPipeline.Definition

open CommandLine

section Trees

/-- Options are read back from their tree. -/
theorem OptionMap.ofJson?_toJson (o : OptionMap) : OptionMap.ofJson? o.toJson = some o := by
  have hentries : o.toJson.textEntries? = some o.entries := by
    rw [OptionMap.toJson, Json.record, List.map_map]
    exact Json.mapM_map_eq_some fun _ _ => rfl
  rw [OptionMap.ofJson?, hentries, Option.map_some, OptionMap.ofList_entries]

/-- The tree of options is plain. -/
theorem OptionMap.isPlain_toJson (o : OptionMap) : o.toJson.IsPlain := by
  refine Json.isPlain_record fun m hm => ?_
  obtain ⟨entry, -, rfl⟩ := List.mem_map.mp hm
  exact Json.isPlain_ofText _

/-- Every role is the choice of its name. -/
theorem choice?_name (role : Role) :
    (Json.ofText role.name.toList).choice? (fun name => Role.ofName? (String.ofList name)) =
      some role := by
  rw [Json.ofText, Json.choice?, String.ofList_toList, Role.ofName?_name]

/-- All fields of a request are found in its object. -/
theorem Request.fields?_toJson (r : Request) :
    r.toJson.fields? Request.fieldNames = some ([.ofText r.moduleName, .ofText r.group,
      .ofNat r.index, .ofText r.role.name.toList, r.options.toJson].map some) := rfl

/-- A request with an index of 64 bits is read back from its tree. -/
theorem Request.ofJson?_toJson {r : Request} (h : Numeric.fitsUnsigned 64 r.index = true) :
    Request.ofJson? r.toJson = some r := by
  rw [Request.ofJson?, Request.fields?_toJson]
  simp [Json.text?_ofText, Json.word64?_ofNat h, choice?_name, OptionMap.ofJson?_toJson]

/-- The tree of a request is plain. -/
theorem Request.isPlain_toJson (r : Request) : r.toJson.IsPlain := by
  refine Json.isPlain_record_zip ?_
  simp only [List.forall_mem_cons]
  exact ⟨Json.isPlain_ofText _, Json.isPlain_ofText _, Json.isPlain_ofNat _,
    Json.isPlain_ofText _, OptionMap.isPlain_toJson _, List.forall_mem_nil _⟩

/-- Requests with indices of 64 bits are read back from their tree. -/
theorem requestsOfJson?_requestsToJson {requests : List Request}
    (h : ∀ r ∈ requests, Numeric.fitsUnsigned 64 r.index = true) :
    requestsOfJson? (requestsToJson requests) = some requests :=
  Json.mapM_map_eq_some fun r hr => Request.ofJson?_toJson (h r hr)

/-- The tree of requests is plain. -/
theorem isPlain_requestsToJson (requests : List Request) : (requestsToJson requests).IsPlain := by
  refine .array fun item hitem => ?_
  obtain ⟨r, -, rfl⟩ := List.mem_map.mp hitem
  exact r.isPlain_toJson

end Trees

section Counting

/-- Every token takes at least one character. -/
theorem Lexes.length_le {d : Dialect} {nameDue : Bool} {offset : Nat} {t : Text}
    {tokens : List Token} (h : Lexes d nameDue offset t tokens) : tokens.length ≤ t.length := by
  induction h with
  | done => exact Nat.zero_le _
  | @token nameDue offset gap rest l tokens blank stands next ih =>
    obtain ⟨c, u, htext, -⟩ := stands.exists_cons
    simp only [List.length_cons, List.length_append, htext]
    omega

/-- Every segment but the open one takes at least one token. -/
theorem Groups.length_le {policy : RepeatPolicy} {current : Option Segment}
    {kinds : List TokenKind} {found : List Segment} (h : Groups policy current kinds found) :
    found.length ≤ kinds.length + current.toList.length := by
  induction h with
  | last => exact Nat.le_refl 1
  | name _ ih | option _ _ ih | pipe _ ih => simp at ih ⊢; omega

/-- The indices of the requests of a definition are below its length. -/
theorem index_lt_of_parse {settings : ParserSettings} {group definition : Text}
    {requests : List Request} (h : parse settings group definition = .ok requests) {r : Request}
    (hr : r ∈ requests) : r.index < definition.length := by
  obtain ⟨-, found, hfound, rfl⟩ := parse_eq_ok_iff.mp h
  obtain ⟨kinds, hsays, hgroups⟩ := segments_eq_ok_iff.mp hfound
  obtain ⟨tokens, hlexes, rfl⟩ := hsays 0
  have hfew : found.length ≤ definition.length := by
    have hsegments := hgroups.length_le
    have htokens := hlexes.length_le
    simp at hsegments
    omega
  obtain ⟨i, hi, rfl⟩ := List.mem_iff_getElem.mp (List.mem_reverse.mp hr)
  rw [length_requestsOf] at hi
  simp [requestsOf]
  omega

end Counting

section Commands

/-- A list of requests is read back from each of its texts, also with a line feed
behind it. -/
theorem readRequests?_texts {requests : List Request}
    (h : ∀ r ∈ requests, Numeric.fitsUnsigned 64 r.index = true) :
    readRequests? (requestsToJson requests).toCompact = some requests ∧
      readRequests? (requestsToJson requests).toIndented = some requests ∧
      readRequests? ((requestsToJson requests).toIndented ++ ['\n']) = some requests := by
  obtain ⟨hcompact, hindented, hprinted⟩ := Json.read?_texts (isPlain_requestsToJson requests)
  have hdecode := requestsOfJson?_requestsToJson h
  simp [readRequests?, hcompact, hindented, hprinted, hdecode]

/-- The run of a command under settings that were loaded. -/
theorem run_ok (command : Command) (settings : Settings) :
    command.run (.ok settings) = (command.output settings.parser).mapError ParseError.message := by
  rw [Command.run]
  cases command.output settings.parser <;> rfl

/-- What is printed for a pipeline is read as its requests. -/
theorem readRequests?_run (settings : Settings) (group : Text) {definition : Text}
    (h : Numeric.fitsUnsigned 64 definition.length = true) :
    ((Command.parse group definition true).run (.ok settings)).map readRequests? = do
      let requests ← (parse settings.parser group definition).mapError ParseError.message
      return some requests := by
  rw [run_ok, Command.output]
  cases hparse : parse settings.parser group definition with
  | error e => rfl
  | ok requests =>
    have hfits : ∀ r ∈ requests, Numeric.fitsUnsigned 64 r.index = true := by
      intro r hr
      have hlt := index_lt_of_parse hparse hr
      simp only [Numeric.fitsUnsigned, decide_eq_true_eq] at h ⊢
      omega
    exact congrArg Except.ok (readRequests?_texts hfits).2.2

/-- What is printed for a single module is read as its options. -/
theorem readOptions?_run (settings : Settings) (text : Text) :
    ((Command.params text).run (.ok settings)).map OptionMap.read? = do
      let options ← (parameters settings.parser text).mapError ParseError.message
      return some options := by
  rw [run_ok, Command.output]
  cases parameters settings.parser text with
  | error e => rfl
  | ok options =>
    have hread := (Json.read?_texts options.isPlain_toJson).2.2
    have hoptions : OptionMap.read? (options.toJson.toIndented ++ ['\n']) = some options := by
      rw [OptionMap.read?, hread]
      exact options.ofJson?_toJson
    exact congrArg Except.ok hoptions

/-- The output of a command that succeeds is what is logged and what it prints. -/
theorem written_of_run {command : Command} {logger : Logger}
    {loaded : Except SettingsError Settings} {printed : Text}
    (h : command.run loaded = .ok printed) :
    command.written logger loaded = command.log logger loaded ++ printed := by
  rw [Command.written, h]
  rfl

/-- The output of a command that fails is what is logged. -/
theorem written_of_run_error {command : Command} {logger : Logger}
    {loaded : Except SettingsError Settings} {message : String}
    (h : command.run loaded = .error message) :
    command.written logger loaded = command.log logger loaded := by
  rw [Command.written, h]
  exact List.append_nil _

/-- Requests pass through JSON unchanged. A request with a 64-bit index is read
back from both of its texts, whatever characters its strings hold, and so is a
list of such requests. Under any outcome of loading the settings, the JSON that
is printed for a pipeline is read as the requests of the pipeline, in their
order, and the JSON printed for a single module as its options. However events
are logged, the standard output is what is logged with what is printed behind
it. If nothing else is asked for, nothing is logged exactly if the command would
end in the same way with repeated keys refused, and then what is printed is the
whole output. -/
theorem requests_read_back :
    (∀ r : Request, Numeric.fitsUnsigned 64 r.index = true →
      Request.read? r.toJson.toCompact = some r ∧ Request.read? r.toJson.toIndented = some r) ∧
    (∀ requests : List Request, (∀ r ∈ requests, Numeric.fitsUnsigned 64 r.index = true) →
      readRequests? (requestsToJson requests).toCompact = some requests ∧
        readRequests? (requestsToJson requests).toIndented = some requests) ∧
    (∀ (loaded : Except SettingsError Settings) (group definition : Text),
      Numeric.fitsUnsigned 64 definition.length = true →
      ((Command.parse group definition true).run loaded).map readRequests? = do
        let settings ← loaded.mapError SettingsError.message
        let requests ← (parse settings.parser group definition).mapError ParseError.message
        return some requests) ∧
    (∀ (loaded : Except SettingsError Settings) (text : Text),
      ((Command.params text).run loaded).map OptionMap.read? = do
        let settings ← loaded.mapError SettingsError.message
        let options ← (parameters settings.parser text).mapError ParseError.message
        return some options) ∧
    (∀ (logger : Logger) (command : Command) (loaded : Except SettingsError Settings),
      (∀ printed, command.run loaded = .ok printed →
        command.written logger loaded = command.log logger loaded ++ printed) ∧
      ∀ message, command.run loaded = .error message →
        command.written logger loaded = command.log logger loaded) ∧
    ∀ logger : Logger, (∀ e, logger.logs e = e.level.isLogged) →
      ∀ (command : Command) (settings : Settings),
        command.log logger (.ok settings) = [] ↔
          command.output { settings.parser with repeatedKeys := .reject } =
            command.output settings.parser := by
  refine ⟨fun r hr => ?_, fun requests h => ?_, fun loaded group definition h => ?_,
    fun loaded text => ?_, fun logger command loaded => ?_,
    fun logger hlogs => log_eq_nil_iff hlogs⟩
  · obtain ⟨hcompact, hindented, -⟩ := Json.read?_texts r.isPlain_toJson
    have hdecode := Request.ofJson?_toJson hr
    simp [Request.read?, hcompact, hindented, hdecode]
  · obtain ⟨hcompact, hindented, -⟩ := readRequests?_texts h
    exact ⟨hcompact, hindented⟩
  · cases loaded with
    | error e => rfl
    | ok settings => exact readRequests?_run settings group h
  · cases loaded with
    | error e => rfl
    | ok settings => exact readOptions?_run settings text
  · exact ⟨fun _ h => written_of_run h, fun _ h => written_of_run_error h⟩

/-- The usual log with one time for all lines. -/
def stampedLogger : Logger :=
  .standard fun _ => ['2', '0', '2', '6', '-', '0', '1', '-', '0', '1', 'T', '0', '0', ':', '0',
    '0', ':', '0', '0', '.', '0', '0', '0', '0', '0', '0', 'Z', ' ']

theorem requests_read_back_sample :
    let r : Request := ⟨['"', '\\', '\n', '\x01', 'é'], ['g'], 18446744073709551615, .sink,
      .ofList [(['k'], ['\t', '\x7f'])]⟩
    Request.read? r.toJson.toCompact = some r ∧
      readRequests? (requestsToJson [r, r]).toIndented = some [r, r] ∧
      ((Command.parse ['s'] "t | l".toList true).run (.ok {})).map readRequests? =
        .ok (some [⟨['l'], ['s'], 1, .sink, .empty⟩, ⟨['t'], ['s'], 0, .source, .empty⟩]) ∧
      readRequests? ((Command.parse ['s'] "t | l".toList true).written stampedLogger (.ok {})) =
        some [⟨['l'], ['s'], 1, .sink, .empty⟩, ⟨['t'], ['s'], 0, .source, .empty⟩] := by
  intro r
  obtain ⟨hone, hlist, hparse, -, hwritten, hlog⟩ := requests_read_back
  have hr : Numeric.fitsUnsigned 64 r.index = true := by decide
  have hrun : ((Command.parse ['s'] "t | l".toList true).run (.ok {})).map readRequests? =
      .ok (some [⟨['l'], ['s'], 1, .sink, .empty⟩, ⟨['t'], ['s'], 0, .source, .empty⟩]) := by
    rw [hparse (.ok {}) ['s'] "t | l".toList (by decide)]
    have hread : parse {} ['s'] "t | l".toList =
        .ok [⟨['l'], ['s'], 1, .sink, .empty⟩, ⟨['t'], ['s'], 0, .source, .empty⟩] := by cbv
    change (do
      let requests ← (parse {} ['s'] "t | l".toList).mapError ParseError.message
      return some requests) = _
    rw [hread]
    rfl
  refine ⟨(hone r hr).1, (hlist [r, r] ?_).2, hrun, ?_⟩
  · intro r' hr'
    rcases List.mem_cons.mp hr' with rfl | hr'
    · exact hr
    · rw [List.mem_singleton.mp hr']
      exact hr
  · obtain ⟨printed, hprinted, hread⟩ := Except.map_eq_ok_iff.mp hrun
    have hquiet := (hlog stampedLogger (fun _ => rfl)
      (.parse ['s'] "t | l".toList true) {}).mpr rfl
    rw [(hwritten stampedLogger _ _).1 printed hprinted, hquiet]
    exact hread

/-- Settings that let repeated keys through. -/
def lastWinsSettings : Settings := { parser := ⟨.lastWins, false⟩ }

/-- The tokens of a module that repeats a key. -/
theorem tokenize_repeatedKey :
    tokenize (lastWinsSettings.parser.dialect true) "m --k=1 --k=2".toList =
      .ok [⟨.name ['m'], ['m'], 0⟩, ⟨.option ['k'] ['1'], "--k=1".toList, 2⟩,
        ⟨.option ['k'] ['2'], "--k=2".toList, 8⟩] := by
  have hlast : tokensFrom ⟨false, true⟩ false 8 "--k=2".toList =
      .ok [⟨.option ['k'] ['2'], "--k=2".toList, 8⟩] := by
    have hstands : Stands ⟨false, true⟩ false ⟨.option ['k'] ['2'], "--k=2".toList⟩ [] :=
      @Stands.option _ ['k'] ['2'] [] (by decide) (by decide) (by decide) (by decide)
    refine (@tokensFrom_stands _ false 8 _ _ hstands).trans ?_
    rw [tokensFrom_nil]
    rfl
  have hfirst : tokensFrom ⟨false, true⟩ false 2 "--k=1 --k=2".toList =
      .ok [⟨.option ['k'] ['1'], "--k=1".toList, 2⟩,
        ⟨.option ['k'] ['2'], "--k=2".toList, 8⟩] := by
    have hstands : Stands ⟨false, true⟩ false ⟨.option ['k'] ['1'], "--k=1".toList⟩
        " --k=2".toList :=
      @Stands.option _ ['k'] ['1'] " --k=2".toList (by decide) (by decide) (by decide) (by decide)
    refine (@tokensFrom_stands _ false 2 _ _ hstands).trans ?_
    change (tokensFrom ⟨false, true⟩ false 7 (' ' :: "--k=2".toList)).map _ = _
    rw [tokensFrom_blank (by decide), hlast]
    rfl
  refine (@tokensFrom_stands ⟨false, true⟩ true 0 ⟨.name ['m'], ['m']⟩ " --k=1 --k=2".toList
    (.name (by decide) (by decide))).trans ?_
  change (tokensFrom ⟨false, true⟩ false 1 (' ' :: "--k=1 --k=2".toList)).map _ = _
  rw [tokensFrom_blank (by decide), hfirst]
  rfl

/-- What begins like a date is no JSON. -/
theorem read?_stamped (t : Text) : Json.read? ('2' :: '0' :: '2' :: '6' :: '-' :: t) = none := by
  rw [Json.read?, Json.cutValue?]
  rfl

/-- With a repeated key that is let through, what is logged stands before the
JSON, and the whole output is no JSON. -/
theorem override_logged_first :
    parameters lastWinsSettings.parser "m --k=1 --k=2".toList = .ok (.ofList [(['k'], ['2'])]) ∧
      OptionMap.read? ((Command.params "m --k=1 --k=2".toList).written stampedLogger
        (.ok lastWinsSettings)) ≠ some (.ofList [(['k'], ['2'])]) := by
  have hoptions : parameters lastWinsSettings.parser "m --k=1 --k=2".toList =
      .ok (.ofList [(['k'], ['2'])]) := by
    rw [parameters_eq, segments_of_nonblank (by decide), tokenize_repeatedKey]
    rfl
  have hevents : (Command.params "m --k=1 --k=2".toList).events lastWinsSettings.parser = _ :=
    segmentEvents_of_tokenize (by decide) tokenize_repeatedKey
  have hread : OptionMap.read? ((Command.params "m --k=1 --k=2".toList).written stampedLogger
      (.ok lastWinsSettings)) = none := by
    rw [Command.written, Command.log, hevents, OptionMap.read?]
    exact congrArg (· >>= OptionMap.ofJson?) (read?_stamped _)
  refine ⟨hoptions, ?_⟩
  rw [hread]
  exact (Option.some_ne_none _).symm

end Commands

end DataPipeline.Definition
