import DataPipeline.Proofs.Record.SelectionText
import DataPipeline.Record.Access

/-!
# The language of selections

An expression is read by its body, which is what stands between the braces if
there are braces around all of it, and otherwise all of it. There must be a name
before, between and after the dots of everything between its commas. A selection
that is read is written in one form, and this form is read back: trimming the
names of a path leaves its first and its last character, so it neither makes
braces nor a star of what was none.
-/

namespace DataPipeline

open Text

section Joining

variable {mark c : Char} {sep first last : Text} {parts : List Text}

/-- A joined text begins as its first part does. -/
theorem head?_intercalate (h : first ≠ []) :
    (sep.intercalate (first :: parts)).head? = first.head? := by
  obtain ⟨c, t, rfl⟩ := List.exists_cons_of_ne_nil h
  rw [List.intercalate_cons_cons_left, List.head?_cons, List.head?_cons]

/-- A joined text ends as its last part does. -/
theorem getLast?_intercalate (h : last ≠ []) :
    (sep.intercalate (parts ++ [last])).getLast? = last.getLast? := by
  have hsome : last.getLast? = some (last.getLast h) := List.getLast?_eq_some_getLast h
  induction parts with
  | nil => rw [List.nil_append, List.intercalate_singleton]
  | cons part parts ih =>
    have hne : parts ++ [last] ≠ [] := List.append_ne_nil_of_right_ne_nil _ (List.cons_ne_nil _ _)
    rw [List.cons_append, List.intercalate_cons_of_ne_nil hne, List.getLast?_append, ih, hsome,
      Option.some_or]

/-- A character that does not join the parts of a text comes from one of them. -/
theorem mem_intercalate_iff (h : c ∉ sep) :
    c ∈ sep.intercalate parts ↔ ∃ part ∈ parts, c ∈ part := by
  induction parts with
  | nil => simp
  | cons part parts ih =>
    cases parts with
    | nil => simp
    | cons second parts =>
      rw [List.intercalate_cons_cons, List.mem_append, List.mem_append, ih]
      simp [h]

end Joining

namespace FieldPath

variable {t : Text} {p : FieldPath}

/-- Well-formed paths are read back from their texts. -/
theorem ofText_text (h : p.WellFormed) : ofText p.text = p := by
  have hnames : p.segments.map trim = p.segments :=
    (List.map_congr_left fun s hs => trim_eq_self_iff.mpr (h.trimmed s hs)).trans (List.map_id _)
  rw [ofText, splitOn_text h, hnames]

/-- A well-formed path is written with a name between all its dots. -/
theorem hasNames_text (h : p.WellFormed) : HasNames p.text := by
  rw [hasNames_iff, ofText_text h]
  exact h.named

/-- The text of a path has the characters of the text that it is read from, but
for blanks. -/
theorem mem_text_ofText {c : Char} (hdot : c ≠ '.') (h : c ∈ (ofText t).text) : c ∈ t := by
  have hsep : c ∉ ['.'] := by simpa using hdot
  rw [text, mem_intercalate_iff hsep] at h
  obtain ⟨s, hs, hc⟩ := h
  obtain ⟨part, hpart, rfl⟩ := List.mem_map.mp hs
  have hjoin : ['.'].intercalate (t.splitOn '.') = t := List.intercalate_splitOn '.'
  rw [←hjoin, mem_intercalate_iff hsep]
  exact ⟨part, hpart, mem_of_mem_trim hc⟩

/-- In a text with names something is left of every part when it is trimmed. -/
theorem trim_ne_nil (h : HasNames t) {part : Text} (hpart : part ∈ t.splitOn '.') :
    trim part ≠ [] := by
  rw [ne_eq, trim_eq_nil_iff, h part hpart]
  exact Bool.false_ne_true

/-- Trimming the names of a trimmed path keeps its first character. -/
theorem head?_text_ofText (h : HasNames t) (ht : IsTrimmed t) :
    (ofText t).text.head? = t.head? := by
  obtain ⟨first, parts, hparts⟩ := List.exists_cons_of_ne_nil (List.splitOn_ne_nil '.' t)
  have hjoin : ['.'].intercalate (first :: parts) = t := by
    rw [←hparts, List.intercalate_splitOn]
  have htrim : trim first ≠ [] := trim_ne_nil h (by rw [hparts]; exact List.mem_cons_self)
  have hfirst : first ≠ [] := by
    rintro rfl
    exact htrim rfl
  have hhead : t.head? = first.head? := by rw [←hjoin, head?_intercalate hfirst]
  obtain ⟨c, u, rfl⟩ := List.exists_cons_of_ne_nil hfirst
  rw [List.head?_cons] at hhead
  rw [text, ofText, hparts, List.map_cons, head?_intercalate htrim, hhead,
    head?_trim rfl (ht.head c hhead)]

/-- Trimming the names of a trimmed path keeps its last character. -/
theorem getLast?_text_ofText (h : HasNames t) (ht : IsTrimmed t) :
    (ofText t).text.getLast? = t.getLast? := by
  have hne : t.splitOn '.' ≠ [] := List.splitOn_ne_nil '.' t
  obtain ⟨parts, last, hparts⟩ : ∃ parts last, t.splitOn '.' = parts ++ [last] :=
    ⟨_, _, (List.dropLast_concat_getLast hne).symm⟩
  have hjoin : ['.'].intercalate (parts ++ [last]) = t := by
    rw [←hparts, List.intercalate_splitOn]
  have htrim : trim last ≠ [] :=
    trim_ne_nil h (by rw [hparts]; exact List.mem_append_right _ List.mem_cons_self)
  have hlast : last ≠ [] := by
    rintro rfl
    exact htrim rfl
  have hend : t.getLast? = last.getLast? := by rw [←hjoin, getLast?_intercalate hlast]
  have hsome : last.getLast? = some (last.getLast hlast) := List.getLast?_eq_some_getLast hlast
  rw [text, ofText, hparts, List.map_append, List.map_singleton, getLast?_intercalate htrim, hend,
    hsome, getLast?_trim hsome (ht.last _ (hend.trans hsome))]

/-- A path has no blanks around it if it was read from such a text. -/
theorem isTrimmed_text_ofText (h : HasNames t) (ht : IsTrimmed t) : IsTrimmed (ofText t).text where
  head c hc := ht.head c (by rwa [←head?_text_ofText h ht])
  last c hc := ht.last c (by rwa [←getLast?_text_ofText h ht])

/-- A single name is the text of its path only when it is the text already. -/
theorem eq_of_text_ofText {name : Text} (h : HasNames t) (ht : IsTrimmed t) (hdot : '.' ∉ name)
    (hname : (ofText t).text = name) : t = name := by
  have hsegments : (t.splitOn '.').map trim = [name] := by
    rw [←List.splitOn_eq_singleton hdot, ←hname, splitOn_text (wellFormed_ofText h), ofText]
  obtain ⟨part, hpart, htrim⟩ := List.map_eq_singleton_iff.mp hsegments
  have hjoin : ['.'].intercalate (t.splitOn '.') = t := List.intercalate_splitOn '.'
  have hwhole : t = part := by rw [←hjoin, hpart, List.intercalate_singleton]
  rw [←htrim, ←hwhole, trim_eq_self_iff.mpr ht]

end FieldPath

/-- What an expression lists, and whether it stands in braces. -/
inductive Lists : (expression : Text) → (braced : Bool) → (body : Text) → Prop
  | braces (body : Text) : Lists ('\x7b' :: (body ++ ['\x7d'])) true body
  | bare {expression : Text} (h : ∀ body, expression ≠ '\x7b' :: (body ++ ['\x7d'])) :
      Lists expression false expression

section Braces

variable {t start ending body : Text}

/-- An ending is dropped exactly if the text ends with it. -/
theorem dropEnd?_eq_some_iff : dropEnd? ending t = some start ↔ t = start ++ ending := by
  rw [dropEnd?, Option.map_eq_some_iff]
  constructor
  · rintro ⟨u, hu, rfl⟩
    rw [←List.reverse_reverse t, dropStart?_eq_some_iff.mp hu, List.reverse_append,
      List.reverse_reverse]
  · rintro rfl
    have hends : (start ++ ending).reverse = ending.reverse ++ start.reverse :=
      List.reverse_append
    exact ⟨start.reverse, dropStart?_eq_some_iff.mpr hends, List.reverse_reverse start⟩

/-- Braces are dropped exactly if the text begins and ends with them. -/
theorem unbraced?_eq_some_iff : unbraced? t = some body ↔ t = '\x7b' :: (body ++ ['\x7d']) := by
  rw [unbraced?.eq_def]
  split
  · next rest => rw [dropEnd?_eq_some_iff, List.cons.injEq, eq_self, true_and]
  · next hne => exact iff_of_false (by simp) fun h => hne _ h

/-- Braces stand around a text exactly when it begins and ends with them. -/
theorem exists_braces_iff :
    (∃ body, t = '\x7b' :: (body ++ ['\x7d'])) ↔
      t.head? = some '\x7b' ∧ t.getLast? = some '\x7d' := by
  constructor
  · rintro ⟨body, rfl⟩
    exact ⟨rfl, by rw [←List.cons_append, List.getLast?_concat]⟩
  · rintro ⟨hhead, hlast⟩
    obtain ⟨rest, rfl⟩ := List.head?_eq_some_iff.mp hhead
    have hne : rest ≠ [] := by
      rintro rfl
      cases hlast
    rw [List.getLast?_cons_of_ne_nil hne] at hlast
    obtain ⟨body, rfl⟩ := List.getLast?_eq_some_iff.mp hlast
    exact ⟨body, rfl⟩

/-- Every text lists something, with braces or without. -/
theorem exists_lists (t : Text) : ∃ braced body, Lists t braced body := by
  by_cases h : ∃ body, t = '\x7b' :: (body ++ ['\x7d'])
  · obtain ⟨body, rfl⟩ := h
    exact ⟨true, body, .braces body⟩
  · exact ⟨false, t, .bare fun body heq => h ⟨body, heq⟩⟩

end Braces

section Reading

variable {e t body : Text} {ts : List Text} {braced : Bool} {s : Selection}

/-- A path with a blank name is refused. -/
theorem parse_of_not_hasNames (h : ¬HasNames t) :
    FieldPath.parse t = .error (.emptySegment t) := by
  cases hparse : FieldPath.parse t with
  | ok p => exact absurd (FieldPath.parse_eq_ok_iff.mp hparse).1 h
  | error fault =>
    rw [FieldPath.parse] at hparse
    split at hparse <;> cases hparse
    rfl

/-- Of several paths the first one that lacks a name is reported. -/
theorem mapM_parse_eq (ts : List Text) :
    ts.mapM FieldPath.parse =
      match ts.find? fun t => !decide (HasNames t) with
      | some t => .error (.emptySegment t)
      | none => .ok (ts.map .ofText) := by
  induction ts with
  | nil => rfl
  | cons t ts ih =>
    rw [List.mapM_cons, ih]
    by_cases h : HasNames t
    · rw [FieldPath.parse_eq_ok_iff.mpr ⟨h, rfl⟩, List.find?_cons_of_neg (by simpa using h)]
      cases ts.find? fun t => !decide (HasNames t) <;> rfl
    · rw [parse_of_not_hasNames h, List.find?_cons_of_pos (by simpa using h)]
      rfl

/-- What is selected by an expression with this body, once all of its parts have
their names. -/
def listed (braced : Bool) (body : Text) : Selection :=
  if braced = true ∨ ',' ∈ body then .project ((body.splitOn ',').map .ofText)
  else .path (.ofText body)

/-- An expression is read by what it lists. -/
theorem parse_eq_of_lists (h : Lists (trim e) braced body) :
    Selection.parse e =
      if trim e = [] then .error .blank
      else if trim e = ['*'] then .ok .all
      else match (body.splitOn ',').find? fun t => !decide (HasNames t) with
        | some t => .error (.emptySegment t)
        | none => .ok (listed braced body) := by
  have hlist (body : Text) (hlisted : braced = true ∨ ',' ∈ body) :
      ((body.splitOn ',').mapM FieldPath.parse).map Selection.project =
        match (body.splitOn ',').find? fun t => !decide (HasNames t) with
        | some t => .error (.emptySegment t)
        | none => .ok (listed braced body) := by
    rw [mapM_parse_eq, listed, if_pos hlisted]
    cases (body.splitOn ',').find? fun t => !decide (HasNames t) <;> rfl
  rw [Selection.parse]
  generalize trim e = trimmed at h ⊢
  congr 2
  cases h with
  | braces body => rw [unbraced?_eq_some_iff.mpr rfl, ←hlist body (.inl rfl)]
  | bare h =>
    have hnone : unbraced? body = none := by
      rw [Option.eq_none_iff_forall_ne_some]
      exact fun inner hinner => h inner (unbraced?_eq_some_iff.mp hinner)
    rw [hnone]
    dsimp only
    by_cases hcomma : ',' ∈ body
    · rw [if_pos hcomma, hlist body (.inr hcomma)]
    · rw [if_neg hcomma, List.splitOn_eq_singleton hcomma, listed, if_neg (by simp [hcomma])]
      by_cases hnames : HasNames body
      · rw [FieldPath.parse_eq_ok_iff.mpr ⟨hnames, rfl⟩,
          List.find?_cons_of_neg (by simpa using hnames)]
        rfl
      · rw [parse_of_not_hasNames hnames, List.find?_cons_of_pos (by simpa using hnames)]
        rfl

/-- An expression is read exactly when it is a star or all of its parts have
their names. -/
theorem parse_eq_ok_iff_of_lists (h : Lists (trim e) braced body) :
    Selection.parse e = .ok s ↔
      trim e = ['*'] ∧ s = .all ∨
        trim e ≠ [] ∧ trim e ≠ ['*'] ∧ (∀ part ∈ body.splitOn ',', HasNames part) ∧
          s = listed braced body := by
  rw [parse_eq_of_lists h]
  by_cases hnil : trim e = []
  · simp [hnil]
  by_cases hstar : trim e = ['*']
  · simp [hstar, eq_comm]
  rw [if_neg hnil, if_neg hstar]
  cases hfind : (body.splitOn ',').find? fun t => !decide (HasNames t) with
  | some part =>
    have hpart : ¬HasNames part := by simpa using List.find?_some hfind
    have hbad : ¬∀ part ∈ body.splitOn ',', HasNames part :=
      fun hall => hpart (hall part (List.mem_of_find?_eq_some hfind))
    simp [hstar, hbad]
  | none =>
    have hall : ∀ part ∈ body.splitOn ',', HasNames part := by
      simpa [List.find?_eq_none] using hfind
    rw [Except.ok.injEq]
    exact ⟨fun h => .inr ⟨hnil, hstar, hall, h.symm⟩,
      fun h => h.elim (fun h => absurd h.1 hstar) fun h => h.2.2.2.symm⟩

/-- A name is missing exactly if there are only blanks between two dots. -/
theorem not_hasNames_iff : ¬HasNames t ↔ ∃ name ∈ t.splitOn '.', isAllBlank name = true := by
  simp [HasNames]

/-- An expression is refused exactly when it is blank, or is no star and has a part
that lacks a name. -/
theorem parse_eq_error_iff_of_lists (h : Lists (trim e) braced body) :
    (∃ fault, Selection.parse e = .error fault) ↔
      trim e = [] ∨ trim e ≠ ['*'] ∧ ∃ part ∈ body.splitOn ',', ¬HasNames part := by
  have hread : (∃ fault, Selection.parse e = .error fault) ↔ ¬∃ s, Selection.parse e = .ok s := by
    cases Selection.parse e <;> simp
  simp only [hread, parse_eq_ok_iff_of_lists h, exists_or, exists_and_left, exists_eq, and_true,
    not_or, not_and, not_forall]
  constructor
  · rintro ⟨hstar, hbad⟩
    refine or_iff_not_imp_left.mpr fun hnil => ⟨hstar, ?_⟩
    simpa using hbad hnil hstar
  · rintro (hnil | ⟨hstar, part, hpart, hbad⟩)
    · simp [hnil]
    · exact ⟨hstar, fun _ _ => ⟨part, hpart, hbad⟩⟩

end Reading

section Writing

variable {e t body : Text} {braced : Bool} {s : Selection}

/-- A path that is read without braces is written as an expression that is read
as this path. -/
theorem parse_text_path (hbare : ∀ body, t ≠ '\x7b' :: (body ++ ['\x7d'])) (hcomma : ',' ∉ t)
    (hstar : t ≠ ['*']) (ht : IsTrimmed t) (hnames : HasNames t) :
    Selection.parse (FieldPath.ofText t).text = .ok (.path (.ofText t)) := by
  have hwell : (FieldPath.ofText t).WellFormed := FieldPath.wellFormed_ofText hnames
  have htrim : trim (FieldPath.ofText t).text = (FieldPath.ofText t).text :=
    trim_eq_self_iff.mpr (FieldPath.isTrimmed_text_ofText hnames ht)
  have hbare' : ∀ body, (FieldPath.ofText t).text ≠ '\x7b' :: (body ++ ['\x7d']) := by
    intro body hbody
    have hends := exists_braces_iff.mp ⟨body, hbody⟩
    rw [FieldPath.head?_text_ofText hnames ht, FieldPath.getLast?_text_ofText hnames ht] at hends
    obtain ⟨body', hbody'⟩ := exists_braces_iff.mpr hends
    exact hbare body' hbody'
  have hcomma' : ',' ∉ (FieldPath.ofText t).text :=
    fun hmem => hcomma (FieldPath.mem_text_ofText (by decide) hmem)
  have hstar' : (FieldPath.ofText t).text ≠ ['*'] :=
    fun heq => hstar (FieldPath.eq_of_text_ofText hnames ht (by decide) heq)
  have hlists : Lists (trim (FieldPath.ofText t).text) false (FieldPath.ofText t).text := by
    rw [htrim]
    exact .bare hbare'
  refine (parse_eq_ok_iff_of_lists hlists).mpr (.inr ⟨?_, ?_, ?_, ?_⟩)
  · rw [htrim]
    exact FieldPath.text_ne_nil hwell
  · rw [htrim]
    exact hstar'
  · rw [List.splitOn_eq_singleton hcomma']
    exact List.forall_mem_singleton.mpr (FieldPath.hasNames_text hwell)
  · rw [listed, if_neg (by simp [hcomma']), FieldPath.ofText_text hwell]

/-- Paths that are read from a list are written as a list in braces that is read
as these paths. -/
theorem parse_text_project {ts : List Text} (hne : ts ≠ []) (hcomma : ∀ t ∈ ts, ',' ∉ t)
    (hnames : ∀ t ∈ ts, HasNames t) :
    Selection.parse (Selection.project (ts.map .ofText)).text =
      .ok (.project (ts.map .ofText)) := by
  have hwell : ∀ p ∈ ts.map FieldPath.ofText, p.WellFormed :=
    FieldPath.wellFormed_of_mem_map hnames
  have hlistable : ∀ t ∈ (ts.map FieldPath.ofText).map FieldPath.text, Listable t := by
    intro text htext
    obtain ⟨p, hp, rfl⟩ := List.mem_map.mp htext
    obtain ⟨t, ht, rfl⟩ := List.mem_map.mp hp
    exact ⟨FieldPath.hasNames_text (hwell _ hp),
      fun hmem => hcomma t ht (FieldPath.mem_text_ofText (by decide) hmem)⟩
  have htexts : (((ts.map FieldPath.ofText).map FieldPath.text).map FieldPath.ofText) =
      ts.map .ofText := by
    rw [List.map_map]
    exact (List.map_congr_left fun p hp => FieldPath.ofText_text (hwell p hp)).trans (List.map_id _)
  have hnil : isAllBlank [] = true := rfl
  have hread := Selection.parse_listing (by simpa using hne) hlistable hnil hnil
  rw [htexts] at hread
  exact hread

/-- Every selection that is read is written as an expression that is read as the
same selection. -/
theorem parse_text (h : Selection.parse e = .ok s) : Selection.parse s.text = .ok s := by
  obtain ⟨braced, body, hlists⟩ := exists_lists (trim e)
  rcases (parse_eq_ok_iff_of_lists hlists).mp h with ⟨-, rfl⟩ | ⟨-, hstar, hnames, rfl⟩
  · rfl
  have hproject : Selection.parse (Selection.project ((body.splitOn ',').map .ofText)).text =
      .ok (.project ((body.splitOn ',').map .ofText)) :=
    parse_text_project (List.splitOn_ne_nil ',' body) (fun t ht => not_mem_of_mem_splitOn ht) hnames
  rw [listed]
  split
  · exact hproject
  · next hpath =>
    obtain ⟨hbraced, hcomma⟩ := not_or.mp hpath
    have htrimmed := isTrimmed_trim e
    generalize trim e = trimmed at *
    cases hlists with
    | braces => exact absurd rfl hbraced
    | bare hbare =>
      rw [List.splitOn_eq_singleton hcomma] at hnames
      exact parse_text_path hbare hcomma hstar htrimmed (hnames _ List.mem_cons_self)

end Writing

/-- The language of selections. Every expression lists something: what is between
the braces if it begins and ends with them, and otherwise itself. It is refused
exactly when it is blank, or is no star and there is nothing but blanks before,
between or after the dots of one of the parts between its commas; the report
shows it as it is. Otherwise a star selects everything, a body without braces and
commas the path of its names, and anything else the projection onto the paths of
its parts; the names have no blanks around them. What is selected can be written
down and read back. -/
theorem selection_language (e : Text) :
    (∃ braced body, Lists (trim e) braced body) ∧
    ∀ braced body, Lists (trim e) braced body →
      ((∃ fault, Selection.parse e = .error fault) ↔
        trim e = [] ∨ trim e ≠ ['*'] ∧
          ∃ part ∈ body.splitOn ',', ∃ name ∈ part.splitOn '.', isAllBlank name = true) ∧
      (∀ fault, Selection.parse e = .error fault → ∀ (σ : Type) (r : Record σ) (stamp : Stamp),
        r.select e stamp = .error (.invalidSelection e fault)) ∧
      ∀ s, Selection.parse e = .ok s →
        (s = .all ↔ trim e = ['*']) ∧
        (s = .path (.ofText body) ↔ trim e ≠ ['*'] ∧ braced = false ∧ ',' ∉ body) ∧
        (s = .project ((body.splitOn ',').map .ofText) ↔
          trim e ≠ ['*'] ∧ (braced = true ∨ ',' ∈ body)) ∧
        Selection.parse s.text = .ok s := by
  refine ⟨exists_lists (trim e), fun braced body hlists => ⟨?_, ?_, fun s hs => ?_⟩⟩
  · rw [parse_eq_error_iff_of_lists hlists]
    simp only [not_hasNames_iff]
  · intro fault hfault σ r stamp
    rw [Record.select, hfault]
  · have hback := parse_text hs
    rcases (parse_eq_ok_iff_of_lists hlists).mp hs with ⟨hstar, rfl⟩ | ⟨-, hstar, -, rfl⟩
    · simp [hstar, hback]
    · by_cases hlist : braced = true ∨ ',' ∈ body
      · have hlisted : listed braced body = .project ((body.splitOn ',').map .ofText) :=
          if_pos hlist
        have hno : ¬(braced = false ∧ ',' ∉ body) := by
          rintro ⟨rfl, hcomma⟩
          exact hlist.elim Bool.false_ne_true hcomma
        rw [hlisted] at hback ⊢
        simp [hstar, hlist, hno, hback]
      · have hlisted : listed braced body = .path (.ofText body) := if_neg hlist
        obtain ⟨hbraced, hcomma⟩ := not_or.mp hlist
        rw [hlisted] at hback ⊢
        simp [hstar, hbraced, hcomma, hback]

/-- Braces around a star and a brace, and a path that begins and ends like them. -/
theorem selection_language_sample :
    let e := " \x7b\x7d . a , *\x7d".toList
    let s : Selection := .project [⟨["\x7d".toList, "a".toList]⟩, ⟨["*".toList]⟩]
    Lists (trim e) true "\x7d . a , *".toList ∧ Selection.parse e = .ok s ∧
      s.text = "\x7b\x7d.a,*\x7d".toList ∧ Selection.parse s.text = .ok s ∧
      Lists (trim "\x7b,".toList) false "\x7b,".toList ∧
      ∃ fault, Selection.parse "\x7b,".toList = .error fault := by
  intro e s
  have hlists : Lists (trim e) true "\x7d . a , *".toList := by
    have htrim : trim e = '\x7b' :: ("\x7d . a , *".toList ++ ['\x7d']) := by decide
    rw [htrim]
    exact .braces _
  have hparse : Selection.parse e = .ok s := rfl
  have hback := (((selection_language e).2 _ _ hlists).2.2 s hparse).2.2.2
  have hbare : Lists (trim "\x7b,".toList) false "\x7b,".toList := by
    have htrim : trim "\x7b,".toList = "\x7b,".toList := by decide
    rw [htrim]
    refine .bare fun body hbody => ?_
    have hend := (exists_braces_iff.mp ⟨body, hbody⟩).2
    exact absurd hend (by decide)
  have hrefused := ((selection_language "\x7b,".toList).2 _ _ hbare).1.mpr
    (.inr ⟨by decide, [], by decide, [], by decide, rfl⟩)
  exact ⟨hlists, hparse, by decide, hback, hbare, hrefused⟩

end DataPipeline
