import DataPipeline.Json.Decode
import DataPipeline.Proofs.Json.Reading

/-!
# Reading what was written

The text of a tree whose strings are texts and whose numbers are spelled as such
spells the tree, in every layout that puts nothing but blanks between the parts.
So the tree is read back from each of its texts.
-/

namespace DataPipeline.Json

open Text

/-- A layout that puts nothing but blanks between the parts, apart from the
colon. -/
structure Layout.IsBlank (layout : Layout) : Prop where
  /-- Lines are broken with blanks. -/
  lineBreak : ∀ depth, AreBlanks (layout.lineBreak depth)
  /-- Behind the colon there are blanks. -/
  colon : ∃ gap, layout.colon = ':' :: gap ∧ AreBlanks gap

/-- The compact layout writes only blanks between the parts. -/
theorem isBlank_compact : compact.IsBlank where
  lineBreak _ := List.forall_mem_nil _
  colon := ⟨[], rfl, List.forall_mem_nil _⟩

/-- The indented layout writes only blanks between the parts. -/
theorem isBlank_indented : indented.IsBlank where
  lineBreak depth c hc := by
    rcases List.mem_cons.mp hc with rfl | hc
    · rfl
    · rw [List.eq_of_mem_replicate hc]
      rfl
  colon := ⟨[' '], rfl, by intro c hc; rw [List.mem_singleton.mp hc]; rfl⟩

/-- A tree whose strings are texts and whose numbers are spelled as such. -/
inductive IsPlain : Json → Prop
  | null : IsPlain .null
  | bool (value : Bool) : IsPlain (.bool value)
  | number {literal : Text} (h : IsNumeral literal) : IsPlain (.number literal)
  | string (t : Text) : IsPlain (.string (some t))
  | array {items : List Json} (h : ∀ item ∈ items, IsPlain item) : IsPlain (.array items)
  | object {members : List (Option Text × Json)} (keys : ∀ m ∈ members, m.1.isSome = true)
      (values : ∀ m ∈ members, IsPlain m.2) : IsPlain (.object members)

section Spelling

/-- A value may stand behind blanks. -/
theorem Spells.behind {gap t : Text} {j : Json} (blank : AreBlanks gap) (h : Spells t j) :
    Spells (gap ++ t) j := by
  simpa using Spells.blanks blank (List.forall_mem_nil _) h

/-- A literal spells the text it is written for. -/
theorem spells_quote (t : Text) : Spells (quote (some t)) (.string (some t)) := by
  obtain ⟨body, hspells, htext⟩ := exists_spellsBody t
  have hliteral := Spells.string hspells
  rw [htext] at hliteral
  exact hliteral

/-- The decimal digits of a number spell it. -/
theorem isNumeral_toDigits (n : Nat) : IsNumeral (Nat.toDigits 10 n) := by
  have hwhole : IsWhole (Text.ofNat n) := by
    cases hdigits : Text.ofNat n with
    | nil => exact absurd hdigits (ofNat_ne_nil n)
    | cons c digits =>
      by_cases hzero : c = '0'
      · subst hzero
        obtain ⟨-, rfl⟩ := eq_zero_of_ofNat_eq hdigits
        exact .zero
      · refine .digits hzero ⟨List.cons_ne_nil _ _, ?_⟩
        rw [←hdigits]
        exact fun c hc => isDigit_of_mem_ofNat hc
  have hparts := IsNumeral.parts (.inl rfl) hwhole .none .none
  rw [List.nil_append, List.append_nil, List.append_nil] at hparts
  exact hparts

variable {layout : Layout} (hl : layout.IsBlank) {depth : Nat}
include hl

/-- The written items are spelled between the commas. The blanks before the
closing bracket go with the last one. -/
theorem exists_items {item : Json} {items : List Json}
    (h : ∀ i ∈ item :: items, Spells (write layout (depth + 1) i) i) :
    ∃ parts : List (Text × Json), parts.map Prod.snd = item :: items ∧
      (∀ part ∈ parts, Spells part.1 part.2) ∧
      layout.lineBreak (depth + 1) ++ write layout (depth + 1) item ++
        writeItems layout depth items = [','].intercalate (parts.map Prod.fst) ++ [']'] := by
  have hfront := hl.lineBreak (depth + 1)
  induction items generalizing item with
  | nil =>
    have hlast := Spells.blanks hfront (hl.lineBreak depth) (h item List.mem_cons_self)
    refine ⟨[⟨_, item⟩], rfl, List.forall_mem_singleton.mpr hlast, ?_⟩
    simp [writeItems]
  | cons next items ih =>
    obtain ⟨parts, hparts, hspells, htext⟩ := ih fun i hi => h i (List.mem_cons_of_mem _ hi)
    obtain ⟨part, parts, rfl, -⟩ := List.map_eq_cons_iff.mp hparts
    have hfirst := (h item List.mem_cons_self).behind hfront
    refine ⟨⟨_, item⟩ :: part :: parts, congrArg (item :: ·) hparts,
      List.forall_mem_cons.mpr ⟨hfirst, hspells⟩, ?_⟩
    rw [writeItems, htext]
    simp

/-- A written member is spelled with blanks around it. -/
theorem exists_member {before after : Text} (hbefore : AreBlanks before) (hafter : AreBlanks after)
    {member : Option Text × Json} (hkey : member.1.isSome = true)
    (h : Spells (write layout depth member.2) member.2) :
    ∃ part : MemberText, (part.key, part.value) = member ∧
      Spells part.keyText (.string part.key) ∧ Spells part.valueText part.value ∧
      part.text = before ++ writeMember layout depth member ++ after := by
  obtain ⟨key, value⟩ := member
  obtain ⟨key, rfl⟩ := Option.isSome_iff_exists.mp hkey
  obtain ⟨gap, hcolon, hgap⟩ := hl.colon
  refine ⟨⟨before ++ quote (some key), some key, gap ++ write layout depth value ++ after, value⟩,
    rfl, (spells_quote key).behind hbefore, .blanks hgap hafter h, ?_⟩
  simp [MemberText.text, writeMember, hcolon]

/-- The written members are spelled between the commas. -/
theorem exists_members {member : Option Text × Json} {members : List (Option Text × Json)}
    (hkeys : ∀ m ∈ member :: members, m.1.isSome = true)
    (h : ∀ m ∈ member :: members, Spells (write layout (depth + 1) m.2) m.2) :
    ∃ parts : List MemberText, parts.map (fun m => (m.key, m.value)) = member :: members ∧
      (∀ m ∈ parts, Spells m.keyText (.string m.key)) ∧
      (∀ m ∈ parts, Spells m.valueText m.value) ∧
      layout.lineBreak (depth + 1) ++ writeMember layout (depth + 1) member ++
        writeMembers layout depth members =
          [','].intercalate (parts.map MemberText.text) ++ ['\x7d'] := by
  have hfront := hl.lineBreak (depth + 1)
  induction members generalizing member with
  | nil =>
    obtain ⟨part, hpart, hkey, hvalue, htext⟩ := exists_member hl hfront (hl.lineBreak depth)
      (hkeys member List.mem_cons_self) (h member List.mem_cons_self)
    refine ⟨[part], congrArg ([·]) hpart, List.forall_mem_singleton.mpr hkey,
      List.forall_mem_singleton.mpr hvalue, ?_⟩
    rw [List.map_singleton, List.intercalate_singleton, htext, writeMembers,
      List.append_assoc _ _ ['\x7d']]
  | cons next members ih =>
    obtain ⟨part, hpart, hkey, hvalue, htext⟩ := exists_member hl hfront (List.forall_mem_nil _)
      (hkeys member List.mem_cons_self) (h member List.mem_cons_self)
    obtain ⟨parts, hparts, hkeys, hvalues, hrest⟩ :=
      ih (fun m hm => hkeys m (List.mem_cons_of_mem _ hm))
        (fun m hm => h m (List.mem_cons_of_mem _ hm))
    obtain ⟨second, parts, rfl, -⟩ := List.map_eq_cons_iff.mp hparts
    refine ⟨part :: second :: parts, congrArg₂ List.cons hpart hparts,
      List.forall_mem_cons.mpr ⟨hkey, hkeys⟩, List.forall_mem_cons.mpr ⟨hvalue, hvalues⟩, ?_⟩
    rw [writeMembers, hrest]
    simp [htext]

/-- The text of a plain tree spells the tree. -/
theorem spells_write {j : Json} (h : IsPlain j) (depth : Nat) :
    Spells (write layout depth j) j := by
  have hnone : AreBlanks [] := List.forall_mem_nil _
  induction h generalizing depth with
  | null => exact .null
  | bool value =>
    have hvalue := Spells.bool value
    cases value <;> exact hvalue
  | number numeral => exact .number numeral
  | string t => exact spells_quote t
  | @array items h ih =>
    cases items with
    | nil => exact @Spells.array [] [] hnone (List.forall_mem_nil _)
    | cons item items =>
      obtain ⟨parts, hparts, hspells, htext⟩ := exists_items hl fun i hi => ih i hi (depth + 1)
      rw [write, htext, ←hparts]
      exact .array hnone hspells
  | @object members keys values ih =>
    cases members with
    | nil => exact @Spells.object [] [] hnone (List.forall_mem_nil _) (List.forall_mem_nil _)
    | cons member members =>
      obtain ⟨parts, hparts, hkeys, hvalues, htext⟩ :=
        exists_members hl keys fun m hm => ih m hm (depth + 1)
      rw [write, htext, ←hparts]
      exact .object hnone hkeys hvalues

end Spelling

/-- A plain tree is read from its text with blanks behind it. -/
theorem read?_write {layout : Layout} (hl : layout.IsBlank) (depth : Nat) {j : Json}
    (h : IsPlain j) {gap : Text} (hgap : AreBlanks gap) :
    read? (write layout depth j ++ gap) = some j :=
  read?_of_spells (@Spells.blanks [] _ _ _ (List.forall_mem_nil _) hgap (spells_write hl h depth))

/-- A plain tree is read from each of its texts, also with a line feed behind
it. -/
theorem read?_texts {j : Json} (h : j.IsPlain) :
    read? j.toCompact = some j ∧ read? j.toIndented = some j ∧
      read? (j.toIndented ++ ['\n']) = some j := by
  have hnone : AreBlanks [] := List.forall_mem_nil _
  have hfeed : AreBlanks ['\n'] := List.forall_mem_singleton.mpr rfl
  refine ⟨?_, ?_, read?_write isBlank_indented 0 h hfeed⟩
  · simpa [toCompact] using read?_write isBlank_compact 0 h hnone
  · simpa [toIndented] using read?_write isBlank_indented 0 h hnone

section Trees

/-- The tree of a text is plain. -/
theorem isPlain_ofText (t : Text) : (ofText t).IsPlain := .string t

/-- The tree of a number is plain. -/
theorem isPlain_ofNat (n : Nat) : (ofNat n).IsPlain := .number (isNumeral_toDigits n)

/-- The tree of an object is plain if those of its values are. -/
theorem isPlain_record {members : List (Text × Json)} (h : ∀ m ∈ members, m.2.IsPlain) :
    (record members).IsPlain := by
  refine .object ?_ ?_
  · intro m hm
    obtain ⟨member, -, rfl⟩ := List.mem_map.mp hm
    rfl
  · intro m hm
    obtain ⟨member, hmember, rfl⟩ := List.mem_map.mp hm
    exact h member hmember

/-- An object of given names is plain if its values are. -/
theorem isPlain_record_zip {names : List Text} {values : List Json}
    (h : ∀ value ∈ values, value.IsPlain) : (record (names.zip values)).IsPlain :=
  isPlain_record fun _ hm => h _ (List.of_mem_zip hm).2

/-- A text is read back from its tree. -/
theorem text?_ofText (t : Text) : (ofText t).text? = some t := rfl

/-- A natural number of 64 bits is read back from its digits. -/
theorem word64?_ofNat {n : Nat} (h : Numeric.fitsUnsigned 64 n = true) :
    (ofNat n).word64? = some n := by
  have hall : (Nat.toDigits 10 n).all Char.isDigit = true :=
    List.all_eq_true.mpr fun c hc => Text.isDigit_of_mem_ofNat hc
  rw [ofNat, word64?, if_pos hall]
  simp only [Nat.ofDigitChars_ten_toDigits, h, if_true]

/-- Decoding succeeds along a list where it succeeds everywhere. -/
theorem mapM_map_eq_some_map {α β γ : Type} {decode : β → Option γ} {encode : α → β}
    {value : α → γ} {xs : List α} (h : ∀ x ∈ xs, decode (encode x) = some (value x)) :
    (xs.map encode).mapM decode = some (xs.map value) := by
  induction xs with
  | nil => rfl
  | cons x xs ih =>
    rw [List.map_cons, List.mapM_cons, h x List.mem_cons_self,
      ih fun y hy => h y (List.mem_cons_of_mem _ hy)]
    rfl

/-- Decoding undoes encoding along a list. -/
theorem mapM_map_eq_some {α β : Type} {decode : β → Option α} {encode : α → β} {xs : List α}
    (h : ∀ x ∈ xs, decode (encode x) = some x) : (xs.map encode).mapM decode = some xs := by
  have hmap := mapM_map_eq_some_map h
  rwa [List.map_id'] at hmap

end Trees

end DataPipeline.Json
