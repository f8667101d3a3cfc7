import DataPipeline.Proofs.Record.Shape
import DataPipeline.Proofs.Text.Trim
import DataPipeline.Record.Access

/-!
# Reading fields

Every accessor looks the field up, makes something of the value that is stored
there through the conversion service, and names the field in the error if that
fails. What it makes of the value does not depend on how the field is addressed,
so a name and its position give the same, whatever the service answers. The
accessors of text, characters, booleans and dates by a pattern depend on the
conversion to a string alone.
-/

namespace DataPipeline

open Calendar DatePattern Text

variable {σ : Type}

/-- The accessors of a field, by the type of what they give. -/
inductive Accessor (σ : Type) : Type → Type
  | value : Accessor σ (Value σ)
  | get (type : ValueType) : Accessor σ (type.Payload σ)
  | string : Accessor σ Text
  | char : Accessor σ Char
  | bool : Accessor σ Bool
  | boolWith (trueText : Text) : Accessor σ Bool
  | byte : Accessor σ Int8
  | short : Accessor σ Int16
  | int : Accessor σ Int32
  | long : Accessor σ Int64
  | float : Accessor σ Numeric.Single
  | double : Accessor σ Numeric.Double
  | decimal : Accessor σ Numeric.Decimal
  | date : Accessor σ Instant
  | dateWithPattern (pattern : Text) : Accessor σ Instant

/-- What an accessor gives for a field when it is asked for by name, and what it
gives when it is asked for by position: the same value, or the same failure with
the field as it was addressed. -/
inductive SameReading {α : Type} (name : Text) (index : Nat) :
    Except (AccessError σ) α → Except (AccessError σ) α → Prop
  | value (a : α) : SameReading name index (.ok a) (.ok a)
  | conversion (failure : ConversionFailure σ) :
      SameReading name index (.error (.conversion (.name name) failure))
        (.error (.conversion (.index index) failure))

/-- A text gives a character exactly if it consists of it. -/
theorem Text.single?_eq_some_iff {t : Text} {c : Char} : single? t = some c ↔ t = [c] := by
  unfold single?
  split
  · simp
  · next hne => exact iff_of_false (by simp) fun h => hne c h

section Lookup

variable {r : Record σ} {name : Text} {index : Nat}

/-- In a valid record a name and its position lead to the same value. -/
theorem Record.exists_value (valid : r.Valid) (h : r.names[index]? = some name) :
    ∃ v, r.value (.name name) = .ok v ∧ r.value (.index index) = .ok v := by
  rw [Record.names, List.getElem?_map, Option.map_eq_some_iff] at h
  obtain ⟨⟨name, v⟩, hfield, rfl⟩ := h
  have hname : r.value? name = some v :=
    (Record.value?_eq_some_iff valid.shape.distinct).mpr (List.mem_of_getElem? hfield)
  have hindex : r.values[index]? = some v := by
    rw [Record.values, List.getElem?_map, hfield]
    rfl
  exact ⟨v, by rw [Record.value, hname]; rfl, by rw [Record.value, hindex]; rfl⟩

/-- A name that is no field is reported with the names of all fields. -/
theorem Record.value_of_notMem_names (h : name ∉ r.names) :
    r.value (.name name) = .error (.unknownField name r.names) := by
  rw [Record.value, Record.value?_eq_none_iff.mpr h]
  rfl

/-- An index behind the last field is reported with the number of fields. -/
theorem Record.value_of_size_le (h : r.size ≤ index) :
    r.value (.index index) = .error (.indexOutOfBounds index r.size) := by
  have hnone : r.values[index]? = none := by
    rw [List.getElem?_eq_none_iff, Record.values, List.length_map]
    exact h
  rw [Record.value, hnone]
  rfl

end Lookup

variable [ConversionService σ]

/-- What an accessor gives for a field of a record. -/
def Accessor.read {α : Type} : Accessor σ α → Record σ → Field → Except (AccessError σ) α
  | value, r, field => r.value field
  | get type, r, field => r.get field type
  | string, r, field => r.string field
  | char, r, field => r.char field
  | bool, r, field => r.bool field
  | boolWith trueText, r, field => r.boolWith field trueText
  | byte, r, field => r.byte field
  | short, r, field => r.short field
  | int, r, field => r.int field
  | long, r, field => r.long field
  | float, r, field => r.float field
  | double, r, field => r.double field
  | decimal, r, field => r.decimal field
  | date, r, field => r.date field
  | dateWithPattern pattern, r, field => r.dateWithPattern field pattern

namespace Value

/-- What a service makes of a value when it is asked for a type. -/
def readAs (service : σ) (raw : Value σ) (type : ValueType) :
    Except (ConversionFailure σ) (type.Payload σ) := do
  let converted ← ConversionService.convert service raw type
  (payload? type converted).elim (.error ⟨raw, type, .producedType converted.type⟩) .ok

/-- The trimmed text that a service makes of a value. -/
def readText (service : σ) (raw : Value σ) : Except (ConversionFailure σ) Text :=
  (raw.readAs service .string).map trim

end Value

/-- What an accessor makes of the value of a field. -/
def Accessor.ofValue {α : Type} (service : σ) (raw : Value σ) :
    Accessor σ α → Except (ConversionFailure σ) α
  | value => .ok raw
  | get type => raw.readAs service type
  | string => raw.readText service
  | char => do
    let text ← raw.readText service
    (single? text).elim (.error ⟨raw, .char, .fieldCharacter text⟩) .ok
  | bool => (raw.readText service).map fun text => text = "true".toList
  | boolWith trueText => (raw.readText service).map fun text => text = trueText
  | byte => raw.readAs service .byte
  | short => raw.readAs service .short
  | int => raw.readAs service .int
  | long => raw.readAs service .long
  | float => raw.readAs service .float
  | double => raw.readAs service .double
  | decimal => raw.readAs service .decimal
  | date => raw.readAs service .date
  | dateWithPattern pattern => do
    let text ← raw.readText service
    (parseDate text pattern).mapError fun failure => ⟨.string text, .date, .dateMismatch failure⟩

section Reading

variable {r : Record σ} {field : Field} {raw : Value σ} {e : AccessError σ} {text : Text}

/-- A field that is found is read as the type that is asked for. -/
theorem Record.get_of_value (h : r.value field = .ok raw) (type : ValueType) :
    r.get field type = (raw.readAs r.service type).mapError (.conversion field) := by
  rw [Record.get, h, Value.readAs]
  simp only [bind, Except.bind]
  cases ConversionService.convert r.service raw type with
  | error failure => rfl
  | ok converted =>
    dsimp only
    cases Value.payload? type converted <;> rfl

/-- A field that is found is read as a text. -/
theorem Record.string_of_value (h : r.value field = .ok raw) :
    r.string field = (raw.readText r.service).mapError (.conversion field) := by
  rw [Record.string, Record.get_of_value h, Value.readText]
  cases raw.readAs r.service .string <;> rfl

/-- A character is read from a text that consists of it. -/
theorem Record.char_of_string (hraw : r.value field = .ok raw) (h : r.string field = .ok text) :
    r.char field =
      (single? text).elim (.error (.conversion field ⟨raw, .char, .fieldCharacter text⟩)) .ok := by
  rw [Record.char, hraw, h]
  simp only [bind, Except.bind]
  cases single? text <;> rfl

/-- A truth value is read by comparing the text. -/
theorem Record.boolWith_of_string (h : r.string field = .ok text) (trueText : Text) :
    r.boolWith field trueText = .ok (decide (text = trueText)) := by
  rw [Record.boolWith, h]
  rfl

/-- A date is read from the text by the pattern. -/
theorem Record.dateWithPattern_of_string (h : r.string field = .ok text) (pattern : Text) :
    r.dateWithPattern field pattern = (parseDate text pattern).mapError fun failure =>
      .conversion field ⟨.string text, .date, .dateMismatch failure⟩ := by
  rw [Record.dateWithPattern, h]
  simp only [bind, Except.bind]
  cases parseDate text pattern <;> rfl

/-- The readers of text fail as the text does. -/
theorem Record.read_of_string_error (hraw : r.value field = .ok raw)
    (h : r.string field = .error e) :
    r.char field = .error e ∧ (∀ trueText, r.boolWith field trueText = .error e) ∧
      ∀ pattern, r.dateWithPattern field pattern = .error e := by
  refine ⟨?_, fun trueText => ?_, fun pattern => ?_⟩
  · rw [Record.char, hraw, h]
    rfl
  · rw [Record.boolWith, h]
    rfl
  · rw [Record.dateWithPattern, h]
    rfl

/-- An accessor looks the field up and makes something of its value, and the
field stands in the error if that fails. -/
theorem Accessor.read_of_value {α : Type} (h : r.value field = .ok raw)
    (accessor : Accessor σ α) :
    accessor.read r field = (accessor.ofValue r.service raw).mapError (.conversion field) := by
  have hstring := Record.string_of_value h
  cases htext : raw.readText r.service with
  | error failure =>
    rw [htext] at hstring
    obtain ⟨hchar, hbool, hdate⟩ := Record.read_of_string_error h hstring
    cases accessor <;> rw [ofValue]
    case value => exact h
    case string => rw [htext]; exact hstring
    case char => rw [htext]; exact hchar
    case bool => rw [htext]; exact hbool _
    case boolWith trueText => rw [htext]; exact hbool _
    case dateWithPattern pattern => rw [htext]; exact hdate pattern
    all_goals exact Record.get_of_value h _
  | ok text =>
    rw [htext] at hstring
    cases accessor <;> rw [ofValue]
    case value => exact h
    case string => rw [htext]; exact hstring
    case char =>
      rw [htext, read, Record.char_of_string h hstring]
      cases hsingle : single? text <;> simp only [bind, Except.bind, hsingle] <;> rfl
    case bool => rw [htext]; exact Record.boolWith_of_string hstring _
    case boolWith trueText => rw [htext]; exact Record.boolWith_of_string hstring _
    case dateWithPattern pattern =>
      rw [htext, read, Record.dateWithPattern_of_string hstring]
      cases hdate : parseDate text pattern <;> simp only [bind, Except.bind, hdate] <;> rfl
    all_goals exact Record.get_of_value h _

/-- An accessor fails as the lookup of the field does. -/
theorem Accessor.read_of_value_error {α : Type} (h : r.value field = .error e)
    (accessor : Accessor σ α) : accessor.read r field = .error e := by
  have hget : ∀ type, r.get field type = .error e := fun type => by
    rw [Record.get, h]
    rfl
  have hstring : r.string field = .error e := by
    rw [Record.string, hget]
    rfl
  cases accessor
  case value => exact h
  case string => exact hstring
  case char => rw [read, Record.char, h]; rfl
  case bool => rw [read, Record.bool, Record.boolWith, hstring]; rfl
  case boolWith trueText => rw [read, Record.boolWith, hstring]; rfl
  case dateWithPattern pattern => rw [read, Record.dateWithPattern, hstring]; rfl
  all_goals exact hget _

/-- If a field does not convert to a string, the readers of text fail alike. -/
theorem Record.read_of_get_error (h : r.get field .string = .error e) :
    r.string field = .error e ∧ r.char field = .error e ∧
      (∀ trueText, r.boolWith field trueText = .error e) ∧
      ∀ pattern, r.dateWithPattern field pattern = .error e := by
  have hstring : r.string field = .error e := by
    rw [Record.string, h]
    rfl
  cases hraw : r.value field with
  | error e' =>
    have hget : r.get field .string = .error e' := Accessor.read_of_value_error hraw (.get .string)
    cases h.symm.trans hget
    exact ⟨hstring, Accessor.read_of_value_error hraw .char,
      fun trueText => Accessor.read_of_value_error hraw (.boolWith trueText),
      fun pattern => Accessor.read_of_value_error hraw (.dateWithPattern pattern)⟩
  | ok raw => exact ⟨hstring, Record.read_of_string_error hraw hstring⟩

/-- If a field converts to a string, it has a value and its trimmed text. -/
theorem Record.exists_value_of_get (h : r.get field .string = .ok text) :
    (∃ raw, r.value field = .ok raw) ∧ r.string field = .ok (trim text) := by
  constructor
  · cases hraw : r.value field with
    | error e =>
      have hget : r.get field .string = .error e :=
        Accessor.read_of_value_error hraw (.get .string)
      cases h.symm.trans hget
    | ok raw => exact ⟨raw, rfl⟩
  · rw [Record.string, h]
    rfl

end Reading

/-- Accessors agree on names and positions, whatever the conversion service of
the record answers. A field of a valid record gives by its name what it gives by
its position, except for the address in an error, which shows a name in brackets
and a position behind `#`; an unknown name is reported with all names of the
record, and a position behind the last one with their number. The accessors of
text, characters, booleans and dates by a pattern fail as the conversion to a
string does, and otherwise depend on its trimmed text alone: they give the text,
its only character, whether it is the given one, and its date. -/
theorem accessors_agree {r : Record σ} (valid : r.Valid) :
    (∀ name index, (Field.name name).text = "[".toList ++ name ++ "]".toList ∧
      (Field.index index).text = "#".toList ++ Text.ofNat index) ∧
    (∀ {α : Type} (accessor : Accessor σ α),
      (∀ index name, r.names[index]? = some name →
        SameReading name index (accessor.read r (.name name)) (accessor.read r (.index index))) ∧
      (∀ name, name ∉ r.names →
        accessor.read r (.name name) = .error (.unknownField name r.names)) ∧
      ∀ index, r.size ≤ index →
        accessor.read r (.index index) = .error (.indexOutOfBounds index r.size)) ∧
    ∀ field,
      (∀ e, r.get field .string = .error e →
        r.string field = .error e ∧ r.char field = .error e ∧
          (∀ trueText, r.boolWith field trueText = .error e) ∧
          ∀ pattern, r.dateWithPattern field pattern = .error e) ∧
      ∀ t : Text, r.get field .string = .ok t →
        r.string field = .ok (trim t) ∧ trim (trim t) = trim t ∧
          (∀ c, r.char field = .ok c ↔ trim t = [c]) ∧
          ((∀ c, trim t ≠ [c]) → ∃ raw, r.value field = .ok raw ∧
            r.char field = .error (.conversion field ⟨raw, .char, .fieldCharacter (trim t)⟩)) ∧
          (∀ trueText, r.boolWith field trueText = .ok (decide (trim t = trueText))) ∧
          ∀ pattern, r.dateWithPattern field pattern =
            (parseDate (trim t) pattern).mapError fun failure =>
              .conversion field ⟨.string (trim t), .date, .dateMismatch failure⟩ := by
  refine ⟨fun name index => ⟨rfl, rfl⟩, fun accessor => ⟨fun index name hname => ?_,
    fun name hname => ?_, fun index hindex => ?_⟩, fun field =>
    ⟨fun e he => Record.read_of_get_error he, fun t ht => ?_⟩⟩
  · obtain ⟨raw, hbyName, hbyIndex⟩ := Record.exists_value valid hname
    rw [accessor.read_of_value hbyName, accessor.read_of_value hbyIndex]
    cases accessor.ofValue r.service raw with
    | error failure => exact .conversion failure
    | ok a => exact .value a
  · exact accessor.read_of_value_error (Record.value_of_notMem_names hname)
  · exact accessor.read_of_value_error (Record.value_of_size_le hindex)
  · obtain ⟨⟨raw, hraw⟩, hstring⟩ := Record.exists_value_of_get ht
    have hchar := Record.char_of_string hraw hstring
    refine ⟨hstring, trim_eq_self_iff.mpr (isTrimmed_trim t), fun c => ?_, fun hnone => ?_,
      Record.boolWith_of_string hstring, Record.dateWithPattern_of_string hstring⟩
    · rw [hchar, ←single?_eq_some_iff]
      cases single? (trim t) <;> simp
    · have hsingle : single? (trim t) = none := by
        rw [Option.eq_none_iff_forall_ne_some]
        exact fun c hc => hnone c (single?_eq_some_iff.mp hc)
      exact ⟨raw, hraw, by rw [hchar, hsingle]; rfl⟩

/-- A service that answers every request with one string. -/
structure FixedAnswer where
  /-- The answer. -/
  answer : Text

instance : ConversionService FixedAnswer := ⟨fun service _ _ => .ok (.string service.answer)⟩

/-- A record with names that look like addresses, whose service answers with a
padded character. -/
def addressNamesSample : Record FixedAnswer :=
  ⟨[("#1".toList, .int 7), ("[x]".toList, .bool true)], ⟨0, 0⟩, ⟨" y\t".toList⟩⟩

theorem accessors_agree_sample :
    addressNamesSample.Valid ∧ addressNamesSample.names[1]? = some "[x]".toList ∧
      SameReading "[x]".toList 1 (addressNamesSample.int (.name "[x]".toList))
        (addressNamesSample.int (.index 1)) ∧
      addressNamesSample.double (.name "x".toList) =
        .error (.unknownField "x".toList ["#1".toList, "[x]".toList]) ∧
      addressNamesSample.string (.name "#1".toList) = .ok "y".toList ∧
      addressNamesSample.char (.index 1) = .ok 'y' := by
  have hvalid : addressNamesSample.Valid :=
    .intro ⟨by decide, by decide, by simp [addressNamesSample]⟩ fun inner hinner => by
      simp [addressNamesSample, Record.values] at hinner
  have hname : addressNamesSample.names[1]? = some "[x]".toList := rfl
  obtain ⟨-, hagree, hstring⟩ := accessors_agree hvalid
  obtain ⟨hfirst, -⟩ := (hstring (.name "#1".toList)).2 " y\t".toList rfl
  obtain ⟨-, -, hchar, -⟩ := (hstring (.index 1)).2 " y\t".toList rfl
  exact ⟨hvalid, hname, (hagree .int).1 1 _ hname, (hagree .double).2.1 _ (by decide),
    hfirst.trans rfl, (hchar 'y').mpr rfl⟩

end DataPipeline
