import DataPipeline.Proofs.Except
import DataPipeline.Proofs.Record.Construction
import DataPipeline.Proofs.Record.FieldReading
import DataPipeline.Proofs.Record.RoundTrip

/-!
# Conversions deliver what is asked for

What the default conversions give has the type that was asked for, so converting
it to this type again leaves it as it is; a value that has the type already stays
as it is. Only the null value stays null whatever is asked for, and no record
holds it. So reading a field of a record by the default conversions never fails
because the answer has another type: it gives the payload of the answer or the
failure of the conversion.
-/

namespace DataPipeline

open DatePattern Numeric Text

variable {σ : Type}

namespace Value

variable {settings : ConversionSettings} {value there : Value σ} {target : ValueType}

section Types

/-- A conversion to a type gives a value of the type. -/
theorem type_of_convertTo (h : value.convertTo settings target = .ok there) :
    there.type = target := by
  cases target <;> rw [convertTo] at h
  case null | record | foreign => cases h
  all_goals
    obtain ⟨payload, -, rfl⟩ := Except.map_eq_ok_iff.mp h
    rfl

/-- A value of the type that is asked for is returned as it is. -/
theorem convert_of_type (settings : ConversionSettings) (h : value.type = target) :
    value.convert settings target = .ok value := by
  rw [convert, if_pos]
  simp [h]

/-- A value other than the null value is converted to the type asked for. -/
theorem type_of_convert (hnull : value ≠ .null)
    (h : value.convert settings target = .ok there) : there.type = target := by
  have hnull : value.isNull = false := Bool.eq_false_iff.mpr (mt isNull_iff.mp hnull)
  by_cases htype : value.type = target
  · cases (convert_of_type settings htype).symm.trans h
    exact htype
  · rw [convert_of_ne htype hnull] at h
    cases hto : value.convertTo settings target with
    | error reason =>
      rw [hto] at h
      cases h
    | ok converted =>
      rw [hto] at h
      cases h
      exact type_of_convertTo hto

/-- A value has a payload of its own type. -/
theorem exists_payload? (h : value.type = target) : ∃ p, payload? target value = some p := by
  subst h
  cases value <;> exact ⟨_, rfl⟩

/-- A failed conversion names the value, the type asked for and the reason. -/
theorem convert_eq_error_iff {failure : ConversionFailure σ} :
    value.convert settings target = .error failure ↔
      (value.type ≠ target ∧ value.isNull = false) ∧
        ∃ reason, value.convertTo settings target = .error reason ∧
          failure = ⟨value, target, reason⟩ := by
  rw [convert]
  split
  · next h =>
    rw [Bool.or_eq_true, decide_eq_true_eq] at h
    constructor
    · intro hno
      cases hno
    · rintro ⟨⟨htype, hnull⟩, -⟩
      rcases h with h | h
      · exact absurd h htype
      · exact absurd (hnull.symm.trans h) Bool.false_ne_true
  · next h =>
    rw [Bool.or_eq_true, decide_eq_true_eq, not_or, Bool.not_eq_true] at h
    cases value.convertTo settings target with
    | error reason => simp [Except.mapError, h, eq_comm]
    | ok converted => simp [Except.mapError]

end Types

section Reasons

variable {produced : ValueType} {pattern : Text}

/-- Writing a value never reports a value of another type. -/
theorem toText_ne_producedType : value.toText pattern ≠ .error (.producedType produced) := by
  cases value
  case date i => rw [toText]; cases formatDate? pattern i <;> simp
  case bytes b => rw [toText]; cases String.fromUTF8? b <;> simp
  all_goals simp [toText]

/-- Reading a truth value never reports a value of another type. -/
theorem toBoolean_ne_producedType : value.toBoolean ≠ .error (.producedType produced) := by
  cases value
  case string t => rw [toBoolean]; cases booleanLiteral? (trim t) <;> simp
  all_goals simp [toBoolean]

/-- A range check never reports a value of another type. -/
theorem fitting_ne_producedType {bits : Nat} {n : Int} :
    fitting bits n ≠ .error (.producedType produced) := by
  rw [fitting]
  split <;> simp

/-- Cutting off a fraction never reports a value of another type. -/
theorem truncated_ne_producedType {f : Format} {x : Binary f} :
    truncated x ≠ .error (.producedType produced) := by
  rw [truncated]
  cases x.truncate? with
  | none => simp
  | some n => exact fitting_ne_producedType

/-- Reading an integer never reports a value of another type. -/
theorem toInteger_ne_producedType : value.toInteger ≠ .error (.producedType produced) := by
  cases value
  case float x => exact truncated_ne_producedType
  case double x => exact truncated_ne_producedType
  case decimal d => rw [toInteger]; cases d.toLong? <;> simp
  case string t =>
    rw [toInteger]
    cases integerLiteral? (trim t) with
    | none => simp
    | some n => exact fitting_ne_producedType
  all_goals simp [toInteger]

/-- Reading a double never reports a value of another type. -/
theorem toDouble_ne_producedType : value.toDouble ≠ .error (.producedType produced) := by
  cases value
  case string t => rw [toDouble]; cases (Binary.ofText? (trim t) : Option Double) <;> simp
  all_goals simp [toDouble]

/-- Narrowing a double never reports a value of another type. -/
theorem toSingle_ne_producedType {x : Double} : toSingle x ≠ .error (.producedType produced) := by
  rw [toSingle]
  split <;> simp

/-- Reading a decimal never reports a value of another type. -/
theorem toDecimal_ne_producedType : value.toDecimal ≠ .error (.producedType produced) := by
  cases value
  case float x => rw [toDecimal]; cases Decimal.ofBinary? x <;> simp
  case double x => rw [toDecimal]; cases Decimal.ofBinary? x <;> simp
  case string t => rw [toDecimal]; cases Decimal.ofText? (trim t) <;> simp
  all_goals simp [toDecimal]

/-- Reading a character never reports a value of another type. -/
theorem toCharacter_ne_producedType : value.toCharacter ≠ .error (.producedType produced) := by
  cases value
  case string t => rw [toCharacter]; cases single? t <;> simp
  all_goals simp [toCharacter]

/-- Reading a date never reports a value of another type. -/
theorem toInstant_ne_producedType : value.toInstant pattern ≠ .error (.producedType produced) := by
  cases value
  case int n => rw [toInstant]; cases Calendar.Instant.ofEpochMilli? n.toInt <;> simp
  case long n => rw [toInstant]; cases Calendar.Instant.ofEpochMilli? n.toInt <;> simp
  case string t =>
    rw [toInstant]
    cases parseDate (trim t) pattern with
    | ok i => simp
    | error failure => cases Calendar.Instant.ofRfc3339? (trim t) <;> simp
  all_goals simp [toInstant]

/-- Reading bytes never reports a value of another type. -/
theorem toBytes_ne_producedType : value.toBytes ≠ .error (.producedType produced) := by
  cases value <;> simp [toBytes]

/-- No default conversion fails for the reason that is kept for other answers. -/
theorem convertTo_ne_producedType :
    value.convertTo settings target ≠ .error (.producedType produced) := by
  have hnarrow : ∀ bits, (value.toInteger >>= fitting bits) ≠ .error (.producedType produced) := by
    intro bits h
    rcases Except.bind_eq_error_iff.mp h with h | ⟨n, -, h⟩
    · exact toInteger_ne_producedType h
    · exact fitting_ne_producedType h
  have hsingle : (value.toDouble >>= toSingle) ≠ .error (.producedType produced) := by
    intro h
    rcases Except.bind_eq_error_iff.mp h with h | ⟨x, -, h⟩
    · exact toDouble_ne_producedType h
    · exact toSingle_ne_producedType h
  cases target <;> rw [convertTo, Ne]
  case null | record | foreign => simp
  all_goals rw [Except.map_eq_error_iff]
  case string => exact toText_ne_producedType
  case bool => exact toBoolean_ne_producedType
  case byte => exact hnarrow 8
  case short => exact hnarrow 16
  case int => exact hnarrow 32
  case long => exact toInteger_ne_producedType
  case float => exact hsingle
  case double => exact toDouble_ne_producedType
  case decimal => exact toDecimal_ne_producedType
  case char => exact toCharacter_ne_producedType
  case date => exact toInstant_ne_producedType
  case bytes => exact toBytes_ne_producedType

end Reasons

end Value

/-- The lookup of a field converts nothing. -/
theorem Record.value_ne_conversion {r : Record σ} {field address : Field}
    {failure : ConversionFailure σ} :
    r.value field ≠ .error (.conversion address failure) := by
  cases field with
  | name name => rw [value]; cases r.value? name <;> simp
  | index index => rw [value]; cases r.values[index]? <;> simp

section Reading

variable [ConversionService σ] {r : Record σ} {field : Field} {settings : ConversionSettings}

/-- A service that converts by the default conversions. -/
def ConvertsBy (settings : ConversionSettings) (service : σ) : Prop :=
  ∀ value target,
    ConversionService.convert service value target = Value.convert settings value target

/-- Reading a value other than the null value by the default conversions gives the
payload of what it is converted to. -/
theorem Value.readAs_of_convertsBy {raw : Value σ} (hnull : raw ≠ .null) {service : σ}
    (hservice : ConvertsBy settings service) (type : ValueType) :
    (∃ converted payload, raw.convert settings type = .ok converted ∧
      Value.payload? type converted = some payload ∧ raw.readAs service type = .ok payload) ∨
    ∃ failure, raw.convert settings type = .error failure ∧
      raw.readAs service type = .error failure := by
  rw [readAs, hservice]
  cases hconvert : raw.convert settings type with
  | error failure => exact .inr ⟨failure, rfl, rfl⟩
  | ok converted =>
    obtain ⟨payload, hpayload⟩ := exists_payload? (type_of_convert hnull hconvert)
    refine .inl ⟨converted, payload, rfl, hpayload, ?_⟩
    simp only [bind, Except.bind, hpayload, Option.elim_some]

/-- Reading a field of a valid record by the default conversions does not fail
because the answer has another type. -/
theorem Record.get_ne_producedType (valid : r.Valid) (hservice : ConvertsBy settings r.service)
    (type : ValueType) {address : Field} {failure : ConversionFailure σ} {produced : ValueType}
    (hreason : failure.reason = .producedType produced) :
    r.get field type ≠ .error (.conversion address failure) := by
  intro h
  cases hraw : r.value field with
  | error e =>
    cases (Accessor.read_of_value_error hraw (.get type)).symm.trans h
    exact value_ne_conversion hraw
  | ok raw =>
    have hnull : raw ≠ .null := (valid.storable (mem_values_of_value hraw)).present
    rw [get_of_value hraw] at h
    rcases Value.readAs_of_convertsBy hnull hservice type with
      ⟨_, payload, -, -, hread⟩ | ⟨failure', hconvert, hread⟩
    · rw [hread] at h
      cases h
    · rw [hread] at h
      cases h
      obtain ⟨-, reason, hto, rfl⟩ := Value.convert_eq_error_iff.mp hconvert
      cases hreason
      exact Value.convertTo_ne_producedType hto

end Reading

/-- The default conversions deliver the type that is asked for, under every date
pattern. What a value other than the null value is converted to has this type
and is converted to it as it is, and a value that has the type stays as it is; a
failure names the value with its type and text, and the type asked for. So
whatever records a program obtains, no field of one whose service converts by
default is read with the failure that the service produced another type. -/
theorem conversions_deliver [ConversionService σ] :
    (∀ (settings : ConversionSettings) (value : Value σ) (target : ValueType), value ≠ .null →
      (∀ there, value.convert settings target = .ok there →
        there.type = target ∧ there.convert settings target = .ok there) ∧
      (value.type = target → value.convert settings target = .ok value) ∧
      ∀ failure, value.convert settings target = .error failure →
        failure.value = value ∧ failure.target = target ∧
          ∀ style, failure.messageBy style =
            "cannot convert " ++ value.type.name ++ " value '" ++
              String.ofList (value.textBy style) ++ "' to " ++ target.name ++ ": " ++
              failure.reason.message) ∧
    ∀ h : Holdings σ, Relation.ReflTransGen Holdings.Step .nothing h → ∀ r ∈ h.records,
      ∀ settings, ConvertsBy settings r.service → ∀ field type address failure produced,
        failure.reason = .producedType produced →
          r.get field type ≠ .error (.conversion address failure) := by
  refine ⟨fun settings value target hnull => ⟨fun there hthere => ?_,
    Value.convert_of_type settings, fun failure hfailure => ?_⟩,
    fun h run r hr settings hservice field type address failure produced hreason => ?_⟩
  · have htype := Value.type_of_convert hnull hthere
    exact ⟨htype, Value.convert_of_type settings htype⟩
  · obtain ⟨-, reason, -, rfl⟩ := Value.convert_eq_error_iff.mp hfailure
    exact ⟨rfl, rfl, fun style => rfl⟩
  · have hvalid := (Holdings.sound_of_run run).records r hr
    exact Record.get_ne_producedType hvalid hservice type hreason

/-- A record of a text and a flag. -/
def typedSample : Record ConversionSettings :=
  ⟨[("text".toList, .string " 0x1F ".toList), ("flag".toList, .bool true)], ⟨0, 0⟩, {}⟩

theorem conversions_deliver_sample :
    (.string " 0x1F ".toList : Value ConversionSettings) ≠ .null ∧
      (.string " 0x1F ".toList : Value ConversionSettings).convert {} .short = .ok (.short 31) ∧
      (Value.short 31 : Value ConversionSettings).convert {} .short = .ok (.short 31) ∧
      Relation.ReflTransGen Holdings.Step .nothing ⟨[typedSample], []⟩ ∧
      ConvertsBy {} typedSample.service ∧
      typedSample.get (.name "flag".toList) .int ≠
        .error (.conversion (.index 1) ⟨.bool true, .int, .producedType .bool⟩) := by
  have hnull : (.string " 0x1F ".toList : Value ConversionSettings) ≠ .null := nofun
  have hconvert : (.string " 0x1F ".toList : Value ConversionSettings).convert {} .short =
      .ok (.short 31) := rfl
  have hoffers : ∀ v ∈ typedSample.values, Holdings.nothing.Offers v := by
    intro v hv r hr
    simp [typedSample, Record.values, hr] at hv
  have hmade : Record.ofLists typedSample.names typedSample.values ⟨0, 0⟩ {} = .ok typedSample :=
    rfl
  have hrun : Relation.ReflTransGen Holdings.Step .nothing ⟨[typedSample], []⟩ :=
    .single (.make (.lists hoffers hmade))
  have hservice : ConvertsBy {} typedSample.service := fun _ _ => rfl
  obtain ⟨hvalues, hrecords⟩ := conversions_deliver (σ := ConversionSettings)
  obtain ⟨hthere, -, -⟩ := hvalues {} _ .short hnull
  exact ⟨hnull, hconvert, (hthere _ hconvert).2, hrun, hservice,
    hrecords _ hrun _ List.mem_cons_self _ hservice _ _ _ _ _ rfl⟩

end DataPipeline
