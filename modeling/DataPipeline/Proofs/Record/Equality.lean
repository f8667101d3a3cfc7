import DataPipeline.Proofs.Numeric.DecimalValue
import DataPipeline.Record.Build
import DataPipeline.Record.Digest
import Mathlib.Data.List.Forall2

/-!
# Equality of values

Among equal values there is one in a normal form: its decimals have no trailing
zeros, and all that does not belong to what a value says is left out, which is
the stamps and services of its records at every depth and the types of its
values of the application. Two values are equal exactly when they have the same
normal form, so equality is an equivalence, and since a digest is that of the
normal form, equal values have equal digests.
-/

namespace DataPipeline

open Numeric

variable {σ τ : Type}

/-- What holds of all values that are no records, and of a record when it holds
of its values, holds of all values. -/
theorem Value.induction_records {motive : Value σ → Prop}
    (leaf : ∀ v, v.record? = none → motive v)
    (record : ∀ r, (∀ field ∈ r.fields, motive field.2) → motive (.record r)) (v : Value σ) :
    motive v := by
  refine @Value.rec σ motive (fun r => ∀ field ∈ r.fields, motive field.2)
    (fun fields => ∀ field ∈ fields, motive field.2) (fun field => motive field.2)
    ?null ?bool ?byte ?short ?int ?long ?float ?double ?decimal ?string ?char ?date ?bytes ?record
    ?foreign ?fields ?nil ?cons ?field v
  case record => exact record
  case fields =>
    intro fields stamp service ih
    exact ih
  case nil => simp
  case cons =>
    intro field fields hfield hfields
    exact List.forall_mem_cons.mpr ⟨hfield, hfields⟩
  case field =>
    intro name value ih
    exact ih
  all_goals
    intros
    exact leaf _ rfl

section Forms

mutual

/-- A value without the stamps and services of its records, its decimals and its
values of the application replaced. -/
def Value.recast (onDecimal : Decimal → Decimal) (onForeign : Foreign → Foreign) :
    Value σ → Value Unit
  | .null => .null
  | .bool b => .bool b
  | .byte n => .byte n
  | .short n => .short n
  | .int n => .int n
  | .long n => .long n
  | .float x => .float x
  | .double x => .double x
  | .decimal d => .decimal (onDecimal d)
  | .string t => .string t
  | .char c => .char c
  | .date i => .date i
  | .bytes b => .bytes b
  | .record r => .record (r.recast onDecimal onForeign)
  | .foreign f => .foreign (onForeign f)
termination_by structural value => value

/-- A record whose values are recast. -/
def Record.recast (onDecimal : Decimal → Decimal) (onForeign : Foreign → Foreign) :
    Record σ → Record Unit
  | ⟨fields, _, _⟩ => ⟨recastFields onDecimal onForeign fields, ⟨0, 0⟩, ()⟩
termination_by structural r => r

/-- Fields whose values are recast. -/
def recastFields (onDecimal : Decimal → Decimal) (onForeign : Foreign → Foreign) :
    List (Text × Value σ) → List (Text × Value Unit)
  | [] => []
  | (name, value) :: fields =>
    (name, value.recast onDecimal onForeign) :: recastFields onDecimal onForeign fields
termination_by structural fields => fields

end

/-- A value without the stamps and services of its records, at every depth. -/
def Value.bare (v : Value σ) : Value Unit := v.recast id id

/-- The value among the equal ones that stands for all of them. -/
def Value.normal (v : Value σ) : Value Unit :=
  v.recast Decimal.normalize fun f => { f with typeName := [] }

variable {onDecimal : Decimal → Decimal} {onForeign : Foreign → Foreign}

/-- Fields are recast one by one. -/
theorem recastFields_eq_map (fields : List (Text × Value σ)) :
    recastFields onDecimal onForeign fields =
      fields.map fun field => (field.1, field.2.recast onDecimal onForeign) := by
  induction fields with
  | nil => rfl
  | cons field fields ih => rw [recastFields, ih, List.map_cons]

/-- A record is recast field by field, without its stamp and its service. -/
theorem Value.recast_record (r : Record σ) :
    (Value.record r).recast onDecimal onForeign =
      .record ⟨r.fields.map fun field => (field.1, field.2.recast onDecimal onForeign), ⟨0, 0⟩,
        ()⟩ := by
  obtain ⟨fields, stamp, service⟩ := r
  rw [recast, Record.recast, recastFields_eq_map]

/-- Stamps and services do not matter for what is recast. -/
theorem Value.recast_bare (v : Value σ) :
    v.bare.recast onDecimal onForeign = v.recast onDecimal onForeign := by
  induction v using Value.induction_records with
  | leaf v hleaf =>
    cases v with
    | record r => cases hleaf
    | _ => rfl
  | record r ih =>
    rw [bare, recast_record, recast_record, recast_record, List.map_map]
    congr 2
    exact List.map_congr_left fun field hfield => Prod.ext rfl (ih field hfield)

/-- The type of a value stays when it is recast. -/
theorem Value.type_recast (v : Value σ) : (v.recast onDecimal onForeign).type = v.type := by
  cases v <;> rfl

end Forms

section Comparison

/-- Records are the same if their fields are. -/
theorem Record.same_eq (r s : Record σ) : r.same s = sameFields r.fields s.fields := by
  cases r
  cases s
  rw [same]

/-- Fields are the same if the first ones agree in name and value and the others
are. -/
theorem sameFields_cons (field other : Text × Value σ) (fields others : List (Text × Value σ)) :
    sameFields (field :: fields) (other :: others) = true ↔
      (field.1 = other.1 ∧ (field.2 == other.2) = true) ∧ sameFields fields others = true := by
  rw [sameFields, Bool.and_eq_true, Bool.and_eq_true, decide_eq_true_iff]
  rfl

/-- Fields whose values are in normal form. -/
def normalFields (fields : List (Text × Value σ)) : List (Text × Value Unit) :=
  fields.map fun field => (field.1, field.2.normal)

/-- The normal form of a record keeps neither its stamp nor its service. -/
theorem Value.normal_record (r : Record σ) :
    (Value.record r).normal = .record ⟨normalFields r.fields, ⟨0, 0⟩, ()⟩ :=
  recast_record r

/-- Fields are equal when they have the same normal form, if this holds of the
values of one side. -/
theorem sameFields_iff {fields others : List (Text × Value σ)}
    (h : ∀ field ∈ fields, ∀ b, (field.2 == b) = true ↔ field.2.normal = b.normal) :
    sameFields fields others = true ↔ normalFields fields = normalFields others := by
  induction fields generalizing others with
  | nil => cases others <;> simp [sameFields, normalFields]
  | cons field fields ih =>
    obtain ⟨hfield, hfields⟩ := List.forall_mem_cons.mp h
    cases others with
    | nil => simp [sameFields, normalFields]
    | cons other others =>
      rw [sameFields_cons, ih hfields, hfield]
      simp [normalFields]

/-- Values are equal exactly when they have the same normal form. -/
theorem Value.beq_iff {a b : Value σ} : (a == b) = true ↔ a.normal = b.normal := by
  change a.same b = true ↔ _
  induction a using Value.induction_records generalizing b with
  | leaf a hleaf =>
    cases a with
    | record r => cases hleaf
    -- Normal forms keep the constructor, so only equal constructors leave a comparison.
    | _ => cases b <;> simp [same, normal, recast, Decimal.same, ByteArray.ext_iff]
  | record r ih =>
    cases b with
    | record s =>
      have hfields : sameFields r.fields s.fields = true ↔
          normalFields r.fields = normalFields s.fields :=
        sameFields_iff fun field hfield b => ih field hfield
      rw [normal_record, normal_record, Value.record.injEq, Record.mk.injEq, ←hfields, same,
        Record.same_eq]
      simp
    | _ => simp [same, normal, recast]

/-- Records are equal when they are as values. -/
theorem Record.beq_eq_record (r s : Record σ) : (r == s) = (Value.record r == .record s) := by
  change r.same s = (Value.record r).same (.record s)
  rw [Value.same]

/-- Fields have the same normal form when their names are the same and their
values have the same normal form. -/
theorem normalFields_eq_iff {fields others : List (Text × Value σ)} :
    normalFields fields = normalFields others ↔
      fields.map Prod.fst = others.map Prod.fst ∧
        (fields.map Prod.snd).map Value.normal = (others.map Prod.snd).map Value.normal := by
  have hzip (fields : List (Text × Value σ)) : normalFields fields =
      (fields.map Prod.fst).zip ((fields.map Prod.snd).map Value.normal) := by
    rw [List.map_map, List.zip_map', normalFields]
    rfl
  constructor
  · intro h
    have hnames := congrArg (List.map Prod.fst) h
    have hvalues := congrArg (List.map Prod.snd) h
    simp only [normalFields, List.map_map] at hnames hvalues ⊢
    exact ⟨hnames, hvalues⟩
  · rintro ⟨hnames, hvalues⟩
    rw [hzip, hzip, hnames, hvalues]

/-- Records are equal exactly when they have equal names in order and equal
values in order. -/
theorem Record.beq_iff {r s : Record σ} :
    (r == s) = true ↔
      r.names = s.names ∧ List.Forall₂ (fun a b => (a == b) = true) r.values s.values := by
  have hvalues : List.Forall₂ (fun a b => (a == b) = true) r.values s.values ↔
      r.values.map Value.normal = s.values.map Value.normal := by
    rw [←List.forall₂_eq_eq_eq, List.forall₂_map_left_iff, List.forall₂_map_right_iff]
    simp only [Value.beq_iff]
  rw [hvalues, beq_eq_record, Value.beq_iff, Value.normal_record, Value.normal_record,
    Value.record.injEq, Record.mk.injEq, normalFields_eq_iff]
  simp [names, values]

end Comparison

section Digests

/-- The values of fields are digested one after the other. -/
theorem digestValues_eq_flatMap (fields : List (Text × Value σ)) :
    digestValues fields = fields.flatMap fun field => field.2.digest := by
  induction fields with
  | nil => rfl
  | cons field fields ih => rw [digestValues, ih, List.flatMap_cons]

/-- A record is digested as its names and then its values, each with their
number. -/
theorem Value.digest_record (r : Record σ) :
    (Value.record r).digest =
      .type .record :: .number r.fields.length :: (r.fields.map fun field => .text field.1) ++
        .number r.fields.length :: r.fields.flatMap fun field => field.2.digest := by
  obtain ⟨fields, stamp, service⟩ := r
  rw [digest, Record.digest, digestValues_eq_flatMap]
  rfl

/-- The digest of a value is that of its normal form. -/
theorem Value.digest_normal (v : Value σ) : v.normal.digest = v.digest := by
  induction v using Value.induction_records with
  | leaf v hleaf =>
    cases v with
    | record r => cases hleaf
    | decimal d =>
      have hsame : d.normalize.same d = true := Decimal.same_iff.mpr d.value_normalize
      simp [normal, recast, digest, Decimal.hashText_congr hsame]
    | _ => rfl
  | record r ih =>
    rw [normal_record, digest_record, digest_record]
    simp only [normalFields, List.length_map, List.map_map, List.flatMap_map]
    have hvalues := List.flatMap_congr ih
    rw [hvalues]
    rfl

end Digests

section Laws

/-- A binary number is determined by its bits. -/
theorem Numeric.Binary.bits_inj {f : Format} {x y : Binary f} : x.bits = y.bits ↔ x = y := by
  cases x
  cases y
  simp

variable {a b : Value σ} {r s : Record σ}

/-- Every value equals itself, a number that is none included. -/
theorem Value.beq_refl (a : Value σ) : (a == a) = true := beq_iff.mpr rfl

/-- Equal values have the same type. -/
theorem Value.type_eq_of_beq (h : (a == b) = true) : a.type = b.type := by
  have hnormal := congrArg Value.type (beq_iff.mp h)
  rwa [normal, normal, type_recast, type_recast] at hnormal

/-- Equal values have the same digest. -/
theorem Value.digest_eq_of_beq (h : (a == b) = true) : a.digest = b.digest := by
  rw [←digest_normal a, beq_iff.mp h, digest_normal]

/-- Every record equals itself. -/
theorem Record.beq_refl (r : Record σ) : (r == r) = true := by
  rw [beq_eq_record]
  exact Value.beq_refl (.record r)

/-- Only the fields of records matter for their equality. -/
theorem Record.beq_of_fields_eq (h : r.fields = s.fields) : (r == s) = true := by
  have hself := beq_iff.mp (beq_refl r)
  refine beq_iff.mpr ⟨congrArg (List.map Prod.fst) h, ?_⟩
  have hvalues : r.values = s.values := congrArg (List.map Prod.snd) h
  rw [←hvalues]
  exact hself.2

/-- Equal records have the same digest. -/
theorem Record.digest_eq_of_beq (h : (r == s) = true) : r.digest = s.digest := by
  rw [beq_eq_record] at h
  have hdigest := Value.digest_eq_of_beq h
  rw [Value.digest, Value.digest] at hdigest
  exact (List.cons.inj hdigest).2

/-- Values that differ in stamps and services only are equal to the same
values. -/
theorem Value.beq_congr_bare {a' b' : Value τ} (ha : a.bare = a'.bare) (hb : b.bare = b'.bare) :
    (a == b) = (a' == b') := by
  have hnormal : a.normal = a'.normal := by
    rw [normal, normal, ←recast_bare a, ha, recast_bare]
  have hnormal' : b.normal = b'.normal := by
    rw [normal, normal, ←recast_bare b, hb, recast_bare]
  rw [Bool.eq_iff_iff, beq_iff, beq_iff, hnormal, hnormal']

end Laws

/-- Equality is an equivalence on the values and on the records of all depths.
Equal values have the same type and the same digest. Floating point numbers are
compared by their bits, decimals by the number that they denote, values of the
application by their handle, and records by their names and values in order;
the stamps and the services in them do not matter at any depth. -/
theorem equality_laws :
    (Equivalence fun a b : Value σ => (a == b) = true) ∧
      (Equivalence fun r s : Record σ => (r == s) = true) ∧
      (∀ a b : Value σ, (a == b) = true → a.type = b.type ∧ a.digest = b.digest) ∧
      (∀ r s : Record σ, (r == s) = true → r.digest = s.digest) ∧
      (∀ r s : Record σ, (r == s) = true ↔
        r.names = s.names ∧ List.Forall₂ (fun a b => (a == b) = true) r.values s.values) ∧
      (∀ x y : Single, ((.float x : Value σ) == .float y) = true ↔ x.bits = y.bits) ∧
      (∀ x y : Double, ((.double x : Value σ) == .double y) = true ↔ x.bits = y.bits) ∧
      (∀ d e : Decimal, ((.decimal d : Value σ) == .decimal e) = true ↔ d.value = e.value) ∧
      (∀ f g : Foreign, ((.foreign f : Value σ) == .foreign g) = true ↔ f.handle = g.handle) ∧
      ∀ (a b : Value σ) (a' b' : Value τ), a.bare = a'.bare → b.bare = b'.bare →
        (a == b) = (a' == b') := by
  refine ⟨⟨Value.beq_refl, ?_, ?_⟩, ⟨Record.beq_refl, ?_, ?_⟩, ?_, ?_, ?_, ?_, ?_, ?_, ?_, ?_⟩
  · intro a b h
    exact Value.beq_iff.mpr (Value.beq_iff.mp h).symm
  · intro a b c hab hbc
    exact Value.beq_iff.mpr ((Value.beq_iff.mp hab).trans (Value.beq_iff.mp hbc))
  · intro r s h
    rw [Record.beq_eq_record, Value.beq_iff] at h ⊢
    exact h.symm
  · intro r s t hrs hst
    rw [Record.beq_eq_record, Value.beq_iff] at hrs hst ⊢
    exact hrs.trans hst
  · intro a b h
    exact ⟨Value.type_eq_of_beq h, Value.digest_eq_of_beq h⟩
  · intro r s h
    exact Record.digest_eq_of_beq h
  · intro r s
    exact Record.beq_iff
  · intro x y
    simp [Value.beq_iff, Value.normal, Value.recast, Binary.bits_inj]
  · intro x y
    simp [Value.beq_iff, Value.normal, Value.recast, Binary.bits_inj]
  · intro d e
    exact Decimal.same_iff
  · intro f g
    simp [Value.beq_iff, Value.normal, Value.recast]
  · intro a b a' b' ha hb
    exact Value.beq_congr_bare ha hb

/-- An order of a customer, whose bill is a decimal and a number that is none. -/
def orderSample (stamp : Stamp) (service : σ) (d : Decimal) : Record σ :=
  ⟨[("bill".toList,
      .record ⟨[("sum".toList, .decimal d), ("rate".toList, .double ⟨0x7FF8000000000001⟩)], stamp,
        service⟩),
    ("customer".toList, .foreign ⟨7, "Customer".toList⟩)], stamp, service⟩

/-- The bills are of 1.0, 1.00 and 1, and the orders have stamps and services of
their own. -/
theorem equality_laws_sample :
    let first := orderSample ⟨1, 10⟩ 1 ⟨10, 1⟩
    let second := orderSample ⟨2, 20⟩ 2 ⟨100, 2⟩
    let third := orderSample ⟨3, 30⟩ 3 ⟨1, 0⟩
    ((first == second) = true ∧ (second == third) = true) ∧ (first == third) = true ∧
      (second == first) = true ∧ first.digest = second.digest ∧
      (Value.record first).type = (Value.record second).type ∧
      (Value.record first).bare = (Value.record (orderSample ⟨4, 40⟩ () ⟨10, 1⟩)).bare ∧
      (Value.record first == .record second) =
        (Value.record (orderSample ⟨4, 40⟩ () ⟨10, 1⟩) ==
          .record (orderSample ⟨5, 50⟩ () ⟨100, 2⟩)) := by
  intro first second third
  have hfirst : (first == second) = true := by decide
  have hsecond : (second == third) = true := by decide
  have hbare : (Value.record first).bare =
      (Value.record (orderSample ⟨4, 40⟩ () ⟨10, 1⟩)).bare := rfl
  have hbare' : (Value.record second).bare =
      (Value.record (orderSample ⟨5, 50⟩ () ⟨100, 2⟩)).bare := rfl
  obtain ⟨-, hequivalence, hvalues, hdigests, -, -, -, -, -, hcongr⟩ :=
    equality_laws (σ := Nat) (τ := Unit)
  exact ⟨⟨hfirst, hsecond⟩, hequivalence.trans hfirst hsecond, hequivalence.symm hfirst,
    hdigests _ _ hfirst, (hvalues (.record first) (.record second) hfirst).1, hbare,
    hcongr _ _ _ _ hbare hbare'⟩

end DataPipeline
