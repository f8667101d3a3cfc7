import DataPipeline.Proofs.Record.Projection
import Mathlib.Logic.Relation

/-!
# Construction of records

A program makes records from values that it has, fills builders with them and
takes records out of records. The values that it has are those that hold no
record and the records that it made before. Whatever it does, in any order and
however often, all of its records are valid. A selection that can be read is
therefore never misshapen, from whichever of them it is made.
-/

namespace DataPipeline

variable {σ : Type}

/-- The records and the builders that a program has. -/
structure Holdings (σ : Type) where
  /-- The records made so far. -/
  records : List (Record σ)
  /-- The builders filled so far. -/
  builders : List (Builder σ)

namespace Holdings

/-- What a program has at its start. -/
def nothing : Holdings σ := ⟨[], []⟩

/-- A value that a program can hand over: if it is a record, the program has
it. -/
def Offers (h : Holdings σ) (v : Value σ) : Prop := ∀ r, v = .record r → r ∈ h.records

/-- The records that one operation can give. -/
inductive Makes (h : Holdings σ) : Record σ → Prop
  | lists {names : List Text} {values : List (Value σ)} {stamp : Stamp} {service : σ}
      {r : Record σ} (offered : ∀ v ∈ values, h.Offers v)
      (made : Record.ofLists names values stamp service = .ok r) : Makes h r
  | map {m : FieldMap σ} {stamp : Stamp} {service : σ} {r : Record σ}
      (offered : ∀ entry ∈ m.entries, h.Offers entry.2)
      (made : Record.ofMap m stamp service = .ok r) : Makes h r
  | empty (stamp : Stamp) (service : σ) : Makes h (.empty stamp service)
  | build {b : Builder σ} {stamp : Stamp} {r : Record σ} (held : b ∈ h.builders)
      (made : b.build stamp = .ok r) : Makes h r
  | builderLists {b : Builder σ} {names : List Text} {values : List (Value σ)} {stamp : Stamp}
      {r : Record σ} (held : b ∈ h.builders) (offered : ∀ v ∈ values, h.Offers v)
      (made : b.ofLists names values stamp = .ok r) : Makes h r
  | builderMap {b : Builder σ} {m : FieldMap σ} {stamp : Stamp} {r : Record σ}
      (held : b ∈ h.builders) (offered : ∀ entry ∈ m.entries, h.Offers entry.2)
      (made : b.ofMap m stamp = .ok r) : Makes h r
  | builderEmpty {b : Builder σ} (held : b ∈ h.builders) (stamp : Stamp) : Makes h (b.empty stamp)
  /-- A copy is the same record, its identity included. -/
  | copy {r : Record σ} (held : r ∈ h.records) : Makes h r
  | select {r s : Record σ} {expression : Text} {stamp : Stamp} (held : r ∈ h.records)
      (made : r.select expression stamp = .ok s) : Makes h s
  /-- A field of a record can hold a record. -/
  | nested {r inner : Record σ} {field : Field} (held : r ∈ h.records)
      (found : r.value field = .ok (.record inner)) : Makes h inner

/-- The builders that one operation can give. -/
inductive Fills (h : Holdings σ) : Builder σ → Prop
  | new (service : σ) : Fills h (.new service)
  | put {b : Builder σ} {v : Value σ} (held : b ∈ h.builders) (name : Text)
      (offered : h.Offers v) : Fills h (b.put name v)
  | putAll {b : Builder σ} {fields : List (Text × Value σ)} (held : b ∈ h.builders)
      (offered : ∀ field ∈ fields, h.Offers field.2) : Fills h (b.putAll fields)

/-- One operation, whose result is kept with all that was there before. -/
inductive Step (h : Holdings σ) : Holdings σ → Prop
  | make {r : Record σ} (makes : h.Makes r) : Step h { h with records := r :: h.records }
  | fill {b : Builder σ} (fills : h.Fills b) : Step h { h with builders := b :: h.builders }

/-- All records are valid, those put into builders included. -/
structure Sound (h : Holdings σ) : Prop where
  /-- The records are valid. -/
  records : ∀ r ∈ h.records, r.Valid
  /-- So are the records among the values of the builders. -/
  builders : ∀ b ∈ h.builders, ∀ r, .record r ∈ b.values → r.Valid

end Holdings

section Makers

variable {stamp : Stamp} {service : σ} {r : Record σ}

/-- Fields that hold valid records only, if any, make a valid record. -/
theorem Record.valid_ofFields {fields : List (Text × Value σ)}
    (nested : ∀ inner, .record inner ∈ fields.map Prod.snd → inner.Valid)
    (made : ofFields fields stamp service = .ok r) : r.Valid := by
  obtain ⟨hshape, rfl⟩ := ofFields_eq_ok_iff.mp made
  exact .intro hshape nested

theorem Record.valid_ofLists {names : List Text} {values : List (Value σ)}
    (nested : ∀ inner, .record inner ∈ values → inner.Valid)
    (made : ofLists names values stamp service = .ok r) : r.Valid := by
  rw [ofLists] at made
  split at made
  · refine valid_ofFields (fun inner hinner => ?_) made
    obtain ⟨⟨name, v⟩, hmem, rfl⟩ := List.mem_map.mp hinner
    exact nested inner (List.of_mem_zip hmem).2
  · cases made

/-- A value of a record stands among its values, however it is addressed. -/
theorem Record.mem_values_of_value {field : Field} {v : Value σ} (h : r.value field = .ok v) :
    v ∈ r.values := by
  cases field with
  | name name =>
    rw [value] at h
    cases hv : r.value? name with
    | none => simp [hv] at h
    | some w =>
      have hw : w = v := by simpa [hv] using h
      rw [←hw]
      exact mem_values_of_value? hv
  | index index =>
    rw [value] at h
    cases hv : r.values[index]? with
    | none => simp [hv] at h
    | some w =>
      have hw : w = v := by simpa [hv] using h
      rw [←hw]
      exact List.mem_of_getElem? hv

/-- The values of a filled builder are those of the fields put in, in order. -/
theorem Builder.values_putAll (b : Builder σ) (fields : List (Text × Value σ)) :
    (b.putAll fields).values = b.values ++ fields.map Prod.snd := by
  induction fields generalizing b with
  | nil => simp [putAll]
  | cons field fields ih =>
    have hstep : b.putAll (field :: fields) = (b.put field.1 field.2).putAll fields := rfl
    rw [hstep, ih, put, List.append_assoc]
    rfl

end Makers

namespace Holdings

variable {h h' : Holdings σ}

theorem Sound.offers (sound : h.Sound) {v : Value σ} (offered : h.Offers v) {r : Record σ}
    (hv : v = .record r) : r.Valid := sound.records r (offered r hv)

/-- What an operation gives is valid when all that it can use is. -/
theorem Makes.valid (sound : h.Sound) {r : Record σ} (makes : h.Makes r) : r.Valid := by
  have hvalues {values : List (Value σ)} (offered : ∀ v ∈ values, h.Offers v) :
      ∀ inner, .record inner ∈ values → inner.Valid :=
    fun inner hinner => sound.offers (offered _ hinner) rfl
  have hentries {m : FieldMap σ} (offered : ∀ entry ∈ m.entries, h.Offers entry.2) :
      ∀ inner, .record inner ∈ m.entries.map Prod.snd → inner.Valid :=
    hvalues (List.forall_mem_map.mpr offered)
  cases makes with
  | lists offered made => exact Record.valid_ofLists (hvalues offered) made
  | map offered made => exact Record.valid_ofFields (hentries offered) made
  | empty stamp service => exact Record.valid_of_fields_eq_nil rfl
  | build held made => exact Record.valid_ofLists (sound.builders _ held) made
  | builderLists held offered made => exact Record.valid_ofLists (hvalues offered) made
  | builderMap held offered made => exact Record.valid_ofFields (hentries offered) made
  | builderEmpty held stamp => exact Record.valid_of_fields_eq_nil rfl
  | copy held => exact sound.records r held
  | select held made => exact (sound.records _ held).select made
  | nested held found =>
    exact (sound.records _ held).nested (Record.mem_values_of_value found)

theorem Fills.valid (sound : h.Sound) {b : Builder σ} (fills : h.Fills b) :
    ∀ r, .record r ∈ b.values → r.Valid := by
  intro r hr
  cases fills with
  | new service => cases hr
  | put held name offered =>
    rcases List.mem_append.mp hr with hr | hr
    · exact sound.builders _ held r hr
    · exact sound.offers offered (List.mem_singleton.mp hr).symm
  | putAll held offered =>
    rw [Builder.values_putAll, List.mem_append] at hr
    rcases hr with hr | hr
    · exact sound.builders _ held r hr
    · obtain ⟨field, hfield, hv⟩ := List.mem_map.mp hr
      exact sound.offers (offered field hfield) hv

/-- One operation keeps all records valid. -/
theorem Step.sound (sound : h.Sound) (step : h.Step h') : h'.Sound := by
  cases step with
  | make makes =>
    exact ⟨List.forall_mem_cons.mpr ⟨makes.valid sound, sound.records⟩, sound.builders⟩
  | fill fills =>
    exact ⟨sound.records, List.forall_mem_cons.mpr ⟨fills.valid sound, sound.builders⟩⟩

/-- Every run of operations keeps all records valid. -/
theorem sound_of_run (run : Relation.ReflTransGen Step (nothing : Holdings σ) h) : h.Sound := by
  induction run with
  | refl => exact ⟨List.forall_mem_nil _, List.forall_mem_nil _⟩
  | tail _ step ih => exact step.sound ih

end Holdings

/-- Construction keeps the shape of records. Parallel names and values make a
record exactly when they are equally many, the names are nonempty and distinct
and no value is absent; otherwise the numbers are reported if they differ, and
else the fault of the first field that offends. All records that a program can
obtain are valid, at every depth, and every selection that can be read is made
from them without an error. -/
theorem construction_keeps_shape :
    (∀ (names : List Text) (values : List (Value σ)) (stamp : Stamp) (service : σ),
      (∀ r, Record.ofLists names values stamp service = .ok r ↔
        (names.length = values.length ∧ [] ∉ names ∧ names.Nodup ∧ .null ∉ values) ∧
          r = ⟨names.zip values, stamp, service⟩) ∧
      ∀ e, Record.ofLists names values stamp service = .error e ↔
        names.length ≠ values.length ∧ e = .sizeMismatch names.length values.length ∨
          names.length = values.length ∧ ∃ front field back,
            names.zip values = front ++ field :: back ∧ WellShaped front ∧
              Offends (front.map Prod.fst) field e) ∧
      ∀ h : Holdings σ, Relation.ReflTransGen Holdings.Step .nothing h → ∀ r ∈ h.records,
        r.Valid ∧ ∀ expression selection, Selection.parse expression = .ok selection →
          ∀ stamp, ∃ s, r.apply selection stamp = .ok s := by
  refine ⟨fun names values stamp service => ⟨fun r => ?_, fun e => ?_⟩, ?_⟩
  · exact Record.ofLists_eq_ok_iff
  · exact Record.ofLists_eq_error_iff
  · intro h run r hr
    have hvalid := (Holdings.sound_of_run run).records r hr
    refine ⟨hvalid, fun expression selection hparse stamp => ?_⟩
    exact ⟨_, Record.apply_of_valid hvalid (Selection.wellFormed_of_parse hparse) stamp⟩

/-- A record that is held by another one. -/
def innerSample : Record Unit := ⟨[("b".toList, .int 1)], ⟨0, 0⟩, ()⟩

/-- The fields of a record that holds another one, next to a name with a dot. -/
def outerFields : List (Text × Value Unit) :=
  [("a".toList, .record innerSample), ("a.c".toList, .string "x".toList)]

/-- What a selection of a value, its record and a name without a value gives. -/
def pickedSample : Record Unit :=
  ⟨[("a.b".toList, .int 1), ("a".toList, .record innerSample)], ⟨2, 0⟩, ()⟩

/-- What a program has that builds these records. -/
def holdingsSample : Holdings Unit :=
  ⟨[pickedSample, ⟨outerFields, ⟨1, 0⟩, ()⟩, innerSample],
    [(Builder.new ()).putAll outerFields, .new ()]⟩

/-- The program makes a record, puts it into a builder, builds and selects. -/
theorem run_holdingsSample : Relation.ReflTransGen Holdings.Step .nothing holdingsSample := by
  have hleaf : ∀ v ∈ [Value.int 1], Holdings.nothing.Offers (v : Value Unit) := by
    intro v hv r hr
    rw [List.mem_singleton.mp hv] at hr
    cases hr
  have houter : ∀ field ∈ outerFields, Holdings.Offers ⟨[innerSample], [.new ()]⟩ field.2 := by
    intro field hfield r hr
    rcases List.mem_cons.mp hfield with rfl | hfield
    · cases hr
      exact List.mem_cons_self
    · rw [List.mem_singleton.mp hfield] at hr
      cases hr
  have hmade : Record.ofLists ["b".toList] [.int 1] ⟨0, 0⟩ () = .ok innerSample := rfl
  have hbuilt : ((Builder.new ()).putAll outerFields).build ⟨1, 0⟩ =
      .ok ⟨outerFields, ⟨1, 0⟩, ()⟩ := rfl
  have hpicked : Record.select ⟨outerFields, ⟨1, 0⟩, ()⟩ "\x7ba . b,a,a.d\x7d".toList ⟨2, 0⟩ =
      .ok pickedSample := rfl
  have hinner : Holdings.nothing.Step _ := .make (.lists hleaf hmade)
  have hnew : Holdings.Step ⟨[innerSample], []⟩ _ := .fill (.new ())
  have hput : Holdings.Step ⟨[innerSample], [.new ()]⟩ _ :=
    .fill (.putAll List.mem_cons_self houter)
  have hbuild : Holdings.Step ⟨[innerSample], [(Builder.new ()).putAll outerFields, .new ()]⟩ _ :=
    .make (.build List.mem_cons_self hbuilt)
  have hselect : Holdings.Step ⟨[⟨outerFields, ⟨1, 0⟩, ()⟩, innerSample],
      [(Builder.new ()).putAll outerFields, .new ()]⟩ _ :=
    .make (.select List.mem_cons_self hpicked)
  exact ((((Relation.ReflTransGen.single hinner).tail hnew).tail hput).tail hbuild).tail hselect

/-- Names repeat, a value is absent and a name is empty, in this order. -/
theorem construction_keeps_shape_sample :
    Record.ofLists ["a".toList, "a".toList, []] [.int 1, .null, .bool true] ⟨0, 0⟩ () =
        .error (.duplicateName "a".toList) ∧
      Relation.ReflTransGen Holdings.Step .nothing holdingsSample ∧
      pickedSample ∈ holdingsSample.records ∧ pickedSample.Valid ∧
      Selection.parse "a".toList = .ok (.path ⟨["a".toList]⟩) ∧
      ∃ s, pickedSample.apply (.path ⟨["a".toList]⟩) ⟨3, 0⟩ = .ok s := by
  have hrepeated : Offends ["a".toList] ("a".toList, (Value.null : Value Unit)) _ :=
    .duplicateName _ _ (List.cons_ne_nil _ _) List.mem_cons_self
  have hfront : WellShaped [("a".toList, (Value.int 1 : Value Unit))] :=
    ⟨by simp, by simp, by simp⟩
  have hmem : pickedSample ∈ holdingsSample.records := List.mem_cons_self
  have hparse : Selection.parse "a".toList = .ok (.path ⟨["a".toList]⟩) := rfl
  obtain ⟨hvalid, happly⟩ := construction_keeps_shape.2 _ run_holdingsSample _ hmem
  exact ⟨((construction_keeps_shape.1 _ _ _ _).2 _).mpr
      (.inr ⟨rfl, [_], _, [_], rfl, hfront, hrepeated⟩),
    run_holdingsSample, hmem, hvalid, hparse, happly _ _ hparse _⟩

end DataPipeline
