import DataPipeline.Proofs.Record.Equality
import DataPipeline.Proofs.Record.FieldReading

/-!
# Records as maps

A map in the order of insertion keeps one entry for each name, so collecting
fields in it would merge those that share their name. The names of a record
are distinct: its map has all fields in their order and makes an equal record,
and each name leads back to the position at which it stands.
-/

namespace DataPipeline

variable {σ : Type}

namespace FieldMap

variable {entries : List (Text × Value σ)} {name : Text} {value : Value σ}

/-- The entry of a new name is put at the end. -/
theorem putEntry_of_notMem (h : name ∉ entries.map Prod.fst) :
    putEntry name value entries = entries ++ [(name, value)] := by
  induction entries with
  | nil => rfl
  | cons entry entries ih =>
    obtain ⟨known, old⟩ := entry
    rw [List.map_cons, List.mem_cons, not_or] at h
    rw [putEntry, if_neg (Ne.symm h.1), ih h.2]
    rfl

/-- Entries with distinct new names are inserted in their order behind those that
are there. -/
theorem entries_foldl_insert (m : FieldMap σ)
    (h : ((m.entries ++ entries).map Prod.fst).Nodup) :
    (entries.foldl (fun m entry => m.insert entry.1 entry.2) m).entries =
      m.entries ++ entries := by
  induction entries generalizing m with
  | nil => exact (List.append_nil _).symm
  | cons entry entries ih =>
    have hfresh : entry.1 ∉ m.entries.map Prod.fst := by
      rw [List.map_append, List.map_cons, List.nodup_append] at h
      exact fun hmem => h.2.2 _ hmem _ List.mem_cons_self rfl
    have hput : (m.insert entry.1 entry.2).entries = m.entries ++ [entry] :=
      putEntry_of_notMem hfresh
    rw [List.append_cons, ←hput] at h ⊢
    exact ih _ h

/-- The map of entries with distinct names has just these entries in order. -/
theorem entries_ofList (h : (entries.map Prod.fst).Nodup) : (ofList entries).entries = entries :=
  entries_foldl_insert empty h

end FieldMap

namespace Record

variable {r : Record σ} {name : Text} {i : Nat}

section Maps

variable {m : FieldMap σ} {stamp : Stamp} {service : σ}

/-- The map of distinct names has the fields as they are. -/
theorem toMap_of_nodup (h : r.names.Nodup) : r.toMap = ⟨r.fields⟩ :=
  congrArg FieldMap.mk (FieldMap.entries_ofList h)

/-- The map of a valid record makes a record with the same fields. -/
theorem ofMap_toMap (valid : r.Valid) (stamp : Stamp) (service : σ) :
    ofMap r.toMap stamp service = .ok ⟨r.fields, stamp, service⟩ := by
  rw [toMap_of_nodup valid.shape.distinct]
  exact ofFields_eq_ok_iff.mpr ⟨valid.shape, rfl⟩

/-- A map that makes a record is the map of that record. -/
theorem toMap_ofMap (made : ofMap m stamp service = .ok r) : r.toMap = m := by
  obtain ⟨shape, rfl⟩ := ofFields_eq_ok_iff.mp made
  exact toMap_of_nodup shape.distinct

end Maps

section Positions

/-- The position of a name is the first one at which it stands. -/
theorem index?_eq_some_iff : r.index? name = some i ↔
    r.names[i]? = some name ∧ ∀ j < i, r.names[j]? ≠ some name := by
  rw [index?, List.findIdx?_eq_some_iff_getElem]
  constructor
  · rintro ⟨hi, hname, hfirst⟩
    refine ⟨List.getElem?_eq_some_iff.mpr ⟨hi, of_decide_eq_true hname⟩, fun j hj hother => ?_⟩
    obtain ⟨hlt, hother⟩ := List.getElem?_eq_some_iff.mp hother
    exact hfirst j hj (decide_eq_true hother)
  · rintro ⟨hname, hfirst⟩
    obtain ⟨hi, hname⟩ := List.getElem?_eq_some_iff.mp hname
    refine ⟨hi, decide_eq_true hname, fun j hj hother => hfirst j hj ?_⟩
    exact List.getElem?_eq_some_iff.mpr ⟨Nat.lt_trans hj hi, of_decide_eq_true hother⟩

/-- Distinct names stand at one position each. -/
theorem index?_of_nodup (h : r.names.Nodup) (hname : r.names[i]? = some name) :
    r.index? name = some i := by
  obtain ⟨hi, hname⟩ := List.getElem?_eq_some_iff.mp hname
  refine index?_eq_some_iff.mpr ⟨List.getElem?_eq_some_iff.mpr ⟨hi, hname⟩, fun j hj hother => ?_⟩
  obtain ⟨hlt, hother⟩ := List.getElem?_eq_some_iff.mp hother
  exact Nat.ne_of_lt hj ((h.getElem_inj_iff).mp (hother.trans hname.symm))

/-- The index of a name is its place among the names. -/
theorem indexOf_eq_ok_iff : r.indexOf name = .ok i ↔ r.index? name = some i := by
  rw [indexOf]
  cases r.index? name <;> simp

/-- The names of a record are those that have an index. -/
theorem exists_indexOf_iff : (∃ i, r.indexOf name = .ok i) ↔ name ∈ r.names := by
  have hsome : (∃ i, r.indexOf name = .ok i) ↔ (r.index? name).isSome = true := by
    rw [Option.isSome_iff_exists]
    exact exists_congr fun i => indexOf_eq_ok_iff
  rw [hsome, index?, List.findIdx?_isSome, List.any_eq_true]
  constructor
  · rintro ⟨other, hother, hname⟩
    rwa [←of_decide_eq_true hname]
  · exact fun hname => ⟨name, hname, decide_eq_true rfl⟩

/-- A name has a position exactly when it is the name of a field. -/
theorem hasField_iff : r.hasField name = true ↔ ∃ i, r.indexOf name = .ok i := by
  rw [exists_indexOf_iff, hasField, List.contains_iff_mem]

/-- The value at an index is the one at that place. -/
theorem value_index_eq_ok_iff {v : Value σ} :
    r.value (.index i) = .ok v ↔ r.values[i]? = some v := by
  rw [value]
  cases r.values[i]? <;> simp

/-- At each of its positions a valid record has a name and a value, which are
found by the name and by the position. -/
theorem Valid.exists_field (valid : r.Valid) (hi : i < r.size) :
    ∃ name v, r.names[i]? = some name ∧ r.values[i]? = some v ∧ r.indexOf name = .ok i ∧
      r.value (.name name) = .ok v ∧ r.value (.index i) = .ok v := by
  have hname : r.names[i]? = some r.fields[i].1 := by
    rw [names, List.getElem?_map, List.getElem?_eq_getElem hi, Option.map_some]
  obtain ⟨v, hbyName, hbyIndex⟩ := exists_value valid hname
  exact ⟨_, v, hname, value_index_eq_ok_iff.mp hbyIndex,
    indexOf_eq_ok_iff.mpr (index?_of_nodup valid.shape.distinct hname), hbyName, hbyIndex⟩

end Positions

/-- A record that is made of two lists has their names and values. -/
theorem names_ofLists {names : List Text} {values : List (Value σ)} {stamp : Stamp} {service : σ}
    (made : ofLists names values stamp service = .ok r) : r.names = names ∧ r.values = values := by
  obtain ⟨⟨hlength, -⟩, rfl⟩ := ofLists_eq_ok_iff.mp made
  exact ⟨List.map_fst_zip (Nat.le_of_eq hlength), List.map_snd_zip (Nat.le_of_eq hlength.symm)⟩

end Record

/-- Records and maps in the order of insertion hold the same. The map of a valid
record makes an equal record with the same fields in the same order, under any
stamp and service, and a map that makes a record is the map of that record; a
record that is made from parallel lists keeps both. At each of its positions a
valid record has a name, whose position it is, and a value, which is read by the
name as well as by the position. The names that have a position are those of the
fields, and there are as many names, values, types and entries of the map as the
record has fields. -/
theorem maps_and_positions {r : Record σ} (valid : r.Valid) :
    (∀ (stamp : Stamp) (service : σ), ∃ copy, Record.ofMap r.toMap stamp service = .ok copy ∧
      (copy == r) = true ∧ copy.fields = r.fields) ∧
    (∀ (m : FieldMap σ) (stamp : Stamp) (service : σ) (made : Record σ),
      Record.ofMap m stamp service = .ok made → made.toMap = m) ∧
    (∀ (names : List Text) (values : List (Value σ)) (stamp : Stamp) (service : σ)
      (made : Record σ), Record.ofLists names values stamp service = .ok made →
        made.names = names ∧ made.values = values) ∧
    (∀ i < r.size, ∃ name v, r.names[i]? = some name ∧ r.values[i]? = some v ∧
      r.indexOf name = .ok i ∧ r.value (.name name) = .ok v ∧ r.value (.index i) = .ok v) ∧
    (∀ name, r.hasField name = true ↔ ∃ i, r.indexOf name = .ok i) ∧
    r.names.length = r.size ∧ r.values.length = r.size ∧ r.types.length = r.size ∧
      r.toMap.entries.length = r.size := by
  have hlength : r.names.length = r.size ∧ r.values.length = r.size ∧ r.types.length = r.size := by
    simp [Record.names, Record.values, Record.types, Record.size]
  refine ⟨fun stamp service => ?_, fun m stamp service made => Record.toMap_ofMap,
    fun names values stamp service made => Record.names_ofLists,
    fun i hi => valid.exists_field hi, fun name => Record.hasField_iff,
    hlength.1, hlength.2.1, hlength.2.2, ?_⟩
  · exact ⟨_, Record.ofMap_toMap valid stamp service, Record.beq_of_fields_eq rfl, rfl⟩
  · rw [Record.toMap_of_nodup valid.shape.distinct]
    rfl

/-- A repeated name keeps its first position and takes the last value. -/
theorem maps_and_positions_sample :
    let m : FieldMap Unit := .ofList [("a".toList, .int 1), ("b.c".toList, .bool true),
      ("a".toList, .string "x".toList)]
    let r : Record Unit :=
      ⟨[("a".toList, .string "x".toList), ("b.c".toList, .bool true)], ⟨0, 0⟩, ()⟩
    r.Valid ∧ Record.ofMap m ⟨0, 0⟩ () = .ok r ∧ r.toMap = m ∧
      (∃ copy, Record.ofMap r.toMap ⟨1, 0⟩ () = .ok copy ∧ (copy == r) = true ∧
        copy.fields = r.fields) ∧
      1 < r.size ∧ (∃ name v, r.names[1]? = some name ∧ r.values[1]? = some v ∧
        r.indexOf name = .ok 1 ∧ r.value (.name name) = .ok v ∧ r.value (.index 1) = .ok v) ∧
      r.hasField "b.c".toList = true ∧ ∃ i, r.indexOf "b.c".toList = .ok i := by
  intro m r
  have hvalid : r.Valid :=
    .intro ⟨by decide, by decide, by simp [r]⟩ fun inner hinner => by
      simp [r, Record.values] at hinner
  have hmade : Record.ofMap m ⟨0, 0⟩ () = .ok r := rfl
  have hsize : 1 < r.size := by decide
  have hfield : r.hasField "b.c".toList = true := by decide
  obtain ⟨hcopy, hmap, -, hposition, hknown, -⟩ := maps_and_positions hvalid
  exact ⟨hvalid, hmade, hmap m _ _ r hmade, hcopy ⟨1, 0⟩ (), hsize, hposition 1 hsize, hfield,
    (hknown _).mp hfield⟩

end DataPipeline
