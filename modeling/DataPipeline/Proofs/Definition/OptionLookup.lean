import DataPipeline.Definition.OptionMap

/-!
# Values of option maps

Each operation on option maps is described by the values that it leaves at
every key. A map built from a list of entries holds the last value that the
list gives to a key.
-/

namespace DataPipeline.Definition.OptionMap

/-- An entry that is put in is found under its key, and the others as before. -/
theorem lookup_insertEntry (key value k : Text) (entries : List (Text × Text)) :
    (insertEntry key value entries).lookup k =
      if k = key then some value else entries.lookup k := by
  have hself : ∀ rest : List (Text × Text), ((key, value) :: rest).lookup k =
      if k = key then some value else rest.lookup k := by
    intro rest
    by_cases hk : k = key
    · rw [hk, if_pos rfl, List.lookup_cons_self]
    · rw [if_neg hk, List.lookup_cons, beq_eq_false_iff_ne.mpr hk]
  induction entries with
  | nil => exact hself []
  | cons entry rest ih =>
    rcases entry with ⟨k', v'⟩
    rw [insertEntry]
    split
    · exact hself _
    · split
      · next heq =>
        subst heq
        rw [hself rest]
        split
        · rfl
        · next hne => rw [List.lookup_cons, beq_eq_false_iff_ne.mpr hne]
      · next hne =>
        rw [List.lookup_cons, List.lookup_cons, ih]
        by_cases hk : k = k'
        · have hkey : k ≠ key := fun h => hne (h.symm.trans hk)
          rw [beq_iff_eq.mpr hk]
          simp only [if_neg hkey]
        · rw [beq_eq_false_iff_ne.mpr hk]

/-- The empty map has no values. -/
theorem get?_empty (k : Text) : empty.get? k = none := rfl

/-- An option that is put in is found under its key, and the others as before. -/
theorem get?_insert (o : OptionMap) (key value k : Text) :
    (o.insert key value).get? k = if k = key then some value else o.get? k :=
  lookup_insertEntry key value k o.entries

/-- A map contains the keys that have a value. -/
theorem contains_eq_isSome (o : OptionMap) (k : Text) : o.contains k = (o.get? k).isSome := by
  rw [Bool.eq_iff_iff, contains, get?, List.any_eq_true, List.lookup_isSome_iff]
  constructor
  · rintro ⟨entry, hm, he⟩
    exact ⟨entry, hm, beq_iff_eq.mpr (of_decide_eq_true he).symm⟩
  · rintro ⟨entry, hm, he⟩
    exact ⟨entry, hm, decide_eq_true (beq_iff_eq.mp he).symm⟩

/-- An option that is put in adds its key. -/
theorem contains_insert (o : OptionMap) (key value k : Text) :
    (o.insert key value).contains k = (decide (k = key) || o.contains k) := by
  rw [contains_eq_isSome, contains_eq_isSome, get?_insert]
  by_cases hk : k = key
  · rw [if_pos hk, decide_eq_true hk]
    rfl
  · rw [if_neg hk, decide_eq_false hk]
    rfl

/-- The map with all entries of a list inserted in their order. -/
def insertAll (o : OptionMap) (entries : List (Text × Text)) : OptionMap :=
  entries.foldl (fun o entry => o.insert entry.1 entry.2) o

/-- A map is made of entries by putting them into the empty one. -/
theorem ofList_eq_insertAll (entries : List (Text × Text)) :
    ofList entries = empty.insertAll entries := rfl

/-- Of the entries that are put in, the last one with a key counts. -/
theorem get?_insertAll (o : OptionMap) (entries : List (Text × Text)) (k : Text) :
    (o.insertAll entries).get? k = (entries.reverse.lookup k).or (o.get? k) := by
  induction entries generalizing o with
  | nil => rfl
  | cons entry entries ih =>
    have hstep : o.insertAll (entry :: entries) =
        (o.insert entry.1 entry.2).insertAll entries := rfl
    rw [hstep, ih, List.reverse_cons, List.lookup_append, get?_insert, Option.or_assoc]
    congr 1
    rw [List.lookup_singleton]
    by_cases hk : k = entry.1
    · rw [if_pos hk, if_pos (beq_iff_eq.mpr hk), Option.some_or]
    · rw [if_neg hk, beq_eq_false_iff_ne.mpr hk]
      rfl

/-- A map made of a list gives to each key the last value that the list does. -/
theorem get?_ofList (entries : List (Text × Text)) (k : Text) :
    (ofList entries).get? k = entries.reverse.lookup k := by
  rw [ofList_eq_insertAll, get?_insertAll, get?_empty, Option.or_none]

/-- In a list with distinct keys the last value of a key is its only one. -/
theorem get?_ofList_eq_some_iff {entries : List (Text × Text)}
    (hd : (entries.map Prod.fst).Nodup) (k v : Text) :
    (ofList entries).get? k = some v ↔ (k, v) ∈ entries := by
  rw [get?_ofList]
  induction entries with
  | nil => simp
  | cons entry entries ih =>
    rcases entry with ⟨k', v'⟩
    rw [List.map_cons, List.nodup_cons] at hd
    rw [List.reverse_cons, List.lookup_append, Option.or_eq_some_iff, ih hd.2,
      List.lookup_singleton]
    constructor
    · rintro (hm | ⟨-, he⟩)
      · exact List.mem_cons_of_mem _ hm
      · split at he
        · next hk =>
          cases he
          rw [beq_iff_eq.mp hk]
          exact List.mem_cons_self
        · cases he
    · intro hm
      rcases List.mem_cons.mp hm with heq | hm
      · cases heq
        refine .inr ⟨List.lookup_eq_none_iff.mpr fun entry he => ?_, by simp⟩
        rw [bne_iff_ne]
        rintro rfl
        exact hd.1 (List.mem_map.mpr ⟨entry, List.mem_reverse.mp he, rfl⟩)
      · exact .inl hm

/-- The last value of a key in a list stands where no later entry has the key. -/
theorem lookup_reverse_eq_some_iff {entries : List (Text × Text)} {k v : Text} :
    entries.reverse.lookup k = some v ↔
      ∃ before after, entries = before ++ (k, v) :: after ∧ ∀ w, (k, w) ∉ after := by
  rw [List.lookup_eq_some_iff]
  constructor
  · rintro ⟨after, before, hentries, hlater⟩
    refine ⟨before.reverse, after.reverse, ?_, fun w hw => ?_⟩
    · rw [←List.reverse_reverse entries, hentries]
      simp
    · have hne := hlater (k, w) (List.mem_reverse.mp hw)
      exact (bne_iff_ne.mp hne) rfl
  · rintro ⟨before, after, rfl, hlater⟩
    refine ⟨after.reverse, before.reverse, by simp, fun entry he => bne_iff_ne.mpr ?_⟩
    rintro rfl
    exact hlater entry.2 (List.mem_reverse.mp he)

/-- A key beyond all others is put at the end. -/
theorem insertEntry_of_forall_lt {key value : Text} {entries : List (Text × Text)}
    (h : ∀ e ∈ entries, e.1 < key) : insertEntry key value entries = entries ++ [(key, value)] := by
  induction entries with
  | nil => rfl
  | cons entry rest ih =>
    rcases entry with ⟨k, v⟩
    have hlt : k < key := h _ List.mem_cons_self
    have hne : key ≠ k := fun heq => List.lt_irrefl k (heq ▸ hlt)
    rw [insertEntry, if_neg (List.lt_asymm hlt), if_neg hne,
      ih fun e he => h e (List.mem_cons_of_mem _ he)]
    rfl

/-- Entries with increasing keys beyond those of a map are put behind its own. -/
theorem entries_insertAll (o : OptionMap) {entries : List (Text × Text)}
    (h : (o.entries ++ entries).Pairwise fun a b => a.1 < b.1) :
    (o.insertAll entries).entries = o.entries ++ entries := by
  induction entries generalizing o with
  | nil => exact (List.append_nil _).symm
  | cons entry entries ih =>
    have hlast : (o.insert entry.1 entry.2).entries = o.entries ++ [entry] :=
      insertEntry_of_forall_lt fun e he =>
        (List.pairwise_append.mp h).2.2 e he entry List.mem_cons_self
    have hnext : ((o.insert entry.1 entry.2).entries ++ entries).Pairwise fun a b => a.1 < b.1 := by
      rw [hlast, List.append_assoc]
      exact h
    change ((o.insert entry.1 entry.2).insertAll entries).entries = _
    rw [ih _ hnext, hlast, List.append_assoc]
    rfl

/-- Maps are determined by their entries. -/
theorem eq_of_entries_eq {a b : OptionMap} (h : a.entries = b.entries) : a = b := by
  cases a
  cases b
  cases h
  rfl

/-- A map is made again of its entries. -/
theorem ofList_entries (o : OptionMap) : ofList o.entries = o :=
  eq_of_entries_eq (entries_insertAll empty o.increasing)

/-- Putting entries in adds no others. -/
theorem mem_insertAll {o : OptionMap} {entries : List (Text × Text)} {e : Text × Text}
    (h : e ∈ (o.insertAll entries).entries) : e ∈ o.entries ∨ e ∈ entries := by
  induction entries generalizing o with
  | nil => exact .inl h
  | cons entry entries ih =>
    rcases ih (o := o.insert entry.1 entry.2) h with hm | hm
    · rcases mem_insertEntry hm with rfl | hm
      · exact .inr List.mem_cons_self
      · exact .inl hm
    · exact .inr (List.mem_cons_of_mem _ hm)

/-- A map made of a list has no entries but those of the list. -/
theorem mem_ofList {entries : List (Text × Text)} {e : Text × Text}
    (h : e ∈ (ofList entries).entries) : e ∈ entries :=
  (mem_insertAll h).resolve_left (List.not_mem_nil)

end DataPipeline.Definition.OptionMap
