import DataPipeline.Text.Basic

/-!
# Option maps

The options of a module map keys to values. The entries are kept in
increasing order of their keys, compared character by character, so that two
maps are equal exactly when they hold the same entries and printing needs no
sorting.
-/

namespace DataPipeline.Definition

/-- A map from option keys to values, in key order. -/
structure OptionMap where
  /-- The entries in increasing order of their keys. -/
  entries : List (Text × Text)
  /-- Each key stands once, and keys increase. -/
  increasing : entries.Pairwise fun a b => a.1 < b.1
  deriving DecidableEq

namespace OptionMap

/-- The map without entries. -/
def empty : OptionMap := ⟨[], List.Pairwise.nil⟩

instance : Inhabited OptionMap := ⟨empty⟩

/-- The value of a key. -/
def get? (o : OptionMap) (key : Text) : Option Text := o.entries.lookup key

/-- Whether a key has a value. -/
def contains (o : OptionMap) (key : Text) : Bool := o.entries.any fun entry => entry.1 = key

/-- Puts an entry at its place, over an entry of the same key. -/
def insertEntry (key value : Text) : List (Text × Text) → List (Text × Text)
  | [] => [(key, value)]
  | (k, v) :: rest =>
    if key < k then (key, value) :: (k, v) :: rest
    else if key = k then (key, value) :: rest
    else (k, v) :: insertEntry key value rest

theorem mem_insertEntry {key value : Text} {entries : List (Text × Text)} {e : Text × Text}
    (h : e ∈ insertEntry key value entries) : e = (key, value) ∨ e ∈ entries := by
  induction entries with
  | nil => simpa [insertEntry] using h
  | cons head rest ih =>
    rcases head with ⟨k, v⟩
    simp only [insertEntry] at h
    split at h
    · simpa using h
    · split at h
      · rcases List.mem_cons.mp h with h | h
        · exact .inl h
        · exact .inr (List.mem_cons_of_mem _ h)
      · rcases List.mem_cons.mp h with h | h
        · exact .inr (h ▸ List.mem_cons_self)
        · exact (ih h).imp_right (List.mem_cons_of_mem _)

theorem increasing_insertEntry (key value : Text) {entries : List (Text × Text)}
    (h : entries.Pairwise fun a b => a.1 < b.1) :
    (insertEntry key value entries).Pairwise fun a b => a.1 < b.1 := by
  induction entries with
  | nil => simp [insertEntry]
  | cons head rest ih =>
    rcases head with ⟨k, v⟩
    obtain ⟨hk, hrest⟩ := List.pairwise_cons.mp h
    simp only [insertEntry]
    split
    · rename_i hlt
      refine List.pairwise_cons.mpr ⟨fun e he => ?_, h⟩
      rcases List.mem_cons.mp he with rfl | he
      · exact hlt
      · exact List.lt_trans hlt (hk e he)
    · split
      · rename_i heq
        subst heq
        exact List.pairwise_cons.mpr ⟨hk, hrest⟩
      · rename_i hlt hne
        refine List.pairwise_cons.mpr ⟨fun e he => ?_, ih hrest⟩
        rcases mem_insertEntry he with rfl | he
        · exact (List.le_iff_lt_or_eq.mp (List.not_lt.mp hlt)).resolve_right (Ne.symm hne)
        · exact hk e he

/-- The map with one more entry; an earlier value of the key is replaced. -/
def insert (o : OptionMap) (key value : Text) : OptionMap :=
  ⟨insertEntry key value o.entries, increasing_insertEntry key value o.increasing⟩

/-- The map of a list of entries, of which later ones replace earlier ones. -/
def ofList (entries : List (Text × Text)) : OptionMap :=
  entries.foldl (fun o entry => o.insert entry.1 entry.2) empty

/-- The entries as they follow a module name: ` --key=value` for each. -/
def tail (o : OptionMap) : Text :=
  o.entries.flatMap fun (key, value) => ' ' :: '-' :: '-' :: (key ++ '=' :: value)

end OptionMap

end DataPipeline.Definition
