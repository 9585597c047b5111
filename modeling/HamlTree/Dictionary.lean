/-!
# Dictionaries

A dictionary keeps one value for each of finitely many keys, in increasing order of the keys. The
order of strings is the lexicographic order of their code points. Two dictionaries with the same
entries are therefore equal, and listing the entries needs no further sorting.

The list functions `put` and `sortEntries` do the work and are stated for themselves, since a list
of entries inside another structure cannot always carry the proof that it is sorted.
-/

namespace HamlTree

variable {α : Type}

/-- Enter a value into entries sorted by key, in place of an earlier value for the same key. -/
def put (key : String) (value : α) : List (String × α) → List (String × α)
  | [] => [(key, value)]
  | (k, v) :: entries =>
    if key < k then (key, value) :: (k, v) :: entries
    else if k < key then (k, v) :: put key value entries
    else (key, value) :: entries

/-- Entries in increasing order of their keys; of several values for one key the last counts. -/
def sortEntries (entries : List (String × α)) : List (String × α) :=
  entries.foldl (fun sorted e ↦ put e.1 e.2 sorted) []

/-- The keys are strictly increasing. -/
def KeysIncrease (entries : List (String × α)) : Prop :=
  entries.Pairwise fun a b ↦ a.1 < b.1

/-- A key entered by `put` is the new one or an old one. -/
theorem mem_put {key : String} {value : α} {entries : List (String × α)} {e : String × α}
    (h : e ∈ put key value entries) : e = (key, value) ∨ e ∈ entries := by
  induction entries with
  | nil => simpa [put] using h
  | cons x entries ih =>
    obtain ⟨k, v⟩ := x
    simp only [put] at h
    split at h
    · simpa using h
    · split at h
      · rcases List.mem_cons.mp h with rfl | h
        · simp
        · rcases ih h with rfl | h
          · simp
          · simp [h]
      · rcases List.mem_cons.mp h with rfl | h
        · simp
        · simp [h]

/-- **Entering a value keeps the keys in order.** -/
theorem KeysIncrease.put {entries : List (String × α)} (h : KeysIncrease entries) (key : String)
    (value : α) : KeysIncrease (put key value entries) := by
  induction entries with
  | nil => simp [HamlTree.put, KeysIncrease]
  | cons x entries ih =>
    obtain ⟨k, v⟩ := x
    obtain ⟨hk, hrest⟩ := List.pairwise_cons.mp h
    simp only [HamlTree.put]
    split
    · next hlt =>
      refine List.pairwise_cons.mpr ⟨fun e he ↦ ?_, h⟩
      rcases List.mem_cons.mp he with rfl | he
      · exact hlt
      · exact String.lt_trans hlt (hk e he)
    · next hnlt =>
      split
      · next hlt =>
        refine List.pairwise_cons.mpr ⟨fun e he ↦ ?_, ih hrest⟩
        rcases mem_put he with rfl | he
        · exact hlt
        · exact hk e he
      · next hngt =>
        have heq : key = k := String.le_antisymm (String.not_lt.mp hngt) (String.not_lt.mp hnlt)
        subst heq
        exact List.pairwise_cons.mpr ⟨hk, hrest⟩

/-- **Sorted entries have increasing keys.** -/
theorem keysIncrease_sortEntries (entries : List (String × α)) :
    KeysIncrease (sortEntries entries) := by
  have step : ∀ (es sorted : List (String × α)), KeysIncrease sorted →
      KeysIncrease (es.foldl (fun sorted e ↦ HamlTree.put e.1 e.2 sorted) sorted) := by
    intro es
    induction es with
    | nil => exact fun _ h ↦ h
    | cons e es ih => exact fun sorted h ↦ ih _ (h.put e.1 e.2)
  exact step entries [] List.Pairwise.nil

/-- Finitely many keys with a value each, in increasing order. -/
structure Dictionary (α : Type) where
  /-- The keys with their values. -/
  entries : List (String × α) := []
  /-- No key occurs twice, and the keys are in order. -/
  increasing : KeysIncrease entries := by exact List.Pairwise.nil

namespace Dictionary

/-- The dictionary of a list of entries; of several values for one key the last counts. -/
def ofList (entries : List (String × α)) : Dictionary α :=
  ⟨sortEntries entries, keysIncrease_sortEntries entries⟩

/-- The value of a key. -/
def get? (d : Dictionary α) (key : String) : Option α := d.entries.lookup key

/-- The keys, in order. -/
def keys (d : Dictionary α) : List String := d.entries.map (·.1)

/-- Whether there is no key at all. -/
def isEmpty (d : Dictionary α) : Bool := d.entries.isEmpty

/-- Dictionaries with the same entries are equal. -/
theorem ext {d e : Dictionary α} (h : d.entries = e.entries) : d = e := by
  cases d
  cases e
  simp_all

instance : Inhabited (Dictionary α) := ⟨{}⟩

@[simp] theorem entries_ofList (entries : List (String × α)) :
    (ofList entries).entries = sortEntries entries := rfl

end Dictionary

end HamlTree
