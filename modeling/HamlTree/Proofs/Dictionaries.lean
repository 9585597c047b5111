import Mathlib.Data.List.Induction
import Mathlib.Data.List.Sort
import HamlTree.Dictionary

/-!
# What a dictionary of entries holds

A dictionary is made of entries one after the other. Each value that is entered replaces an earlier
one for the same key and leaves all other keys alone (`lookup_put`), so in the end a key has the
last of its values (`Dictionary.get?_ofList`), and the keys are those of the entries, each once and
in order (`Dictionary.mem_keys_ofList`, `Dictionary.pairwise_keys`).

Nothing else is in a dictionary: it is known when the value of each key is (`Dictionary.ext_get?`).
So it depends only on the last value of each key, and not on how entries with different keys stand
to each other (`Dictionary.ofList_eq_ofList_iff`, `Dictionary.ofList_eq_ofList_of_filter`).
-/

namespace HamlTree

variable {α : Type}

/-- A key is looked for in the first entry first. -/
theorem lookup_cons_eq_ite (key : String) (e : String × α) (entries : List (String × α)) :
    (e :: entries).lookup key = if key = e.1 then some e.2 else entries.lookup key := by
  rw [List.lookup_cons]
  by_cases h : key = e.1
  · rw [if_pos h, beq_iff_eq.2 h]
  · rw [if_neg h, beq_eq_false_iff_ne.2 h]

/-- Where `put` enters a value: before the greater keys, and in place of an equal one. -/
theorem put_cons (key : String) (value : α) (e : String × α) (entries : List (String × α)) :
    put key value (e :: entries) = (key, value) :: e :: entries ∨
      (key ≠ e.1 ∧ put key value (e :: entries) = e :: put key value entries) ∨
      (key = e.1 ∧ put key value (e :: entries) = (key, value) :: entries) := by
  obtain ⟨k, v⟩ := e
  simp only [put]
  split
  · exact .inl rfl
  · next hle =>
    split
    · next hlt => exact .inr (.inl ⟨fun heq ↦ String.lt_irrefl k (heq ▸ hlt), rfl⟩)
    · next hge =>
      exact .inr (.inr ⟨String.le_antisymm (String.not_lt.1 hge) (String.not_lt.1 hle), rfl⟩)

/-- **Entering a value changes the value of its key only.** -/
theorem lookup_put (key : String) (value : α) (entries : List (String × α)) (k : String) :
    (put key value entries).lookup k = if k = key then some value else entries.lookup k := by
  induction entries with
  | nil => exact lookup_cons_eq_ite k (key, value) []
  | cons e entries ih =>
    rcases put_cons key value e entries with h | ⟨hne, h⟩ | ⟨heq, h⟩
    · rw [h, lookup_cons_eq_ite]
    · rw [h, lookup_cons_eq_ite, ih, lookup_cons_eq_ite]
      by_cases hk : k = e.1
      · have hkey : k ≠ key := fun hkey ↦ hne (hkey.symm.trans hk)
        rw [if_pos hk, if_neg hkey, if_pos hk]
      · rw [if_neg hk, if_neg hk]
    · rw [h, lookup_cons_eq_ite, lookup_cons_eq_ite, heq]
      by_cases hk : k = e.1
      · rw [if_pos hk, if_pos hk]
      · rw [if_neg hk, if_neg hk, if_neg hk]

/-- The keys after a value was entered are its key and the ones before. -/
theorem mem_map_fst_put {key : String} {value : α} {entries : List (String × α)} {k : String} :
    k ∈ (put key value entries).map (·.1) ↔ k = key ∨ k ∈ entries.map (·.1) := by
  induction entries with
  | nil => simp [put]
  | cons e entries ih =>
    rcases put_cons key value e entries with h | ⟨-, h⟩ | ⟨heq, h⟩
    · simp [h]
    · rw [h, List.map_cons, List.map_cons, List.mem_cons, List.mem_cons, ih]
      exact or_left_comm
    · rw [h, List.map_cons, List.map_cons, List.mem_cons, List.mem_cons, heq]
      exact or_self_left.symm

/-- The last entry is entered last. -/
theorem sortEntries_append_singleton (entries : List (String × α)) (e : String × α) :
    sortEntries (entries ++ [e]) = put e.1 e.2 (sortEntries entries) := by
  rw [sortEntries, List.foldl_append]
  rfl

namespace Dictionary

/-- **A key has the last of its values.** -/
theorem get?_ofList (entries : List (String × α)) (key : String) :
    (ofList entries).get? key = entries.reverse.lookup key := by
  rw [get?, entries_ofList]
  induction entries using List.reverseRecOn with
  | nil => rfl
  | append_singleton entries e ih =>
    rw [sortEntries_append_singleton, lookup_put, ih, List.reverse_append, List.reverse_singleton,
      List.singleton_append, lookup_cons_eq_ite]

/-- **The keys are those of the entries**, -/
theorem mem_keys_ofList {entries : List (String × α)} {key : String} :
    key ∈ (ofList entries).keys ↔ key ∈ entries.map (·.1) := by
  rw [keys, entries_ofList]
  induction entries using List.reverseRecOn with
  | nil => rfl
  | append_singleton entries e ih =>
    rw [sortEntries_append_singleton, mem_map_fst_put, ih, List.map_append, List.mem_append,
      List.map_singleton, List.mem_singleton, or_comm]

/-- in increasing order, so none of them occurs twice. -/
theorem pairwise_keys (d : Dictionary α) : d.keys.Pairwise (· < ·) :=
  List.pairwise_map.2 d.increasing

end Dictionary

/-! ### Dictionaries with the same values -/

/-- Where no key occurs twice, the value of a key is that of any of its entries. -/
theorem lookup_eq_some_iff_mem {entries : List (String × α)} (h : (entries.map (·.1)).Nodup)
    {key : String} {value : α} : entries.lookup key = some value ↔ (key, value) ∈ entries := by
  induction entries with
  | nil => simp
  | cons e entries ih =>
    obtain ⟨he, hentries⟩ := List.nodup_cons.1 h
    rw [lookup_cons_eq_ite, List.mem_cons]
    by_cases hkey : key = e.1
    · subst hkey
      have hnot : (e.1, value) ∉ entries := fun hmem ↦ he (List.mem_map.2 ⟨_, hmem, rfl⟩)
      rw [if_pos rfl, or_iff_left hnot, Option.some.injEq, Prod.ext_iff, eq_comm,
        and_iff_right rfl]
    · have hne : (key, value) ≠ e := fun heq ↦ hkey (heq ▸ rfl)
      rw [if_neg hkey, ih hentries, or_iff_right hne]

/-- The value of a key is that of the first entry for it. -/
theorem lookup_eq_head?_filter (key : String) (entries : List (String × α)) :
    entries.lookup key = (entries.filter (·.1 = key)).head?.map (·.2) := by
  induction entries with
  | nil => rfl
  | cons e entries ih =>
    rw [lookup_cons_eq_ite, ih]
    by_cases hkey : key = e.1
    · rw [if_pos hkey, List.filter_cons_of_pos (by simp [hkey])]
      rfl
    · rw [if_neg hkey, List.filter_cons_of_neg (by simp [Ne.symm hkey])]

namespace Dictionary

theorem nodup_keys (d : Dictionary α) : d.keys.Nodup := d.pairwise_keys.nodup

/-- The entries are the keys with their values. -/
theorem get?_eq_some_iff {d : Dictionary α} {key : String} {value : α} :
    d.get? key = some value ↔ (key, value) ∈ d.entries :=
  lookup_eq_some_iff_mem d.nodup_keys

/-- **Dictionaries with the same value for each key are equal.** -/
theorem ext_get? {d e : Dictionary α} (h : ∀ key, d.get? key = e.get? key) : d = e := by
  have hirrefl : Std.Irrefl fun a b : String × α ↦ a.1 < b.1 := ⟨fun a ↦ String.lt_irrefl a.1⟩
  have hantisymm : Std.Antisymm fun a b : String × α ↦ a.1 < b.1 :=
    ⟨fun a b hlt hgt ↦ absurd (String.lt_trans hlt hgt) (String.lt_irrefl a.1)⟩
  refine ext (d.increasing.eq_of_mem_iff e.increasing fun p ↦ ?_)
  rw [← get?_eq_some_iff, ← get?_eq_some_iff, h]

/-- A dictionary is that of its entries. -/
@[simp] theorem ofList_entries (d : Dictionary α) : ofList d.entries = d := by
  refine ext_get? fun key ↦ ?_
  have hnodup : (d.entries.reverse.map (·.1)).Nodup := by
    rw [List.map_reverse, List.nodup_reverse]
    exact d.nodup_keys
  rw [get?_ofList]
  refine Option.ext fun value ↦ ?_
  rw [lookup_eq_some_iff_mem hnodup, List.mem_reverse, get?_eq_some_iff]

/-- **Of the entries only the last value of each key counts**, -/
theorem ofList_eq_ofList_iff {entries entries' : List (String × α)} :
    ofList entries = ofList entries' ↔
      ∀ key, entries.reverse.lookup key = entries'.reverse.lookup key := by
  refine ⟨fun h key ↦ ?_, fun h ↦ ext_get? fun key ↦ ?_⟩
  · rw [← get?_ofList, h, get?_ofList]
  · rw [get?_ofList, h, get?_ofList]

/-- so they may change their places as long as those with the same key keep their order. -/
theorem ofList_eq_ofList_of_filter {entries entries' : List (String × α)}
    (h : ∀ key, entries.filter (·.1 = key) = entries'.filter (·.1 = key)) :
    ofList entries = ofList entries' := by
  refine ofList_eq_ofList_iff.2 fun key ↦ ?_
  rw [lookup_eq_head?_filter, List.filter_reverse, h, ← List.filter_reverse,
    ← lookup_eq_head?_filter]

end Dictionary

end HamlTree
