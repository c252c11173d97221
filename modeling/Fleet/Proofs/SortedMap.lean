/-
Sorted maps by their look-ups.

A map is its look-ups (`ext_get?`), and its size is the number of its keys. A map of a list of pairs looks up pairs of
the list, knows every name in it, and is at most as large. Of pairs with one name the last one is looked up
(`get?_insertAll`), and of two maps that are merged the right one (`get?_merge`).
-/
import Mathlib.Data.List.Sort
import Fleet.SortedMap

namespace Fleet.SortedMap

variable {α : Type} {m m' : SortedMap α} {k : String} {v : α} {l : List (String × α)}

/-! ## Entries and look-ups -/

theorem mem_entries_of_lookupEntry (h : lookupEntry k l = some v) : (k, v) ∈ l := by
  induction l with
  | nil => cases h
  | cons e rest ih =>
    simp only [lookupEntry] at h
    split at h
    · rename_i hk
      cases h
      rw [hk]
      exact List.mem_cons_self
    · exact List.mem_cons_of_mem _ (ih h)

theorem lookupEntry_of_mem (hnodup : (l.map Prod.fst).Nodup) (h : (k, v) ∈ l) : lookupEntry k l = some v := by
  induction l with
  | nil => cases h
  | cons e rest ih =>
    obtain ⟨hfresh, hrest⟩ := List.nodup_cons.1 hnodup
    simp only [lookupEntry]
    rcases List.mem_cons.1 h with rfl | h
    · rw [if_pos rfl]
    · have hne : k ≠ e.1 := by
        rintro rfl
        exact hfresh (List.mem_map.2 ⟨_, h, rfl⟩)
      rw [if_neg hne]
      exact ih hrest h

theorem ascending_keys (m : SortedMap α) : m.keys.Pairwise (· < ·) := List.pairwise_map.2 m.ascending

theorem nodup_keys (m : SortedMap α) : m.keys.Nodup := by
  refine List.Pairwise.imp (fun {a b} hlt => ?_) (ascending_keys m)
  rintro rfl
  exact String.lt_irrefl a hlt

theorem mem_entries_iff : (k, v) ∈ m.entries ↔ m.get? k = some v :=
  ⟨lookupEntry_of_mem m.nodup_keys, mem_entries_of_lookupEntry⟩

theorem mem_keys_iff : k ∈ m.keys ↔ ∃ v, m.get? k = some v := by
  simp only [keys, List.mem_map]
  constructor
  · rintro ⟨⟨_, v⟩, he, rfl⟩
    exact ⟨v, mem_entries_iff.1 he⟩
  · rintro ⟨v, hv⟩
    exact ⟨(k, v), mem_entries_iff.2 hv, rfl⟩

/-- maps have the same keys if they look up something under the same names -/
theorem contains_iff_mem_keys : m.contains k = true ↔ k ∈ m.keys := by
  rw [contains, Option.isSome_iff_exists, mem_keys_iff]

theorem keys_eq_of_get? {β : Type} {m : SortedMap α} {m' : SortedMap β}
    (h : ∀ k, (m.get? k).isSome = (m'.get? k).isSome) : m.keys = m'.keys := by
  have hmem (k : String) : k ∈ m.keys ↔ k ∈ m'.keys := by
    rw [mem_keys_iff, mem_keys_iff, ← Option.isSome_iff_exists, ← Option.isSome_iff_exists, h k]
  have hperm : m.keys.Perm m'.keys := (List.perm_ext_iff_of_nodup (nodup_keys m) (nodup_keys m')).2 hmem
  exact hperm.eq_of_pairwise (fun a b _ _ hab hba => absurd (String.lt_trans hab hba) (String.lt_irrefl _))
    (ascending_keys m) (ascending_keys m')

theorem length_keys (m : SortedMap α) : m.keys.length = m.size := List.length_map _

theorem lookupEntry_map {β : Type} (f : String → α → β) (k : String) (l : List (String × α)) :
    lookupEntry k (l.map fun e => (e.1, f e.1 e.2)) = (lookupEntry k l).map (f k) := by
  induction l with
  | nil => rfl
  | cons e l ih =>
    simp only [List.map_cons, lookupEntry]
    split
    · rename_i hk
      rw [hk]
      rfl
    · exact ih

theorem get?_map {β : Type} (f : String → α → β) (m : SortedMap α) (k : String) :
    (m.map f).get? k = (m.get? k).map (f k) := lookupEntry_map f k m.entries

@[simp] theorem lookupEntry_append (k : String) (l l' : List (String × α)) :
    lookupEntry k (l ++ l') = (lookupEntry k l).or (lookupEntry k l') := by
  induction l with
  | nil => rfl
  | cons e l ih =>
    simp only [List.cons_append, lookupEntry]
    split
    · rfl
    · exact ih

theorem lookupEntry_eq_none_iff : lookupEntry k l = none ↔ k ∉ l.map Prod.fst := by
  induction l with
  | nil => simp [lookupEntry]
  | cons e l ih =>
    simp only [lookupEntry, List.map_cons, List.mem_cons, not_or]
    split
    · rename_i hk
      simp [hk]
    · rename_i hk
      rw [ih, and_iff_right hk]

/-- where no key repeats, the order of the entries does not count -/
theorem lookupEntry_reverse (hnodup : (l.map Prod.fst).Nodup) : lookupEntry k l.reverse = lookupEntry k l := by
  induction l with
  | nil => rfl
  | cons e l ih =>
    obtain ⟨hfresh, hrest⟩ := List.nodup_cons.1 hnodup
    rw [List.reverse_cons, lookupEntry_append, ih hrest]
    simp only [lookupEntry]
    split
    · rename_i hk
      rw [lookupEntry_eq_none_iff.2 (hk ▸ hfresh)]
      rfl
    · exact Option.or_none

/-- a map is its look-ups -/
theorem ext_get? (h : ∀ k, m.get? k = m'.get? k) : m = m' := by
  have hmem : ∀ e, e ∈ m.entries ↔ e ∈ m'.entries := by
    rintro ⟨k, v⟩
    rw [mem_entries_iff, mem_entries_iff, h k]
  have hnodup (m : SortedMap α) : m.entries.Nodup := List.Nodup.of_map Prod.fst (nodup_keys m)
  have hperm : m.entries.Perm m'.entries := (List.perm_ext_iff_of_nodup (hnodup m) (hnodup m')).2 hmem
  have heq : m.entries = m'.entries := by
    refine hperm.eq_of_pairwise (fun a b _ _ hab hba => ?_) m.ascending m'.ascending
    exact absurd (String.lt_trans hab hba) (String.lt_irrefl _)
  obtain ⟨entries, _⟩ := m
  obtain ⟨entries', _⟩ := m'
  cases heq
  rfl

/-! ## Maps of lists -/

theorem size_insert_le (m : SortedMap α) (k : String) (v : α) : (m.insert k v).size ≤ m.size + 1 := by
  have hlen (l : List (String × α)) : (insertEntry k v l).length ≤ l.length + 1 := by
    induction l with
    | nil => simp [insertEntry]
    | cons e rest ih =>
      simp only [insertEntry]
      split
      · simp
      · split
        · simp
        · simpa using ih
  exact hlen m.entries

/-- writing a list of pairs over a map: what is looked up stands in the list or stood in the map -/
theorem get?_insertAll_cases (h : (m.insertAll l).get? k = some v) : (k, v) ∈ l ∨ m.get? k = some v := by
  induction l generalizing m with
  | nil => exact .inr h
  | cons e rest ih =>
    rcases ih h with hrest | hm
    · exact .inl (List.mem_cons_of_mem _ hrest)
    · rw [get?_insert] at hm
      split at hm
      · rename_i hk
        cases hm
        rw [hk]
        exact .inl List.mem_cons_self
      · exact .inr hm

/-- of the pairs that are written over a map, the last one of a key counts -/
theorem get?_insertAll (m : SortedMap α) (l : List (String × α)) (k : String) :
    (m.insertAll l).get? k = (lookupEntry k l.reverse).or (m.get? k) := by
  induction l generalizing m with
  | nil => rfl
  | cons e rest ih =>
    have hstep : m.insertAll (e :: rest) = (m.insert e.1 e.2).insertAll rest := rfl
    rw [hstep, ih, get?_insert, List.reverse_cons, lookupEntry_append, Option.or_assoc]
    simp only [lookupEntry]
    split <;> rfl

theorem get?_ofList (l : List (String × α)) (k : String) : (ofList l).get? k = lookupEntry k l.reverse :=
  (get?_insertAll empty l k).trans Option.or_none

/-- a map is the map of its entries -/
theorem ofList_entries (m : SortedMap α) : ofList m.entries = m :=
  ext_get? fun k => (get?_ofList m.entries k).trans (lookupEntry_reverse (nodup_keys m))

/-- of two maps, the right one wins -/
theorem get?_merge (m m' : SortedMap α) (k : String) : (m.merge m').get? k = (m'.get? k).or (m.get? k) := by
  have h := get?_insertAll m m'.entries k
  rwa [lookupEntry_reverse (nodup_keys m')] at h

theorem exists_get?_insertAll (h : k ∈ l.map Prod.fst ∨ ∃ v, m.get? k = some v) :
    ∃ v, (m.insertAll l).get? k = some v := by
  induction l generalizing m with
  | nil =>
    rcases h with h | h
    · cases h
    · exact h
  | cons e rest ih =>
    refine ih ?_
    by_cases hk : k = e.1
    · exact .inr ⟨e.2, by rw [get?_insert, if_pos hk]⟩
    · rcases h with h | ⟨v, hv⟩
      · exact .inl ((List.mem_cons.1 h).resolve_left hk)
      · exact .inr ⟨v, by rw [get?_insert, if_neg hk, hv]⟩

theorem mem_keys_merge_iff : k ∈ (m.merge m').keys ↔ k ∈ m.keys ∨ k ∈ m'.keys := by
  simp only [mem_keys_iff, get?_merge, ← Option.isSome_iff_exists, Option.isSome_or, Bool.or_eq_true, or_comm]

theorem size_insertAll_le (m : SortedMap α) (l : List (String × α)) : (m.insertAll l).size ≤ m.size + l.length := by
  induction l generalizing m with
  | nil => exact Nat.le_refl _
  | cons e rest ih =>
    have hrest := ih (m.insert e.1 e.2)
    have hfirst := size_insert_le m e.1 e.2
    simp only [insertAll, List.foldl_cons, List.length_cons] at hrest ⊢
    omega

theorem mem_of_get?_ofList (h : (ofList l).get? k = some v) : (k, v) ∈ l := by
  rcases get?_insertAll_cases (m := empty) h with h | h
  · exact h
  · cases h

theorem exists_get?_ofList (h : k ∈ l.map Prod.fst) : ∃ v, (ofList l).get? k = some v :=
  exists_get?_insertAll (m := empty) (.inl h)

theorem mem_keys_ofList_iff : k ∈ (ofList l).keys ↔ k ∈ l.map Prod.fst := by
  rw [mem_keys_iff]
  refine ⟨?_, exists_get?_ofList⟩
  rintro ⟨v, hv⟩
  exact List.mem_map_of_mem (mem_of_get?_ofList hv)

theorem size_ofList_le (l : List (String × α)) : (ofList l).size ≤ l.length := by
  have h := size_insertAll_le empty l
  rwa [show (empty : SortedMap α).size = 0 from rfl, Nat.zero_add] at h

theorem eq_empty_of_isEmpty (h : m.isEmpty = true) : m = .empty := by
  obtain ⟨entries, hascending⟩ := m
  obtain rfl : entries = [] := List.isEmpty_iff.1 h
  rfl

/-! ## Maps in which nothing is said of their keys -/

theorem get?_ofList_blank (keys : List String) (v : α) (k : String) :
    (ofList (keys.map fun k => (k, v))).get? k = if k ∈ keys then some v else none := by
  have hnames : (keys.map fun k => (k, v)).map Prod.fst = keys := by
    rw [List.map_map]
    exact List.map_id keys
  have hall {k : String} {v' : α} (h : (ofList (keys.map fun k => (k, v))).get? k = some v') : k ∈ keys ∧ v' = v := by
    obtain ⟨_, hmem, heq⟩ := List.mem_map.1 (mem_of_get?_ofList h)
    cases heq
    exact ⟨hmem, rfl⟩
  by_cases hk : k ∈ keys
  · obtain ⟨v', hv'⟩ := exists_get?_ofList (hnames.symm ▸ hk)
    rw [if_pos hk, hv', (hall hv').2]
  · rw [if_neg hk, Option.eq_none_iff_forall_ne_some]
    exact fun v' hv' => hk (hall hv').1

theorem ofList_blank {keys keys' : List String} (h : ∀ k, k ∈ keys ↔ k ∈ keys') (v : α) :
    ofList (keys.map fun k => (k, v)) = ofList (keys'.map fun k => (k, v)) :=
  ext_get? fun k => by rw [get?_ofList_blank, get?_ofList_blank, if_congr (h k) rfl rfl]

end Fleet.SortedMap
