/-
Compositions form a monoid in which the later container of a name wins.

`merge` is associative with `empty` on both sides, so a merged list may be regrouped at will (`mergeAll_append`,
`mergeAll_flatten`). A merged list has the containers of all its members, the last one of a name, and their volumes in
order (`services_mergeAll`, `volumes_mergeAll`).
-/
import Fleet.Container
import Fleet.Proofs.SortedMap

namespace Fleet.Composition

variable {a b : Composition}

theorem get?_merge (a b : Composition) (name : String) :
    (a.merge b).services.get? name = (b.services.get? name).or (a.services.get? name) :=
  SortedMap.get?_merge a.services b.services name

/-- a composition is its look-ups and its volumes -/
theorem ext_get? (hservices : ∀ name, a.services.get? name = b.services.get? name) (hvolumes : a.volumes = b.volumes) :
    a = b := by
  obtain ⟨services, volumes⟩ := a
  obtain ⟨services', volumes'⟩ := b
  obtain rfl : services = services' := SortedMap.ext_get? hservices
  obtain rfl : volumes = volumes' := hvolumes
  rfl

@[simp] theorem merge_empty (a : Composition) : a.merge empty = a :=
  ext_get? (fun name => get?_merge a empty name) (List.append_nil _)

@[simp] theorem empty_merge (a : Composition) : empty.merge a = a :=
  ext_get? (fun name => (get?_merge empty a name).trans Option.or_none) rfl

theorem merge_assoc (a b c : Composition) : (a.merge b).merge c = a.merge (b.merge c) :=
  ext_get? (fun name => by simp only [get?_merge, Option.or_assoc]) (List.append_assoc _ _ _)

/-! ## Merged lists -/

theorem foldl_merge (a : Composition) (cs : List Composition) : cs.foldl merge a = a.merge (mergeAll cs) := by
  induction cs generalizing a with
  | nil => exact (merge_empty a).symm
  | cons c cs ih =>
    have hhead : mergeAll (c :: cs) = c.merge (mergeAll cs) := by
      unfold mergeAll
      rw [List.foldl_cons, empty_merge]
      exact ih c
    rw [List.foldl_cons, ih, merge_assoc, hhead]

theorem mergeAll_cons (c : Composition) (cs : List Composition) : mergeAll (c :: cs) = c.merge (mergeAll cs) := by
  rw [mergeAll, List.foldl_cons, empty_merge, foldl_merge]

theorem mergeAll_append (cs ds : List Composition) : mergeAll (cs ++ ds) = (mergeAll cs).merge (mergeAll ds) := by
  rw [mergeAll, List.foldl_append, foldl_merge]
  rfl

/-- merging group by group makes no difference -/
theorem mergeAll_flatten (groups : List (List Composition)) :
    mergeAll groups.flatten = mergeAll (groups.map mergeAll) := by
  induction groups with
  | nil => rfl
  | cons group groups ih => rw [List.flatten_cons, mergeAll_append, ih, List.map_cons, mergeAll_cons]

/-- the containers of a merged list, the last one of each name -/
theorem services_mergeAll (cs : List Composition) :
    (mergeAll cs).services = .ofList (cs.flatMap fun c => c.services.entries) := by
  have hfold (a : Composition) (cs : List Composition) :
      (cs.foldl merge a).services = a.services.insertAll (cs.flatMap fun c => c.services.entries) := by
    induction cs generalizing a with
    | nil => rfl
    | cons c cs ih =>
      rw [List.foldl_cons, ih, List.flatMap_cons, SortedMap.insertAll, SortedMap.insertAll, List.foldl_append]
      rfl
  exact hfold empty cs

theorem volumes_mergeAll (cs : List Composition) : (mergeAll cs).volumes = cs.flatMap Composition.volumes := by
  induction cs with
  | nil => rfl
  | cons c cs ih =>
    rw [mergeAll_cons, List.flatMap_cons, ← ih]
    rfl

end Fleet.Composition
