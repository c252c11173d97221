/-
Compositions merged in any grouping, and the volumes of the compose file in any order.

A `Grouping` says which compositions are merged, and in which pairs.
- `merged_eq_mergeAll`: the pairs make no difference, a grouping merges its members from left to right.
- `defined_iff`, `undefined_iff`: the container of a component is that of the last member which has one.
- `volumes_eq_iff`: the volumes of two compose files are the same just if the same names are declared, so neither the
  order nor the number of the declarations counts.
- `merging_is_monoidal`: these together with the laws of the monoid.
-/
import Fleet.ComposeFile
import Fleet.Proofs.Composition

namespace Fleet

namespace Composition

variable {cs : List Composition} {name : String} {k : Container}

/-! ## The last container of a name -/

theorem get?_mergeAll (cs : List Composition) (name : String) :
    (mergeAll cs).services.get? name = cs.reverse.findSome? fun c => c.services.get? name := by
  induction cs with
  | nil => rfl
  | cons c cs ih =>
    rw [mergeAll_cons, get?_merge, ih, List.reverse_cons, List.findSome?_append, List.findSome?_cons]
    cases c.services.get? name <;> rfl

theorem defined_iff : (mergeAll cs).services.get? name = some k ↔
    ∃ front c back, cs = front ++ c :: back ∧ c.services.get? name = some k ∧
      ∀ d ∈ back, d.services.get? name = none := by
  rw [get?_mergeAll, List.findSome?_eq_some_iff]
  constructor
  · rintro ⟨back, c, front, hcs, hc, hback⟩
    refine ⟨front.reverse, c, back.reverse, ?_, hc, fun d hd => hback d (List.mem_reverse.1 hd)⟩
    rw [← List.reverse_reverse cs, hcs]
    simp
  · rintro ⟨front, c, back, rfl, hc, hback⟩
    exact ⟨back.reverse, c, front.reverse, by simp, hc, fun d hd => hback d (List.mem_reverse.1 hd)⟩

theorem undefined_iff : (mergeAll cs).services.get? name = none ↔ ∀ c ∈ cs, c.services.get? name = none := by
  rw [get?_mergeAll, List.findSome?_eq_none_iff]
  simp only [List.mem_reverse]

/-- a composition adds nothing to its own containers -/
theorem services_merge_self (a : Composition) : (a.merge a).services = a.services :=
  SortedMap.ext_get? fun name => (get?_merge a a name).trans Option.or_self

/-! ## Groupings -/

/-- compositions that are merged two by two -/
inductive Grouping where
  | one (c : Composition)
  | both (left right : Grouping)

namespace Grouping

def merged : Grouping → Composition
  | one c => c
  | both left right => left.merged.merge right.merged

/-- from left to right -/
def members : Grouping → List Composition
  | one c => [c]
  | both left right => left.members ++ right.members

/-- **The grouping makes no difference.** -/
theorem merged_eq_mergeAll (g : Grouping) : g.merged = mergeAll g.members := by
  induction g with
  | one c => exact (empty_merge c).symm
  | both left right ihl ihr => rw [merged, members, ihl, ihr, mergeAll_append]

end Grouping

end Composition

/-! ## Volumes of the compose file -/

namespace ComposeFile

variable {a b : Composition} {v : String}

theorem mem_volumes_iff : v ∈ (ofComposition a).volumes.keys ↔ v ∈ a.volumes := by
  simp [ofComposition, SortedMap.mem_keys_ofList_iff, List.map_map, Function.comp_def]

/-- a volume is declared without settings -/
theorem get?_volumes (a : Composition) (v : String) :
    (ofComposition a).volumes.get? v = if v ∈ a.volumes then some none else none := by
  split
  · rename_i hv
    obtain ⟨setting, hget⟩ := SortedMap.mem_keys_iff.1 (mem_volumes_iff.2 hv)
    obtain ⟨_, _, hentry⟩ := List.mem_map.1 (SortedMap.mem_of_get?_ofList hget)
    cases hentry
    exact hget
  · rename_i hv
    rw [← mem_volumes_iff, SortedMap.mem_keys_iff, ← Option.isSome_iff_exists] at hv
    exact Option.not_isSome_iff_eq_none.1 hv

theorem volumes_eq_iff :
    (ofComposition a).volumes = (ofComposition b).volumes ↔ ∀ v, v ∈ a.volumes ↔ v ∈ b.volumes := by
  constructor
  · intro h v
    rw [← mem_volumes_iff, h, mem_volumes_iff]
  · intro h
    refine SortedMap.ext_get? fun v => ?_
    simp only [get?_volumes, h v]

/-- the same compositions declare the same volumes, in whatever order and grouping they are merged -/
theorem volumes_eq_of_perm {g g' : Composition.Grouping} (h : g.members.Perm g'.members) :
    (ofComposition g.merged).volumes = (ofComposition g'.merged).volumes := by
  refine volumes_eq_iff.2 fun v => ?_
  simp only [Composition.Grouping.merged_eq_mergeAll, Composition.volumes_mergeAll, List.mem_flatMap, h.mem_iff]

end ComposeFile

namespace Composition

/-- **Compositions are a monoid in which the later container of a name wins.** A merged list has, of each name, the
container of its last member that has one, and the volumes of all members in order. Pairs may be merged in any grouping;
and for the volumes of the compose file the order does not count either, since they are the set of the names that are
declared. -/
theorem merging_is_monoidal :
    (∀ a b c : Composition, (a.merge b).merge c = a.merge (b.merge c)) ∧
    (∀ a : Composition, a.merge empty = a ∧ empty.merge a = a) ∧
    (∀ cs ds : List Composition, mergeAll (cs ++ ds) = (mergeAll cs).merge (mergeAll ds)) ∧
    (∀ g : Grouping, g.merged = mergeAll g.members) ∧
    (∀ (cs : List Composition) (name : String) (k : Container), (mergeAll cs).services.get? name = some k ↔
      ∃ front c back, cs = front ++ c :: back ∧ c.services.get? name = some k ∧
        ∀ d ∈ back, d.services.get? name = none) ∧
    (∀ (cs : List Composition) (name : String),
      (mergeAll cs).services.get? name = none ↔ ∀ c ∈ cs, c.services.get? name = none) ∧
    (∀ cs : List Composition, (mergeAll cs).volumes = cs.flatMap Composition.volumes) ∧
    (∀ a : Composition, (a.merge a).services = a.services) ∧
    (∀ a b : Composition, (ComposeFile.ofComposition a).volumes = (ComposeFile.ofComposition b).volumes ↔
      ∀ v, v ∈ a.volumes ↔ v ∈ b.volumes) ∧
    ∀ g g' : Grouping, g.members.Perm g'.members →
      (ComposeFile.ofComposition g.merged).volumes = (ComposeFile.ofComposition g'.merged).volumes := by
  refine ⟨merge_assoc, fun a => ⟨merge_empty a, empty_merge a⟩, mergeAll_append, Grouping.merged_eq_mergeAll, ?_⟩
  refine ⟨fun _ _ _ => defined_iff, fun _ _ => undefined_iff, volumes_mergeAll, services_merge_self, ?_⟩
  exact ⟨fun _ _ => ComposeFile.volumes_eq_iff, fun _ _ hperm => ComposeFile.volumes_eq_of_perm hperm⟩

/-! ## A web server in two versions -/

/-- one container called `web` with this image, and its volumes -/
def webOf (image : String) (volumes : List String) : Composition := ⟨.singleton "web" { image }, volumes⟩

/-- an older server first, a newer one afterwards -/
def upgrade : Grouping :=
  .both (.one (webOf "web:1" ["logs", "pages"])) (.both (.one empty) (.one (webOf "web:2" ["pages"])))

/-- the newer server first, and the older one last -/
def downgrade : Grouping :=
  .both (.both (.one (webOf "web:2" ["pages"])) (.one (webOf "web:1" ["logs", "pages"]))) (.one empty)

/-- the order decides which server runs, and leaves the volumes alone -/
theorem downgrade_keeps_the_volumes : upgrade.members.Perm downgrade.members ∧
    (ComposeFile.ofComposition upgrade.merged).volumes = (ComposeFile.ofComposition downgrade.merged).volumes ∧
    (upgrade.merged.services.get? "web").bind Container.image = some "web:2" ∧
    (downgrade.merged.services.get? "web").bind Container.image = some "web:1" := by
  have hperm : upgrade.members.Perm downgrade.members := by decide +kernel
  obtain ⟨-, -, -, -, -, -, -, -, -, hvolumes⟩ := merging_is_monoidal
  exact ⟨hperm, hvolumes upgrade downgrade hperm, by decide +kernel, by decide +kernel⟩

end Composition

end Fleet
