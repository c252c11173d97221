/-
Projects that can be worked with.

The checks of an application's names leave every role with one origin, and loading leaves every role with a
configuration.
- `checkNames_eq_ok_iff`: what the checks of names and origins amount to.
- `get?_of_loadServices`: each role has the configuration that was read for it, no other role has one.
- `loaded_of_load`: so what is loaded is `Loaded`, and in particular `Ready`.
-/
import Fleet.Machine.Memory
import Fleet.Project
import Fleet.Proofs.Naming
import Fleet.Proofs.Play
import Fleet.Proofs.SortedMap

namespace Fleet

open Dialogue Machine

/-! ## Names and origins -/

/-- the source names this origin, which is not empty, and no other -/
def Source.ComesFrom (s : Source) : Origin → Prop
  | .location path => s.location = some path ∧ path ≠ "" ∧ s.image = none
  | .image reference => s.image = some reference ∧ reference ≠ "" ∧ s.location = none

theorem Source.origin_eq_ok_iff {s : Source} {role : String} {o : Origin} : s.origin role = .ok o ↔ s.ComesFrom o := by
  obtain ⟨location, image, _⟩ := s
  cases location <;> cases image <;> cases o <;> grind [origin, origin.missing, ComesFrom]

theorem Application.checkRoles_eq_ok_iff {l : List (String × Source)} : checkRoles l = .ok () ↔
    ∀ e ∈ l, Naming.isHyphenated false e.1 = true ∧ ∃ o, e.2.origin e.1 = .ok o := by
  induction l with
  | nil => simp [checkRoles]
  | cons e l ih =>
    obtain ⟨role, source⟩ := e
    simp only [checkRoles, List.forall_mem_cons, ← ih]
    cases Naming.isHyphenated false role <;> cases source.origin role <;> simp

theorem Application.checkNames_eq_ok_iff {a : Application} : a.checkNames = .ok () ↔
    Naming.isHyphenated true a.name = true ∧
      ∀ e ∈ a.services.entries, Naming.isHyphenated false e.1 = true ∧ ∃ o, e.2.origin e.1 = .ok o := by
  rw [checkNames, ← checkRoles_eq_ok_iff]
  cases Naming.isHyphenated true a.name <;> simp

namespace Project

variable {p : Project} {dir role : String} {reads : List (Exchange Request Request.Answer)} {l : List (String × Source)}
  {loaded services : SortedMap Service}

theorem ascending_roles (p : Project) : p.roles.Pairwise (· < ·) := p.application.services.ascending_keys

/-- every role has an origin and a configuration -/
structure Ready (p : Project) : Prop where
  origins : ∀ e ∈ p.application.services.entries, ∃ o, e.2.origin e.1 = .ok o
  services : ∀ role ∈ p.roles, ∃ s, p.services.get? role = some s

/-! ## Loading -/

/-- each of these roles has the configuration that was read for it; the others have what they had before -/
theorem get?_of_loadServices (h : (loadServices dir loaded l).Play reads (.ok services)) (role : String) :
    (role ∉ l.map Prod.fst ∧ services.get? role = loaded.get? role) ∨
      ∃ source s own, (role, source) ∈ l ∧ (loadService dir role source).Play own (.ok s) ∧
        services.get? role = some s := by
  induction l generalizing loaded reads with
  | nil =>
    cases (play_done_iff.1 h).2
    exact .inl ⟨List.not_mem_nil, rfl⟩
  | cons head rest ih =>
    obtain ⟨_, hr, _⟩ | ⟨s, own, _, _, hown, hrest⟩ := play_bind_iff.1 h
    · cases hr
    obtain ⟨hnot, hget⟩ | ⟨source, s', own', hmem, hread, hget⟩ := ih hrest
    · rw [SortedMap.get?_insert] at hget
      by_cases hhead : role = head.1
      · subst hhead
        exact .inr ⟨head.2, s, own, List.mem_cons_self, hown, by rw [hget, if_pos rfl]⟩
      · refine .inl ⟨?_, by rw [hget, if_neg hhead]⟩
        rw [List.map_cons, List.mem_cons, not_or]
        exact ⟨hhead, hnot⟩
    · exact .inr ⟨source, s', own', List.mem_cons_of_mem _ hmem, hread, hget⟩

/-- what loading leaves behind: names are in order, and each role has one origin and a configuration, which is the
default one if the role comes as an image -/
structure Loaded (p : Project) : Prop where
  names : p.application.checkNames = .ok ()
  keys : p.services.keys = p.application.services.keys
  sources : ∀ role source, p.application.services.get? role = some source →
    (∃ path, source.ComesFrom (.location path)) ∨
      ∃ reference, source.ComesFrom (.image reference) ∧ p.services.get? role = some default

/-- a service that comes as an image has the default configuration -/
theorem eq_default_of_loadService {source : Source} {s : Service} {reference : String}
    (h : (loadService dir role source).Play reads (.ok s)) (horigin : source.origin role = .ok (.image reference)) :
    s = default := by
  rw [loadService, horigin] at h
  cases (play_done_iff.1 h).2
  rfl

/-- **What loading leaves behind.** -/
theorem loaded_of_load (h : (load dir).Play reads (.ok p)) : p.Loaded := by
  obtain ⟨_, hr, _⟩ | ⟨application, _, _, _, _, hchecked⟩ := play_bind_iff.1 h
  · cases hr
  obtain ⟨_, hr, _⟩ | ⟨_, _, _, _, hcheck, hload⟩ := play_bind_iff.1 hchecked
  · cases hr
  obtain ⟨_, hr, _⟩ | ⟨services, _, _, _, hservices, hend⟩ := play_bind_iff.1 hload
  · cases hr
  cases (play_done_iff.1 hend).2
  have hnames := (play_ofExcept_iff.1 hcheck).2.symm
  have hread := get?_of_loadServices hservices
  refine ⟨hnames, ?_, fun role source hsource => ?_⟩
  · refine SortedMap.keys_eq_of_get? fun role => ?_
    obtain ⟨hnot, hget⟩ | ⟨source, s, _, hmem, _, hget⟩ := hread role
    · have hnone : application.services.get? role = none := SortedMap.lookupEntry_eq_none_iff.2 hnot
      rw [hget, hnone]
      rfl
    · rw [hget, SortedMap.mem_entries_iff.1 hmem]
      rfl
  · have hentry := SortedMap.mem_entries_iff.2 hsource
    obtain ⟨-, o, horigin⟩ := (Application.checkNames_eq_ok_iff.1 hnames).2 _ hentry
    have hcomes := Source.origin_eq_ok_iff.1 horigin
    cases o with
    | location path => exact .inl ⟨path, hcomes⟩
    | image reference =>
      obtain ⟨hnot, _⟩ | ⟨source', s, _, hmem, hown, hget⟩ := hread role
      · exact absurd (List.mem_map_of_mem hentry) hnot
      · rw [SortedMap.mem_entries_iff, hsource] at hmem
        cases hmem
        rw [hget, eq_default_of_loadService hown horigin]
        exact .inr ⟨reference, hcomes, rfl⟩

theorem Loaded.ready (h : p.Loaded) : p.Ready := by
  refine ⟨fun e he => ((Application.checkNames_eq_ok_iff.1 h.names).2 e he).2, fun role hrole => ?_⟩
  exact SortedMap.mem_keys_iff.1 (h.keys ▸ hrole)

theorem ready_of_load (h : (load dir).Play reads (.ok p)) : p.Ready := (loaded_of_load h).ready

/-- a machine on which these files can be read, and no others -/
def holding (files : List (String × String)) : (q : Request) → Memory → q.Answer × Memory
  | .readFile path, m =>
    (match files.lookup path with
      | some text => .ok text
      | none => .error .notFound, m)
  | q, m => m.answer q

end Project

end Fleet
