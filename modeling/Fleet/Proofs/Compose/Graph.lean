/-
What a compiled graph consists of.

The graph of some roles has an entry for each dependency that runs in a container, those that all share first, then for
each role in turn its own dependencies and the role itself (`entries`). Where names repeat, the last entry stays.
- `application_eq_ok_iff`: the graph of an application is compiled just if the containers of its roles are, and then it
  consists of these entries.
- `exists_service`: a service behind what all share is the graph of its role alone.
- `exists_application`: on a project that is ready, the graph of the application is compiled, in every mode.
-/
import Fleet.Compose
import Fleet.Proofs.Composition
import Fleet.Proofs.Project
import Fleet.Proofs.Traversal

namespace Fleet

namespace Dependency

variable {p : Project} {d : Dependency} {e : String × Container}

/-- the dependency's container under its name, if it runs in one -/
def component? (p : Project) (d : Dependency) : Option (String × Container) :=
  (d.container? p).map fun k => (d.containerName, k)

theorem component?_eq_some_iff : d.component? p = some e ↔ d.containerName = e.1 ∧ d.container? p = some e.2 := by
  obtain ⟨name, k⟩ := e
  simp [component?, and_comm]

theorem container?_isSome (p : Project) (d : Dependency) : (d.container? p).isSome = d.isContainerised := by
  unfold container? isContainerised
  cases d.kind <;> rfl

theorem exists_component? (p : Project) (h : d.isContainerised) : ∃ k, d.component? p = some (d.containerName, k) := by
  obtain ⟨k, hk⟩ := Option.isSome_iff_exists.1 ((container?_isSome p d).trans h)
  exact ⟨k, by rw [component?, hk]; rfl⟩

theorem isContainerised_of_component? (h : d.component? p = some e) : d.isContainerised := by
  rw [← container?_isSome p d, (component?_eq_some_iff.1 h).2]
  rfl

theorem entries_composition (p : Project) (d : Dependency) :
    (d.composition p).services.entries = (d.component? p).toList := by
  unfold composition component?
  cases d.container? p <;> rfl

end Dependency

namespace Compiler

variable {c : Compiler} {roles : List String} {role : String} {spec : Container} {specs : List (String × Container)}
  {g own : Composition}

/-! ## Entries -/

/-- what a role brings into a graph: the containers of its own dependencies, then its own -/
def brought (c : Compiler) (e : String × Container) : List (String × Container) :=
  (c.owned e.1).filterMap (·.component? c.project) ++ [e]

/-- all that a graph of these services is made of, in order -/
def entries (c : Compiler) (specs : List (String × Container)) : List (String × Container) :=
  c.shared.filterMap (·.component? c.project) ++ specs.flatMap c.brought

/-- the compositions that a role brings into a graph -/
def parts (c : Compiler) (e : String × Container) : List Composition :=
  ((c.owned e.1).map fun d => d.composition c.project) ++ [.single e.1 e.2]

/-- the dependencies of a graph -/
def inScope (c : Compiler) (roles : List String) : List Dependency := c.shared ++ roles.flatMap c.owned

/-- the graph of these services; the last entry of a name stays -/
def graphOf (c : Compiler) (specs : List (String × Container)) : Composition :=
  ⟨.ofList (c.entries specs), (c.inScope (specs.map Prod.fst)).flatMap fun d => (d.composition c.project).volumes⟩

theorem mem_entries_iff {e : String × Container} : e ∈ c.entries specs ↔
    (∃ d ∈ c.inScope (specs.map Prod.fst), d.component? c.project = some e) ∨ e ∈ specs := by
  simp only [entries, brought, inScope, List.mem_append, List.mem_filterMap, List.mem_flatMap, List.mem_map,
    List.mem_singleton]
  constructor
  · rintro (⟨d, hd, he⟩ | ⟨s, hs, ⟨d, hd, he⟩ | rfl⟩)
    · exact .inl ⟨d, .inl hd, he⟩
    · exact .inl ⟨d, .inr ⟨s.1, ⟨s, hs, rfl⟩, hd⟩, he⟩
    · exact .inr hs
  · rintro (⟨d, hd | ⟨_, ⟨s, hs, rfl⟩, hd⟩, he⟩ | hs)
    · exact .inl ⟨d, hd, he⟩
    · exact .inr ⟨s, hs, .inl ⟨d, hd, he⟩⟩
    · exact .inr ⟨e, hs, .inr rfl⟩

/-! ## Compiled graphs -/

theorem service_eq_ok_iff {x : Composition} : c.service role = .ok x ↔
    ∃ spec, c.container role = .ok spec ∧ x = .mergeAll (c.parts (role, spec)) := by
  unfold service
  cases c.container role <;> simp [parts, eq_comm]

theorem servicesOf_eq_ok_iff {xs : List Composition} : c.servicesOf roles = .ok xs ↔
    ∃ specs : List (String × Container), specs.map Prod.fst = roles ∧ (∀ e ∈ specs, c.container e.1 = .ok e.2) ∧
      xs = specs.map fun e => .mergeAll (c.parts e) := by
  rw [servicesOf, mapM_eq_ok_iff]
  simp only [service_eq_ok_iff]
  constructor
  · intro h
    induction h with
    | nil => exact ⟨[], rfl, nofun, rfl⟩
    | @cons role x roles xs hx _ ih =>
      obtain ⟨spec, hspec, rfl⟩ := hx
      obtain ⟨specs, hroles, hspecs, rfl⟩ := ih
      exact ⟨(role, spec) :: specs, by rw [List.map_cons, hroles], List.forall_mem_cons.2 ⟨hspec, hspecs⟩, rfl⟩
  · rintro ⟨specs, rfl, hspecs, rfl⟩
    rw [List.forall₂_map_left_iff, List.forall₂_map_right_iff, List.forall₂_same]
    exact fun e he => ⟨e.2, hspecs e he, rfl⟩

theorem entries_parts (c : Compiler) (e : String × Container) :
    (c.parts e).flatMap (fun x => x.services.entries) = c.brought e := by
  simp only [parts, brought, List.flatMap_append, List.flatMap_map, Dependency.entries_composition,
    List.filterMap_eq_flatMap_toList, List.flatMap_singleton]
  rfl

/-- what a graph of these services is merged from -/
theorem graphOf_eq_mergeAll (c : Compiler) (specs : List (String × Container)) : c.graphOf specs =
    .mergeAll ((c.shared.map fun d => d.composition c.project) ++ (specs.map c.parts).flatten) := by
  have hvolumes (e : String × Container) : (c.parts e).flatMap Composition.volumes =
      (c.owned e.1).flatMap fun d => (d.composition c.project).volumes := by
    simp only [parts, List.flatMap_append, List.flatMap_map, List.flatMap_singleton]
    exact List.append_nil _
  refine Composition.ext_get? (fun name => ?_) ?_
  · rw [Composition.services_mergeAll, ← List.flatMap_def, List.flatMap_append, List.flatMap_assoc, List.flatMap_map]
    simp only [entries_parts, Dependency.entries_composition, ← List.filterMap_eq_flatMap_toList]
    rfl
  · rw [Composition.volumes_mergeAll, ← List.flatMap_def, List.flatMap_append, List.flatMap_assoc, List.flatMap_map]
    simp only [hvolumes, graphOf, inScope, List.flatMap_append, List.flatMap_assoc, List.flatMap_map]

/-- **The graph of an application is compiled just if the containers of its roles are**; it consists of theirs and of
the dependencies'. -/
theorem application_eq_ok_iff : c.application = .ok g ↔ ∃ specs : List (String × Container),
    specs.map Prod.fst = c.project.roles ∧ (∀ e ∈ specs, c.container e.1 = .ok e.2) ∧ g = c.graphOf specs := by
  have hmerged (specs : List (String × Container)) :
      c.dependencies.merge (.mergeAll (specs.map fun e => .mergeAll (c.parts e))) = c.graphOf specs := by
    rw [graphOf_eq_mergeAll, Composition.mergeAll_append, Composition.mergeAll_flatten, List.map_map]
    rfl
  rw [application, services]
  constructor
  · intro h
    cases hxs : c.servicesOf c.project.roles with
    | error f =>
      rw [hxs] at h
      cases h
    | ok xs =>
      rw [hxs] at h
      cases h
      obtain ⟨specs, hroles, hspecs, rfl⟩ := servicesOf_eq_ok_iff.1 hxs
      exact ⟨specs, hroles, hspecs, hmerged specs⟩
  · rintro ⟨specs, hroles, hspecs, rfl⟩
    rw [servicesOf_eq_ok_iff.2 ⟨specs, hroles, hspecs, rfl⟩, ← hmerged]
    rfl

/-- the service that was added last is itself under its name, whatever its dependencies are called -/
theorem get?_graphOf_last (c : Compiler) (specs : List (String × Container)) (role : String) (spec : Container) :
    (c.graphOf (specs ++ [(role, spec)])).services.get? role = some spec := by
  have hlast : (c.entries (specs ++ [(role, spec)])).reverse = (role, spec) ::
      (c.entries specs ++ (c.owned role).filterMap (·.component? c.project)).reverse := by
    simp [entries, brought]
  rw [graphOf, SortedMap.get?_ofList, hlast]
  exact if_pos rfl

/-- a service alone has its container under its role; behind what all share it is the graph of that role -/
theorem exists_service (h : c.container role = .ok spec) : ∃ own, c.service role = .ok own ∧
    own.services.get? role = some spec ∧ c.dependencies.merge own = c.graphOf [(role, spec)] := by
  refine ⟨.mergeAll (c.parts (role, spec)), by rw [service, h]; rfl, ?_, ?_⟩
  · rw [Composition.services_mergeAll, entries_parts, SortedMap.get?_ofList, brought, List.reverse_append,
      List.reverse_singleton, List.singleton_append]
    exact if_pos rfl
  · rw [graphOf_eq_mergeAll, Composition.mergeAll_append, List.map_singleton, List.flatten_singleton]
    rfl

/-! ## Containers of services -/

/-- what the container of a service is on a machine -/
theorem container_onMachine (hmode : c.mode.lifecycle = .onMachine) (h : c.container role = .ok spec) :
    ∃ source s origin environment, spec = { c.localOrigin role source s origin with
      name := some role
      ports := s.onMachine.ports ++ (c.endpoints.portMapping role).toList
      environment
      dependsOn := c.dependsOn role } := by
  rw [container, hmode] at h
  obtain ⟨source, -, h⟩ := bind_eq_ok_iff.1 h
  obtain ⟨s, -, h⟩ := bind_eq_ok_iff.1 h
  obtain ⟨origin, -, h⟩ := bind_eq_ok_iff.1 h
  obtain ⟨environment, -, h⟩ := bind_eq_ok_iff.1 h
  cases h
  exact ⟨source, s, origin, environment, rfl⟩

/-- it waits for all dependencies of the service -/
theorem dependsOn_container (hmode : c.mode.lifecycle = .onMachine) (h : c.container role = .ok spec) :
    spec.dependsOn = c.dependsOn role := by
  obtain ⟨source, s, origin, environment, rfl⟩ := container_onMachine hmode h
  rfl

/-- it is linked to the service's own dependencies at most -/
theorem links_container (hmode : c.mode.lifecycle = .onMachine) (h : c.container role = .ok spec) :
    ∀ link ∈ spec.links, ∃ d ∈ c.owned role, d.isContainerised ∧ link = d.containerName ++ ":" ++ d.name := by
  obtain ⟨source, s, origin, environment, rfl⟩ := container_onMachine hmode h
  intro link hlink
  cases origin with
  | image reference => cases hlink
  | location path =>
    obtain ⟨d, hd, rfl⟩ := List.mem_map.1 hlink
    obtain ⟨hd, hcontained⟩ := List.mem_filter.1 hd
    exact ⟨d, hd, hcontained, rfl⟩

/-- it is not restarted -/
theorem restart_container (hmode : c.mode.lifecycle = .onMachine) (h : c.container role = .ok spec) :
    spec.restart = none := by
  obtain ⟨source, s, origin, environment, rfl⟩ := container_onMachine hmode h
  cases origin <;> rfl

theorem exists_container (hready : c.project.Ready) (hrole : role ∈ c.project.roles) :
    ∃ spec, c.container role = .ok spec := by
  obtain ⟨source, hentry⟩ := SortedMap.mem_keys_iff.1 hrole
  have horigin : ∃ origin, source.origin role = .ok origin := hready.origins _ (SortedMap.mem_entries_iff.2 hentry)
  obtain ⟨origin, horigin⟩ := horigin
  obtain ⟨s, hs⟩ := hready.services role hrole
  have hsource : c.source role = .ok source := by rw [Compiler.source, Project.source?, hentry]
  have hservice : c.project.service role = .ok s := by rw [Project.service, hs]
  unfold container
  cases c.mode.lifecycle with
  | onMachine =>
    have henvironment : ∃ vars, Environment.onMachine c.project role c.mode c.endpoints c.lookup = .ok vars := by
      rw [Environment.onMachine, hservice]
      exact ⟨_, rfl⟩
    obtain ⟨vars, hvars⟩ := henvironment
    simp [localContainer, hsource, hservice, horigin, hvars, Bind.bind, Except.bind]
  | inCloud =>
    simp only [deployContainer, hsource, horigin, Bind.bind, Except.bind]
    cases origin with
    | image reference => exact ⟨_, rfl⟩
    | location path => exact ⟨_, rfl⟩

/-- **On a project that is ready, the graph of the application is compiled.** -/
theorem exists_application (hready : c.project.Ready) : ∃ specs : List (String × Container),
    specs.map Prod.fst = c.project.roles ∧ (∀ e ∈ specs, c.container e.1 = .ok e.2) ∧
      c.application = .ok (c.graphOf specs) := by
  have hspecs (roles : List String) (hroles : roles ⊆ c.project.roles) : ∃ specs : List (String × Container),
      specs.map Prod.fst = roles ∧ ∀ e ∈ specs, c.container e.1 = .ok e.2 := by
    induction roles with
    | nil => exact ⟨[], rfl, by simp⟩
    | cons role roles ih =>
      obtain ⟨hrole, hrest⟩ := List.cons_subset.1 hroles
      obtain ⟨spec, hspec⟩ := exists_container hready hrole
      obtain ⟨specs, rfl, hspecs⟩ := ih hrest
      exact ⟨(role, spec) :: specs, rfl, List.forall_mem_cons.2 ⟨hspec, hspecs⟩⟩
  obtain ⟨specs, hroles, hspecs⟩ := hspecs c.project.roles (List.Subset.refl _)
  exact ⟨specs, hroles, hspecs, application_eq_ok_iff.2 ⟨specs, hroles, hspecs, rfl⟩⟩

end Compiler

end Fleet
