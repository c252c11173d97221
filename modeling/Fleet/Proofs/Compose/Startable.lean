/-
Graphs for this machine: nothing is missing in them, and they can be started.

- `complete_graphOf`: whatever a container of a local graph waits for, is linked to or mounts is in the graph
  (`Complete`).
- `startable_graphOf`: where no role is called like the container of a dependency, there is a starting order, with every
  dependency before the services that wait for it.
- `local_graphs_are_complete`: both hold of every project that is loaded, for the whole application and for the tests of
  each role.
-/
import Fleet.ComposeFile
import Fleet.Proofs.Compose.Graph
import Fleet.Proofs.Routing
import Fleet.Proofs.StartOrder.Order

namespace Fleet

open Dialogue Relation

/-- the container of a dependency waits for nothing and is linked to nothing -/
theorem Dependency.dependsOn_container {p : Project} {d : Dependency} {k : Container} (h : d.container? p = some k) :
    k.dependsOn = [] := by
  unfold container? at h
  split at h
  · cases h
    unfold busContainer
    cases d.lifecycle <;> rfl
  · cases h
  · cases h
    rfl

/-- a volume that a plain container mounts is one of the composition's -/
theorem Dependency.mem_volumes_of_generic (p : Project) {d : Dependency} (h : d.kind = .generic) {path : String}
    (hpath : path ∈ d.descriptor.settings.persist) : volumeName d.descriptor path ∈ (d.composition p).volumes := by
  unfold composition container?
  simp only [h]
  exact List.mem_map_of_mem hpath

namespace Compiler

variable {c : Compiler} {roles : List String} {role name target : String} {spec : Container}
  {specs : List (String × Container)} {g : Composition} {d : Dependency}

theorem mem_dependsOn_iff : target ∈ c.dependsOn role ↔
    ∃ d ∈ c.shared ++ c.owned role, d.isContainerised ∧ d.containerName = target := by
  rw [dependsOn, (Route.eachOnce_distinct _).mem_iff]
  simp only [List.mem_map, List.mem_filter, and_assoc]

/-! ## Nothing is missing -/

/-- the container of one of these roles under its name -/
def IsService (c : Compiler) (roles : List String) (name : String) (spec : Container) : Prop :=
  name ∈ roles ∧ c.container name = .ok spec

/-- the container of a dependency in scope under its name -/
def IsDependency (c : Compiler) (roles : List String) (d : Dependency) (name : String) (spec : Container) : Prop :=
  d ∈ c.inScope roles ∧ d.containerName = name ∧ d.container? c.project = some spec

/-- a graph of these roles in which nothing is missing -/
structure Complete (c : Compiler) (roles : List String) (g : Composition) : Prop where
  components : ∀ name spec, g.services.get? name = some spec →
    c.IsService roles name spec ∨ ∃ d, c.IsDependency roles d name spec
  closed : g.Closed
  nodup : ∀ name spec, g.services.get? name = some spec → spec.dependsOn.Nodup
  links : ∀ name spec, c.IsService roles name spec → ∀ link ∈ spec.links,
    ∃ d ∈ c.owned name, link = d.containerName ++ ":" ++ d.name ∧ d.containerName ∈ g.services.keys
  volumes : ∀ d name spec, c.IsDependency roles d name spec → d.kind = .generic → ∀ mount ∈ spec.volumes,
    ∃ volume ∈ (ComposeFile.ofComposition g).volumes.keys, ∃ path ∈ d.descriptor.settings.persist,
      volume = Dependency.volumeName d.descriptor path ∧ mount = volume ++ ":" ++ path

theorem mem_keys_graphOf {e : String × Container} (h : e ∈ c.entries specs) : e.1 ∈ (c.graphOf specs).services.keys :=
  SortedMap.mem_keys_iff.2 (SortedMap.exists_get?_ofList (List.mem_map_of_mem h))

theorem containerName_mem_keys (hd : d ∈ c.inScope (specs.map Prod.fst)) (hcontained : d.isContainerised) :
    d.containerName ∈ (c.graphOf specs).services.keys := by
  obtain ⟨k, hk⟩ := Dependency.exists_component? c.project hcontained
  exact mem_keys_graphOf (mem_entries_iff.2 (.inl ⟨d, hd, hk⟩))

theorem mem_inScope_of_mem (hrole : role ∈ roles) (hd : d ∈ c.shared ++ c.owned role) : d ∈ c.inScope roles := by
  rcases List.mem_append.1 hd with hd | hd
  · exact List.mem_append_left _ hd
  · exact List.mem_append_right _ (List.mem_flatMap.2 ⟨role, hrole, hd⟩)

/-- whatever stands in a graph is the container of a service or of a dependency -/
theorem component_cases (hspecs : ∀ e ∈ specs, c.container e.1 = .ok e.2)
    (h : (c.graphOf specs).services.get? name = some spec) : c.IsService (specs.map Prod.fst) name spec ∨
      ∃ d, c.IsDependency (specs.map Prod.fst) d name spec := by
  rcases mem_entries_iff.1 (SortedMap.mem_of_get?_ofList h) with ⟨d, hd, he⟩ | he
  · obtain ⟨hname, hk⟩ := Dependency.component?_eq_some_iff.1 he
    exact .inr ⟨d, hd, hname, hk⟩
  · exact .inl ⟨List.mem_map_of_mem he, hspecs _ he⟩

/-- **In a graph for this machine nothing is missing.** -/
theorem complete_graphOf (hmode : c.mode.lifecycle = .onMachine) (hspecs : ∀ e ∈ specs, c.container e.1 = .ok e.2) :
    c.Complete (specs.map Prod.fst) (c.graphOf specs) := by
  refine ⟨fun name spec h => component_cases hspecs h, ?_, ?_, ?_, ?_⟩
  · rintro name target ⟨spec, hget, htarget⟩
    rcases component_cases hspecs hget with ⟨hrole, hspec⟩ | ⟨d, _, _, hk⟩
    · rw [dependsOn_container hmode hspec] at htarget
      obtain ⟨d, hd, hcontained, rfl⟩ := mem_dependsOn_iff.1 htarget
      exact containerName_mem_keys (mem_inScope_of_mem hrole hd) hcontained
    · rw [Dependency.dependsOn_container hk] at htarget
      cases htarget
  · intro name spec hget
    rcases component_cases hspecs hget with ⟨_, hspec⟩ | ⟨d, _, _, hk⟩
    · rw [dependsOn_container hmode hspec]
      exact (Route.eachOnce_distinct _).nodup
    · rw [Dependency.dependsOn_container hk]
      exact List.nodup_nil
  · rintro name spec ⟨hrole, hspec⟩ link hlink
    obtain ⟨d, hd, hcontained, rfl⟩ := links_container hmode hspec link hlink
    exact ⟨d, hd, rfl, containerName_mem_keys (mem_inScope_of_mem hrole (List.mem_append_right _ hd)) hcontained⟩
  · rintro d name spec ⟨hd, _, hk⟩ hgeneric mount hmount
    have hcontainer : spec = Dependency.genericContainer d.descriptor := by
      rw [Dependency.container?, hgeneric] at hk
      exact (Option.some_inj.1 hk).symm
    rw [hcontainer] at hmount
    obtain ⟨path, hpath, rfl⟩ := List.mem_map.1 hmount
    refine ⟨_, ?_, path, hpath, rfl, rfl⟩
    refine SortedMap.mem_keys_iff.2 (SortedMap.exists_get?_ofList ?_)
    rw [List.map_map]
    refine List.mem_map.2 ⟨_, List.mem_flatMap.2 ⟨d, hd, ?_⟩, rfl⟩
    exact Dependency.mem_volumes_of_generic c.project hgeneric hpath

/-! ## Starting orders -/

/-- none of these roles is called like the container of a dependency -/
def Distinct (c : Compiler) (roles : List String) : Prop :=
  ∀ role ∈ roles, ∀ d ∈ c.inScope roles, d.isContainerised → d.containerName ≠ role

/-- the components have an order, each once, with dependencies before the services that wait for them -/
def Startable (c : Compiler) (roles : List String) (g : Composition) : Prop :=
  ∃ order, g.startOrder = .ok order ∧ order.Perm g.services.keys ∧ order.Nodup ∧
    ∀ role ∈ roles, ∀ d ∈ c.shared ++ c.owned role, d.isContainerised → [d.containerName, role].Sublist order

/-- **Where no role is called like the container of a dependency, the graph can be started.** -/
theorem startable_graphOf (hmode : c.mode.lifecycle = .onMachine) (hspecs : ∀ e ∈ specs, c.container e.1 = .ok e.2)
    (hdistinct : c.Distinct (specs.map Prod.fst)) : c.Startable (specs.map Prod.fst) (c.graphOf specs) := by
  have hcomplete := complete_graphOf hmode hspecs
  -- only services depend on anything, and only on dependencies
  have hedge {name target : String} (h : (c.graphOf specs).DependsOn name target) : name ∈ specs.map Prod.fst ∧
      ∃ d ∈ c.inScope (specs.map Prod.fst), d.isContainerised ∧ d.containerName = target := by
    obtain ⟨spec, hget, htarget⟩ := h
    rcases hcomplete.components name spec hget with ⟨hrole, hspec⟩ | ⟨d, _, _, hk⟩
    · rw [dependsOn_container hmode hspec] at htarget
      obtain ⟨d, hd, hcontained, rfl⟩ := mem_dependsOn_iff.1 htarget
      exact ⟨hrole, d, mem_inScope_of_mem hrole hd, hcontained, rfl⟩
    · rw [Dependency.dependsOn_container hk] at htarget
      cases htarget
  have hacyclic (name : String) : ¬ TransGen (c.graphOf specs).DependsOn name name := by
    intro hloop
    obtain ⟨target, hfirst, _⟩ := TransGen.head'_iff.1 hloop
    obtain ⟨middle, _, hlast⟩ := TransGen.tail'_iff.1 hloop
    obtain ⟨d, hd, hcontained, hname⟩ := (hedge hlast).2
    exact hdistinct name (hedge hfirst).1 d hd hcontained hname
  obtain ⟨order, horder, hperm, hbefore⟩ := Composition.startOrder_of_acyclic hcomplete.closed hacyclic
  refine ⟨order, horder, hperm, hperm.nodup_iff.2 (SortedMap.nodup_keys _), ?_⟩
  intro role hrole d hd hcontained
  refine hbefore role d.containerName ?_
  obtain ⟨⟨_, spec⟩, he, rfl⟩ := List.mem_map.1 hrole
  obtain ⟨spec', hget⟩ := SortedMap.mem_keys_iff.1 (mem_keys_graphOf (mem_entries_iff.2 (.inr he)))
  rcases hcomplete.components _ spec' hget with ⟨_, hspec⟩ | ⟨d', hd', hname, hk⟩
  · refine ⟨spec', hget, ?_⟩
    rw [dependsOn_container hmode hspec]
    exact mem_dependsOn_iff.2 ⟨d, hd, hcontained, rfl⟩
  · have hcontained' : d'.isContainerised := by
      rw [← Dependency.container?_isSome c.project d', hk]
      rfl
    exact absurd hname (hdistinct _ hrole d' hd' hcontained')

/-! ## Projects that are loaded -/

variable {dir : String} {reads : List (Exchange Machine.Request Machine.Request.Answer)}

/-- **The local graphs of a project that is loaded are compiled, nothing is missing in them, and where no role is called
like the container of a dependency they can be started**: the graph of the whole application, and for each role the
graph of its tests. -/
theorem local_graphs_are_complete (hload : (Project.load dir).Play reads (.ok c.project))
    (hmode : c.mode.lifecycle = .onMachine) :
    (∃ g, c.application = .ok g ∧ c.Complete c.project.roles g ∧
      (c.Distinct c.project.roles → c.Startable c.project.roles g)) ∧
    ∀ role ∈ c.project.roles, ∃ own, c.service role = .ok own ∧ c.Complete [role] (c.dependencies.merge own) ∧
      (c.Distinct [role] → c.Startable [role] (c.dependencies.merge own)) := by
  have hready := Project.ready_of_load hload
  constructor
  · obtain ⟨specs, hroles, hspecs, hg⟩ := exists_application hready
    rw [← hroles]
    exact ⟨_, hg, complete_graphOf hmode hspecs, startable_graphOf hmode hspecs⟩
  · intro role hrole
    obtain ⟨spec, hspec⟩ := exists_container hready hrole
    obtain ⟨own, hown, _, hmerged⟩ := exists_service hspec
    have hspecs : ∀ e ∈ [(role, spec)], c.container e.1 = .ok e.2 := by simpa using hspec
    refine ⟨own, hown, ?_⟩
    rw [hmerged]
    exact ⟨complete_graphOf hmode hspecs, startable_graphOf hmode hspecs⟩

/-! ## A shop with a store of sessions and one of goods -/

def pagesFiles : List (String × String) := [
  ("./application.yml", "\n".intercalate [
    "name: shop",
    "services:",
    "  database:",
    "    docker-image: mysql",
    "  web:",
    "    location: web",
    "local:",
    "  dependencies:",
    "  - name: redis",
    "    version: v7"]),
  ("./web/service.yml", "\n".intercalate [
    "local:",
    "  dependencies:",
    "  - name: mongo",
    "    version: v4",
    "    config:",
    "      persist:",
    "      - /data/db"])]

def pages : Compiler where
  project := {
    dir := "."
    application := {
      name := "shop"
      services := .ofList [("database", { image := some "mysql" }), ("web", { location := some "web" })]
      localDependencies := [{ name := "redis", version := "v7" }] }
    services := .ofList [("database", {}), ("web", { onMachine := {
      dependencies := [{ name := "mongo", version := "v4", settings := { persist := ["/data/db"] } }] } })] }
  mode := .localDevelopment
  lookup := fun _ => none

theorem exists_load_pages : ∃ reads, (Project.load ".").Play reads (.ok pages.project) := by
  have hread := play_run (Project.holding pagesFiles) (Project.load ".") {}
  have hloaded : ((Project.load ".").run (Project.holding pagesFiles) {}).1 = .ok pages.project := by decide +kernel
  rw [hloaded] at hread
  exact ⟨_, hread⟩

/-- the shop is loaded, and both stores are started before its pages -/
theorem pages_are_started_last : (∃ reads, (Project.load ".").Play reads (.ok pages.project)) ∧
    ∃ g order, pages.application = .ok g ∧ g.startOrder = .ok order ∧ ["redisv7", "web"].Sublist order ∧
      ["mongov4", "web"].Sublist order ∧ ["redisv7", "database"].Sublist order := by
  obtain ⟨reads, hread⟩ := exists_load_pages
  have hdistinct : pages.Distinct pages.project.roles := by
    unfold Distinct
    decide +kernel
  obtain ⟨⟨g, hg, _, hstartable⟩, _⟩ := local_graphs_are_complete hread rfl
  obtain ⟨order, horder, _, _, hbefore⟩ := hstartable hdistinct
  refine ⟨⟨reads, hread⟩, g, order, hg, horder, ?_, ?_, ?_⟩
  · exact hbefore "web" (by decide +kernel) ⟨{ name := "redis", version := "v7" }, .onMachine⟩ (by decide +kernel) rfl
  · exact hbefore "web" (by decide +kernel)
      ⟨{ name := "mongo", version := "v4", settings := { persist := ["/data/db"] } }, .onMachine⟩
      (by decide +kernel) rfl
  · exact hbefore "database" (by decide +kernel) ⟨{ name := "redis", version := "v7" }, .onMachine⟩
      (by decide +kernel) rfl

end Compiler

end Fleet
