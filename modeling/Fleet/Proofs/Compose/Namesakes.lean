/-
Services and dependencies of one name.

In a graph every name belongs to the entry that comes last. A service comes after its own dependencies and after those
that all share, so under its role stands its own container, unless a later role brings a dependency whose container is
called like it.
- `components_of_application`: what stands under each name in the graph of an application.
- `namesakes_are_mixed_up`: of two roles, the second one's dependency stands in the place of the first.
-/
import Fleet.Proofs.Compose.Startable

namespace Fleet.Compiler

open Dialogue

variable {c : Compiler} {roles : List String} {role name : String} {spec k : Container} {d : Dependency}
  {specs : List (String × Container)} {ds ds' : List Dependency} {g own : Composition}

/-! ## The last of a name -/

/-- the container of the last of these dependencies whose container has this name -/
def lastNamed (c : Compiler) (ds : List Dependency) (name : String) : Option Container :=
  SortedMap.lookupEntry name (ds.filterMap (·.component? c.project)).reverse

theorem lastNamed_append (c : Compiler) (ds ds' : List Dependency) (name : String) :
    c.lastNamed (ds ++ ds') name = (c.lastNamed ds' name).or (c.lastNamed ds name) := by
  rw [lastNamed, List.filterMap_append, List.reverse_append, SortedMap.lookupEntry_append]
  rfl

theorem exists_of_lastNamed (h : c.lastNamed ds name = some k) :
    ∃ d ∈ ds, d.containerName = name ∧ d.container? c.project = some k := by
  obtain ⟨d, hd, he⟩ := List.mem_filterMap.1 (List.mem_reverse.1 (SortedMap.mem_entries_of_lookupEntry h))
  obtain ⟨hname, hk⟩ := Dependency.component?_eq_some_iff.1 he
  exact ⟨d, hd, hname, hk⟩

theorem lastNamed_eq_none_iff : c.lastNamed ds name = none ↔ ∀ d ∈ ds, d.isContainerised → d.containerName ≠ name := by
  rw [lastNamed, SortedMap.lookupEntry_eq_none_iff]
  constructor
  · intro h d hd hcontained hname
    obtain ⟨k, hk⟩ := Dependency.exists_component? c.project hcontained
    refine h (List.mem_map.2 ⟨_, List.mem_reverse.2 (List.mem_filterMap.2 ⟨d, hd, hk⟩), hname⟩)
  · intro h hin
    obtain ⟨e, he, rfl⟩ := List.mem_map.1 hin
    obtain ⟨d, hd, he⟩ := List.mem_filterMap.1 (List.mem_reverse.1 he)
    exact h d hd (Dependency.isContainerised_of_component? he) (Dependency.component?_eq_some_iff.1 he).1

/-! ## Names in a graph -/

/-- under a name that is none of these roles, they bring the last dependency of that name -/
theorem lookup_brought (hname : name ∉ specs.map Prod.fst) :
    SortedMap.lookupEntry name (specs.flatMap c.brought).reverse =
      c.lastNamed ((specs.map Prod.fst).flatMap c.owned) name := by
  induction specs with
  | nil => rfl
  | cons e specs ih =>
    rw [List.map_cons, List.mem_cons, not_or] at hname
    obtain ⟨hfirst, hrest⟩ := hname
    have hown : SortedMap.lookupEntry name (c.brought e).reverse = c.lastNamed (c.owned e.1) name := by
      rw [brought, List.reverse_append, List.reverse_singleton, List.singleton_append, SortedMap.lookupEntry,
        if_neg hfirst]
      rfl
    rw [List.flatMap_cons, List.reverse_append, SortedMap.lookupEntry_append, ih hrest, hown, List.map_cons,
      List.flatMap_cons, lastNamed_append]

theorem get?_graphOf_of_not_role (hname : name ∉ specs.map Prod.fst) :
    (c.graphOf specs).services.get? name = c.lastNamed (c.inScope (specs.map Prod.fst)) name := by
  rw [graphOf, SortedMap.get?_ofList, entries, List.reverse_append, SortedMap.lookupEntry_append, lookup_brought hname,
    inScope, lastNamed_append]
  rfl

/-- under a role stands its container, unless a dependency of a later role has its name -/
theorem get?_graphOf_of_role {before after : List (String × Container)} (hafter : role ∉ after.map Prod.fst) :
    (c.graphOf (before ++ (role, spec) :: after)).services.get? role =
      some ((c.lastNamed ((after.map Prod.fst).flatMap c.owned) role).getD spec) := by
  have hentries : c.entries (before ++ (role, spec) :: after) =
      c.entries (before ++ [(role, spec)]) ++ after.flatMap c.brought := by
    simp [entries]
  have hself := get?_graphOf_last c before role spec
  rw [graphOf, SortedMap.get?_ofList] at hself ⊢
  rw [hentries, List.reverse_append, SortedMap.lookupEntry_append, lookup_brought hafter, hself]
  cases c.lastNamed ((after.map Prod.fst).flatMap c.owned) role <;> rfl

/-! ## Applications -/

/-- what the roles after a role bring for themselves -/
def ownedLater (c : Compiler) (role : String) : List Dependency :=
  (c.project.roles.filter fun later => role < later).flatMap c.owned

/-- each role has the container that is compiled for it, and each container of a dependency is one of its name -/
def Separate (c : Compiler) (g : Composition) : Prop :=
  (∀ role ∈ c.project.roles, ∀ own, c.service role = .ok own → g.services.get? role = own.services.get? role) ∧
  ∀ d ∈ c.inScope c.project.roles, d.isContainerised → ∃ d' ∈ c.inScope c.project.roles,
    d'.containerName = d.containerName ∧ ∃ k, d'.container? c.project = some k ∧
      g.services.get? d.containerName = some k

theorem roles_after {before after : List String} (h : c.project.roles = before ++ role :: after) :
    (c.project.roles.filter fun later => role < later) = after ∧ role ∉ after := by
  have hascending := c.project.ascending_roles
  rw [h] at hascending ⊢
  obtain ⟨_, hrest, hbefore⟩ := List.pairwise_append.1 hascending
  obtain ⟨hafter, _⟩ := List.pairwise_cons.1 hrest
  have hnone : before.filter (fun later => role < later) = [] := by
    refine List.filter_eq_nil_iff.2 fun r hr => ?_
    have hlt := hbefore r hr role List.mem_cons_self
    have hback : ¬ role < r := fun h => String.lt_irrefl r (String.lt_trans hlt h)
    simpa using hback
  have hall : after.filter (fun later => role < later) = after :=
    List.filter_eq_self.2 fun r hr => by simpa using hafter r hr
  constructor
  · rw [List.filter_append, hnone, List.nil_append, List.filter_cons_of_neg (by simp), hall]
  · intro hin
    exact String.lt_irrefl role (hafter role hin)

/-- a dependency of a local graph runs in a container that is restarted -/
theorem restart_dependency (hmode : c.mode.lifecycle = .onMachine) (hd : d ∈ c.inScope roles)
    (hk : d.container? c.project = some k) : k.restart = some Dependency.restartPolicy := by
  have hlifecycle : d.lifecycle = .onMachine := by
    rcases List.mem_append.1 hd with hd | hd
    · obtain ⟨_, _, rfl⟩ := List.mem_map.1 hd
      exact hmode
    · obtain ⟨_, _, hd⟩ := List.mem_flatMap.1 hd
      obtain ⟨_, _, rfl⟩ := List.mem_map.1 hd
      exact hmode
  unfold Dependency.container? at hk
  split at hk
  · cases hk
    simp [Dependency.busContainer, hlifecycle]
  · cases hk
  · cases hk
    rfl

/-- a graph has the last container of each name: that of a dependency of a later role, or else the role's own -/
structure Arranged (c : Compiler) (g : Composition) : Prop where
  role : ∀ role ∈ c.project.roles, ∃ spec own, c.container role = .ok spec ∧ c.service role = .ok own ∧
    own.services.get? role = some spec ∧
    g.services.get? role = some ((c.lastNamed (c.ownedLater role) role).getD spec)
  other : ∀ name, name ∉ c.project.roles → g.services.get? name = c.lastNamed (c.inScope c.project.roles) name

theorem arranged_graphOf (hroles : specs.map Prod.fst = c.project.roles)
    (hspecs : ∀ e ∈ specs, c.container e.1 = .ok e.2) : c.Arranged (c.graphOf specs) where
  role role h := by
    obtain ⟨⟨_, spec⟩, he, rfl⟩ := List.mem_map.1 (hroles ▸ h)
    obtain ⟨before, after, rfl⟩ := List.append_of_mem he
    rw [List.map_append, List.map_cons] at hroles
    obtain ⟨hlater, hafter⟩ := roles_after hroles.symm
    have hspec := hspecs _ he
    obtain ⟨own, hown, hget, _⟩ := exists_service hspec
    refine ⟨spec, own, hspec, hown, hget, ?_⟩
    rw [get?_graphOf_of_role hafter, ownedLater, hlater]
  other name h := by
    rw [← hroles] at h ⊢
    exact get?_graphOf_of_not_role h

theorem Arranged.separate (h : c.Arranged g) (hdistinct : c.Distinct c.project.roles) : c.Separate g := by
  constructor
  · intro role hrole own hown
    obtain ⟨spec, own', _, hown', hget, hgraph⟩ := h.role role hrole
    obtain rfl : own' = own := by
      rw [hown] at hown'
      injection hown'.symm
    have hnone : c.lastNamed (c.ownedLater role) role = none := by
      refine lastNamed_eq_none_iff.2 fun d hd hcontained => hdistinct role hrole d ?_ hcontained
      obtain ⟨later, hlater, hd⟩ := List.mem_flatMap.1 hd
      exact mem_inScope_of_mem (List.mem_filter.1 hlater).1 (List.mem_append_right _ hd)
    rw [hgraph, hnone, hget]
    rfl
  · intro d hd hcontained
    have hname : d.containerName ∉ c.project.roles := fun hrole => hdistinct _ hrole d hd hcontained rfl
    cases hlast : c.lastNamed (c.inScope c.project.roles) d.containerName with
    | none => exact absurd rfl (lastNamed_eq_none_iff.1 hlast d hd hcontained)
    | some k =>
      obtain ⟨d', hd', hsame, hk⟩ := exists_of_lastNamed hlast
      exact ⟨d', hd', hsame, k, hk, by rw [h.other _ hname, hlast]⟩

/-- on a machine, the container of a dependency is restarted and that of a service is not, so they are told apart -/
theorem Arranged.distinct (h : c.Arranged g) (hmode : c.mode.lifecycle = .onMachine) (hseparate : c.Separate g) :
    c.Distinct c.project.roles := by
  obtain ⟨hservices, hdependencies⟩ := hseparate
  rintro role hrole d hd hcontained rfl
  obtain ⟨spec, own, hspec, hown, hget, _⟩ := h.role _ hrole
  obtain ⟨d', hd', _, k, hk, hgraph⟩ := hdependencies d hd hcontained
  rw [hservices _ hrole own hown, hget, Option.some_inj] at hgraph
  have hrestart := restart_dependency hmode hd' hk
  rw [← hgraph, restart_container hmode hspec] at hrestart
  cases hrestart

variable {dir : String} {reads : List (Exchange Machine.Request Machine.Request.Answer)}

/-- **What stands under each name in the graph of an application that is loaded, in every mode.**
- Under a role stands the container that is compiled for it, unless later roles have dependencies of their own whose
  container has that name: then the last one of these.
- Under another name stands the last dependency in scope whose container has that name.

So services and dependencies keep apart where no role is called like the container of a dependency, and on a machine
only there. -/
theorem components_of_application (hload : (Project.load dir).Play reads (.ok c.project)) : ∃ g, c.application = .ok g ∧
    (∀ role ∈ c.project.roles, ∃ spec own, c.container role = .ok spec ∧ c.service role = .ok own ∧
      own.services.get? role = some spec ∧
      g.services.get? role = some ((c.lastNamed (c.ownedLater role) role).getD spec)) ∧
    (∀ name, name ∉ c.project.roles → g.services.get? name = c.lastNamed (c.inScope c.project.roles) name) ∧
    (c.Distinct c.project.roles → c.Separate g) ∧
    (c.mode.lifecycle = .onMachine → c.Separate g → c.Distinct c.project.roles) := by
  obtain ⟨specs, hroles, hspecs, hg⟩ := exists_application (Project.ready_of_load hload)
  have harranged := arranged_graphOf hroles hspecs
  exact ⟨c.graphOf specs, hg, harranged.role, harranged.other, harranged.separate, harranged.distinct⟩

/-! ## A shop whose reports are called like its store -/

def namesakeFiles : List (String × String) := [
  ("./application.yml", "\n".intercalate [
    "name: shop",
    "services:",
    "  mongov3:",
    "    docker-image: reports",
    "  web:",
    "    location: web"]),
  ("./web/service.yml", "\n".intercalate [
    "local:",
    "  dependencies:",
    "  - name: mongo",
    "    version: v3"])]

def namesakes : Compiler where
  project := {
    dir := "."
    application := {
      name := "shop"
      services := .ofList [("mongov3", { image := some "reports" }), ("web", { location := some "web" })] }
    services := .ofList [("mongov3", {}),
      ("web", { onMachine := { dependencies := [{ name := "mongo", version := "v3" }] } })] }
  mode := .localDevelopment
  lookup := fun _ => none

theorem exists_load_namesakes : ∃ reads, (Project.load ".").Play reads (.ok namesakes.project) := by
  have hread := play_run (Project.holding namesakeFiles) (Project.load ".") {}
  have hloaded : ((Project.load ".").run (Project.holding namesakeFiles) {}).1 = .ok namesakes.project := by
    decide +kernel
  rw [hloaded] at hread
  exact ⟨_, hread⟩

/-- under the role of the reports stands the store of the pages -/
theorem store_replaces_reports : (∃ reads, (Project.load ".").Play reads (.ok namesakes.project)) ∧
    ∃ g spec, namesakes.application = .ok g ∧ g.services.get? "mongov3" = some spec ∧ spec.image = some "mongo:v3" := by
  obtain ⟨reads, hread⟩ := exists_load_namesakes
  obtain ⟨g, hg, hroles, _⟩ := components_of_application hread
  obtain ⟨spec, _, _, _, _, hget⟩ := hroles "mongov3" (by decide +kernel)
  have hlast : namesakes.lastNamed (namesakes.ownedLater "mongov3") "mongov3" =
      some (Dependency.genericContainer { name := "mongo", version := "v3" }) := by decide +kernel
  rw [hlast] at hget
  exact ⟨⟨reads, hread⟩, g, _, hg, hget, rfl⟩

/-- the reports do not have their own container in the graph -/
theorem namesakes_are_mixed_up : ¬ ∀ (dir : String) (reads : List (Exchange Machine.Request Machine.Request.Answer))
    (c : Compiler), (Project.load dir).Play reads (.ok c.project) → ∃ g, c.application = .ok g ∧
      ∀ role ∈ c.project.roles, ∀ own, c.service role = .ok own → g.services.get? role = own.services.get? role := by
  intro h
  obtain ⟨reads, hread⟩ := exists_load_namesakes
  obtain ⟨g, hg, hkept⟩ := h _ _ namesakes hread
  have hsources : (namesakes.application.map fun g => (g.services.get? "mongov3").bind Container.image) =
      .ok (some "mongo:v3") := by decide +kernel
  have hown : (namesakes.service "mongov3").map (fun own => (own.services.get? "mongov3").bind Container.image) =
      .ok (some "reports") := by decide +kernel
  cases hservice : namesakes.service "mongov3" with
  | error f =>
    rw [hservice] at hown
    cases hown
  | ok own =>
    rw [hg] at hsources
    rw [hservice] at hown
    have himage : (g.services.get? "mongov3").bind Container.image = some "mongo:v3" := by injection hsources
    have hreports : (own.services.get? "mongov3").bind Container.image = some "reports" := by injection hown
    rw [hkept "mongov3" (by decide +kernel) own hservice, hreports] at himage
    exact absurd himage (by decide)

end Fleet.Compiler
