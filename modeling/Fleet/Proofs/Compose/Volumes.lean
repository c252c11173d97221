/-
Named volumes of the dependencies in a graph.

A dependency's volume is called after the dependency's name and the path that it keeps. The version is left out, and
characters other than letters, digits and hyphens are spelled alike, so different containers may come to mount one
volume.
- `volumeName_eq_iff`: when two volumes have one name.
- `standing_iff`: which dependencies a graph contains, read off what is declared.
- `volumes_are_separate_iff`: when no two mounts of an application's graph share a volume.
- `stores_share_a_volume`: an application of which three do.
-/
import Fleet.Proofs.Compose.Namesakes
import Fleet.Proofs.Path

namespace Fleet

namespace Dependency

variable {d d' : Descriptor} {path path' : String} {s s' more : List Char}

/-! ## Names of volumes -/

/-- the path as it stands in the name of its volume -/
def spelled (path : String) : String :=
  let inner := ((path.toList.dropWhile isSlash).reverse.dropWhile isSlash).reverse
  String.ofList (inner.map fun c => if c.isAlphanum || c = '-' then c else '_')

theorem volumeName_eq (d : Descriptor) (path : String) : volumeName d path = d.name ++ "__" ++ spelled path := rfl

theorem colon_not_mem_spelled (path : String) : ':' ∉ (spelled path).toList := by
  unfold spelled
  rw [String.toList_ofList]
  intro h
  obtain ⟨c, -, hc⟩ := List.mem_map.1 h
  split at hc
  · subst hc
    contradiction
  · exact absurd hc (by decide)

/-- the name of the first is continued by that of the second, and its path makes up for that -/
def Continues (d : Descriptor) (path : String) (d' : Descriptor) (path' : String) : Prop :=
  (d'.name = d.name ++ "_" ∧ spelled path = "_" ++ spelled path') ∨
  ∃ more, d'.name = d.name ++ "__" ++ more ∧ spelled path = more ++ "__" ++ spelled path'

theorem underscores_eq_iff : '_' :: '_' :: s = more ++ '_' :: '_' :: s' ↔ (more = [] ∧ s = s') ∨
    (more = ['_'] ∧ s = '_' :: s') ∨ ∃ rest, more = '_' :: '_' :: rest ∧ s = rest ++ '_' :: '_' :: s' := by
  rcases more with _ | ⟨a, _ | ⟨b, rest⟩⟩
  · simp
  · simp [eq_comm]
  · simp [and_assoc, eq_comm]

theorem continues_iff : Continues d path d' path' ↔ ∃ more ≠ [], d'.name.toList = d.name.toList ++ more ∧
    '_' :: '_' :: (spelled path).toList = more ++ '_' :: '_' :: (spelled path').toList := by
  simp only [underscores_eq_iff, Continues, String.ext_iff, String.toList_append]
  constructor
  · rintro (⟨hname, hpath⟩ | ⟨more, hname, hpath⟩)
    · exact ⟨['_'], by simp, hname, .inr (.inl ⟨rfl, hpath⟩)⟩
    · exact ⟨'_' :: '_' :: more.toList, by simp, by simpa using hname, .inr (.inr ⟨_, rfl, by simpa using hpath⟩)⟩
  · rintro ⟨more, hmore, hname, ⟨rfl, -⟩ | ⟨rfl, hpath⟩ | ⟨rest, rfl, hpath⟩⟩
    · exact absurd rfl hmore
    · exact .inl ⟨hname, hpath⟩
    · exact .inr ⟨String.ofList rest, by simpa using hname, by simpa using hpath⟩

/-- **Two volumes have one name** just if the paths of dependencies of one name are spelled alike, or one dependency's
name continues the other's with underscores that are in the other's path. -/
theorem volumeName_eq_iff : volumeName d path = volumeName d' path' ↔
    (d.name = d'.name ∧ spelled path = spelled path') ∨ Continues d path d' path' ∨ Continues d' path' d path := by
  have hchars : volumeName d path = volumeName d' path' ↔ d.name.toList ++ '_' :: '_' :: (spelled path).toList =
      d'.name.toList ++ '_' :: '_' :: (spelled path').toList := by
    simp [volumeName_eq, String.ext_iff]
  rw [hchars, List.append_eq_append_iff, continues_iff, continues_iff]
  constructor
  · rintro (⟨more, hname, hpath⟩ | ⟨more, hname, hpath⟩)
    · by_cases hmore : more = []
      · subst hmore
        exact .inl ⟨String.ext (by simpa using hname.symm), String.ext (by simpa using hpath)⟩
      · exact .inr (.inl ⟨more, hmore, hname, hpath⟩)
    · by_cases hmore : more = []
      · subst hmore
        exact .inl ⟨String.ext (by simpa using hname), String.ext (by simpa using hpath.symm)⟩
      · exact .inr (.inr ⟨more, hmore, hname, hpath⟩)
  · rintro (⟨hname, hpath⟩ | ⟨more, -, hname, hpath⟩ | ⟨more, -, hname, hpath⟩)
    · exact .inl ⟨[], by simp [hname], by simp [hpath]⟩
    · exact .inl ⟨more, hname, hpath⟩
    · exact .inr ⟨more, hname, hpath⟩

theorem Continues.underscore (h : Continues d path d' path') : '_' ∈ d'.name.toList := by
  rcases h with ⟨hname, -⟩ | ⟨more, hname, -⟩ <;> simp [hname]

/-! ## Containers with volumes -/

/-- a dependency whose name continues another's does not run in the same container -/
theorem Continues.genericContainer_ne (h : Continues d path d' path') : genericContainer d ≠ genericContainer d' := by
  intro hsame
  have hdisplay : d.display = d'.display := by simpa [genericContainer] using congrArg Container.image hsame
  obtain ⟨rest, hname⟩ : ∃ rest, d'.name = d.name ++ "_" ++ rest := by
    rcases h with ⟨hname, -⟩ | ⟨more, hname, -⟩
    · exact ⟨"", by simpa using hname⟩
    · exact ⟨"_" ++ more, by simpa [String.ext_iff] using hname⟩
  simp [Descriptor.display, hname, String.ext_iff] at hdisplay

/-- dependencies of one name in one container keep the same paths -/
theorem mem_persist_of_genericContainer_eq (h : genericContainer d = genericContainer d') (hname : d.name = d'.name)
    (hpath : path ∈ d'.settings.persist) : path ∈ d.settings.persist := by
  have hvolumes : (genericContainer d).volumes = (genericContainer d').volumes := by rw [h]
  have hmount : volumeName d' path ++ ":" ++ path ∈ (genericContainer d').volumes := List.mem_map.2 ⟨path, hpath, rfl⟩
  rw [← hvolumes] at hmount
  obtain ⟨own, hown, hmount⟩ := List.mem_map.1 hmount
  change volumeName d own ++ ":" ++ own = volumeName d' path ++ ":" ++ path at hmount
  have hcut : (spelled own).toList ++ ':' :: own.toList = (spelled path).toList ++ ':' :: path.toList := by
    simpa [volumeName_eq, hname, String.ext_iff] using hmount
  -- the first colon ends the volume
  have hsplit := congrArg (Path.splitFrom ':' []) hcut
  rw [Path.splitFrom_append (colon_not_mem_spelled own), Path.splitFrom_append (colon_not_mem_spelled path)] at hsplit
  have hspelled : (spelled own).toList = (spelled path).toList := by simpa using (List.cons.inj hsplit).1
  rw [hspelled, List.append_cancel_left_eq, List.cons_eq_cons] at hcut
  rwa [← String.ext hcut.2]

end Dependency

namespace Compiler

open Dialogue Dependency

variable {c : Compiler} {role : String} {spec : Container} {d d' : Dependency} {g : Composition}

/-! ## Dependencies in a graph -/

/-- a generic dependency in scope whose container is in the graph under its name -/
def Standing (c : Compiler) (g : Composition) (d : Dependency) : Prop :=
  d ∈ c.inScope c.project.roles ∧ d.kind = .generic ∧
    g.services.get? d.containerName = some (genericContainer d.descriptor)

/-- the dependency's container that is left under a name -/
def lastOf (c : Compiler) (name : String) : Option Container :=
  if name ∈ c.project.roles then c.lastNamed (c.ownedLater name) name
  else c.lastNamed (c.inScope c.project.roles) name

/-- a generic dependency in scope that no other dependency and no service replaces -/
def Kept (c : Compiler) (d : Dependency) : Prop :=
  d ∈ c.inScope c.project.roles ∧ d.kind = .generic ∧ c.lastOf d.containerName = some (genericContainer d.descriptor)

/-- a service never runs in the container of a dependency -/
theorem container_ne_genericContainer (h : c.container role = .ok spec) (d : Descriptor) :
    spec ≠ genericContainer d := by
  rintro rfl
  cases hmode : c.mode.lifecycle with
  | onMachine =>
    have hrestart := restart_container hmode h
    cases hrestart
  | inCloud =>
    rw [container, hmode] at h
    obtain ⟨source, -, h⟩ := bind_eq_ok_iff.1 h
    obtain ⟨origin, -, h⟩ := bind_eq_ok_iff.1 h
    cases origin <;> cases h

/-- **The dependencies in the graph of an application** are those that nothing else of their container's name
replaces. -/
theorem standing_iff (hg : c.application = .ok g) : c.Standing g d ↔ c.Kept d := by
  obtain ⟨specs, hroles, hspecs, rfl⟩ := application_eq_ok_iff.1 hg
  have hlast : (c.graphOf specs).services.get? d.containerName = some (genericContainer d.descriptor) ↔
      c.lastOf d.containerName = some (genericContainer d.descriptor) := by
    unfold lastOf
    split
    · rename_i hrole
      obtain ⟨⟨_, spec⟩, he, rfl⟩ := List.mem_map.1 (hroles ▸ hrole)
      have hservice := container_ne_genericContainer (hspecs _ he) d.descriptor
      obtain ⟨before, after, rfl⟩ := List.append_of_mem he
      rw [List.map_append, List.map_cons] at hroles
      obtain ⟨hlater, hafter⟩ := roles_after hroles.symm
      rw [get?_graphOf_of_role hafter, ownedLater, hlater]
      cases c.lastNamed ((after.map Prod.fst).flatMap c.owned) d.containerName with
      | none => simpa using hservice
      | some k => rfl
    · rename_i hrole
      rw [← hroles] at hrole ⊢
      rw [get?_graphOf_of_not_role hrole]
  unfold Standing Kept
  rw [hlast]

/-! ## Mounts -/

/-- mounts of one volume are one mount: the same path in the same container -/
def SeparateVolumes (c : Compiler) (g : Composition) : Prop :=
  ∀ d d', c.Standing g d → c.Standing g d' → ∀ path ∈ d.descriptor.settings.persist,
    ∀ path' ∈ d'.descriptor.settings.persist, volumeName d.descriptor path = volumeName d'.descriptor path' →
      d.containerName = d'.containerName ∧ path = path'

/-- what is declared keeps volumes apart -/
structure VolumesApart (c : Compiler) : Prop where
  /-- different paths of a dependency are spelled differently -/
  paths : ∀ d, c.Kept d → ∀ path ∈ d.descriptor.settings.persist, ∀ path' ∈ d.descriptor.settings.persist,
    spelled path = spelled path' → path = path'
  /-- different versions of a dependency have no paths that are spelled alike -/
  versions : ∀ d d', c.Kept d → c.Kept d' → d.name = d'.name → ∀ path ∈ d.descriptor.settings.persist,
    ∀ path' ∈ d'.descriptor.settings.persist, spelled path = spelled path' → d.version = d'.version
  /-- where a name continues another one, the paths do not make up for it -/
  names : ∀ d d', c.Kept d → c.Kept d' → ∀ path ∈ d.descriptor.settings.persist,
    ∀ path' ∈ d'.descriptor.settings.persist, ¬ Continues d.descriptor path d'.descriptor path'

theorem volumesApart_of_separateVolumes (hg : c.application = .ok g) (h : c.SeparateVolumes g) : c.VolumesApart where
  paths d hd path hpath path' hpath' hspelled :=
    (h d d ((standing_iff hg).2 hd) ((standing_iff hg).2 hd) path hpath path' hpath'
      (volumeName_eq_iff.2 (.inl ⟨rfl, hspelled⟩))).2
  versions d d' hd hd' hname path hpath path' hpath' hspelled := by
    obtain ⟨hcontainer, -⟩ := h d d' ((standing_iff hg).2 hd) ((standing_iff hg).2 hd') path hpath path' hpath'
      (volumeName_eq_iff.2 (.inl ⟨hname, hspelled⟩))
    change d.name ++ d.version = d'.name ++ d'.version at hcontainer
    rwa [hname, String.append_right_inj] at hcontainer
  names d d' hd hd' path hpath path' hpath' hcontinues := by
    have hstanding := (standing_iff hg).2 hd
    have hstanding' := (standing_iff hg).2 hd'
    obtain ⟨hcontainer, -⟩ := h d d' hstanding hstanding' path hpath path' hpath'
      (volumeName_eq_iff.2 (.inr (.inl hcontinues)))
    have hsame := hstanding.2.2
    rw [hcontainer, hstanding'.2.2, Option.some_inj] at hsame
    exact hcontinues.genericContainer_ne hsame.symm

theorem separateVolumes_of_volumesApart (hg : c.application = .ok g) (h : c.VolumesApart) : c.SeparateVolumes g := by
  intro d d' hd hd' path hpath path' hpath' hvolume
  have hkept := (standing_iff hg).1 hd
  have hkept' := (standing_iff hg).1 hd'
  rcases volumeName_eq_iff.1 hvolume with ⟨hname, hspelled⟩ | hcontinues | hcontinues
  · have hversion := h.versions d d' hkept hkept' hname path hpath path' hpath' hspelled
    have hcontainer : d.containerName = d'.containerName := by
      change d.descriptor.name ++ d.version = d'.descriptor.name ++ d'.version
      rw [hname, hversion]
    have hsame := hd.2.2
    rw [hcontainer, hd'.2.2, Option.some_inj] at hsame
    have hown := mem_persist_of_genericContainer_eq hsame.symm hname hpath'
    exact ⟨hcontainer, h.paths d hkept path hpath path' hown hspelled⟩
  · exact absurd hcontinues (h.names d d' hkept hkept' path hpath path' hpath')
  · exact absurd hcontinues (h.names d' d hkept' hkept path' hpath' path hpath)

variable {dir : String} {reads : List (Exchange Machine.Request Machine.Request.Answer)}

/-- **When no two mounts in the graph of an application share a volume**, for every application that is loaded and in
every mode: just if what is declared keeps the volumes apart, among the dependencies that nothing else of their
container's name replaces. -/
theorem volumes_are_separate_iff (hload : (Project.load dir).Play reads (.ok c.project)) : ∃ g, c.application = .ok g ∧
    (∀ d, c.Standing g d ↔ c.Kept d) ∧ (c.SeparateVolumes g ↔ c.VolumesApart) := by
  obtain ⟨specs, -, -, hg⟩ := exists_application (Project.ready_of_load hload)
  exact ⟨_, hg, fun d => standing_iff hg, volumesApart_of_separateVolumes hg, separateVolumes_of_volumesApart hg⟩

/-! ## A shop with two stores -/

/-- the pages' store keeps two paths, the reports' store, of another version, keeps one -/
def storeFiles (pages reports : String) : List (String × String) := [
  ("./application.yml", "\n".intercalate [
    "name: shop",
    "services:",
    "  reports:",
    "    location: reports",
    "  web:",
    "    location: web"]),
  ("./reports/service.yml", "\n".intercalate [
    "local:",
    "  dependencies:",
    "  - name: mongo",
    "    version: v4",
    "    config:",
    "      persist:",
    "      - " ++ reports]),
  ("./web/service.yml", "\n".intercalate [
    "local:",
    "  dependencies:",
    "  - name: mongo",
    "    version: v3",
    "    config:",
    "      persist:",
    "      - /data/db",
    "      - " ++ pages])]

def pagesStore (path : String) : Descriptor where
  name := "mongo"
  version := "v3"
  settings := { persist := ["/data/db", path] }

def reportsStore (path : String) : Descriptor where
  name := "mongo"
  version := "v4"
  settings := { persist := [path] }

def stores (pages reports : String) : Compiler where
  project := {
    dir := "."
    application := {
      name := "shop"
      services := .ofList [("reports", { location := some "reports" }), ("web", { location := some "web" })] }
    services := .ofList [("reports", { onMachine := { dependencies := [reportsStore reports] } }),
      ("web", { onMachine := { dependencies := [pagesStore pages] } })] }
  mode := .localDevelopment
  lookup := fun _ => none

/-- stores that keep directories of different names -/
def roomyStores : Compiler := stores "/data/log" "/journal"

/-- stores whose paths are all spelled alike -/
def crampedStores : Compiler := stores "/data_db" "/data/db"

/-- the stores have a volume for each of their directories -/
theorem stores_have_their_own_volumes : (∃ reads, (Project.load ".").Play reads (.ok roomyStores.project)) ∧
    ∃ g, roomyStores.application = .ok g ∧ roomyStores.SeparateVolumes g ∧
      roomyStores.Standing g ⟨pagesStore "/data/log", .onMachine⟩ ∧
      roomyStores.Standing g ⟨reportsStore "/journal", .onMachine⟩ := by
  have hread := play_run (Project.holding (storeFiles "/data/log" "/journal")) (Project.load ".") {}
  have hloaded : ((Project.load ".").run (Project.holding (storeFiles "/data/log" "/journal")) {}).1 =
      .ok roomyStores.project := by decide +kernel
  rw [hloaded] at hread
  obtain ⟨g, hg, hstanding, hapart⟩ := volumes_are_separate_iff hread
  have hspelled : ∀ d ∈ roomyStores.inScope roomyStores.project.roles,
      ∀ d' ∈ roomyStores.inScope roomyStores.project.roles,
      ∀ path ∈ d.descriptor.settings.persist, ∀ path' ∈ d'.descriptor.settings.persist, spelled path = spelled path' →
        d = d' ∧ path = path' := by decide +kernel
  have hplain : ∀ d ∈ roomyStores.inScope roomyStores.project.roles,
      '_' ∉ d.name.toList := by decide +kernel
  refine ⟨⟨_, hread⟩, g, hg, hapart.2 ?_, (hstanding _).2 ?_, (hstanding _).2 ?_⟩
  · exact {
      paths := fun d hd path hpath path' hpath' h => (hspelled d hd.1 d hd.1 path hpath path' hpath' h).2
      versions := fun d d' hd hd' _ path hpath path' hpath' h => by
        rw [(hspelled d hd.1 d' hd'.1 path hpath path' hpath' h).1]
      names := fun d d' _ hd' path _ path' _ hcontinues => hplain d' hd'.1 hcontinues.underscore }
  · exact ⟨by decide +kernel, by decide +kernel, by decide +kernel⟩
  · exact ⟨by decide +kernel, by decide +kernel, by decide +kernel⟩

/-- `/data/db` and `/data_db` of the pages' store and `/data/db` of the reports' store are one volume -/
theorem stores_mount_one_volume : ∃ reads, (Project.load ".").Play reads (.ok crampedStores.project) ∧
    ∀ g, crampedStores.application = .ok g →
      crampedStores.Standing g ⟨pagesStore "/data_db", .onMachine⟩ ∧
      crampedStores.Standing g ⟨reportsStore "/data/db", .onMachine⟩ ∧
      volumeName (pagesStore "/data_db") "/data/db" = "mongo__data_db" ∧
      volumeName (pagesStore "/data_db") "/data_db" = "mongo__data_db" ∧
      volumeName (reportsStore "/data/db") "/data/db" = "mongo__data_db" := by
  have hread := play_run (Project.holding (storeFiles "/data_db" "/data/db")) (Project.load ".") {}
  have hloaded : ((Project.load ".").run (Project.holding (storeFiles "/data_db" "/data/db")) {}).1 =
      .ok crampedStores.project := by decide +kernel
  rw [hloaded] at hread
  refine ⟨_, hread, fun g hg => ⟨(standing_iff hg).2 ?_, (standing_iff hg).2 ?_, ?_, ?_, ?_⟩⟩
  · exact ⟨by decide +kernel, by decide +kernel, by decide +kernel⟩
  · exact ⟨by decide +kernel, by decide +kernel, by decide +kernel⟩
  all_goals decide +kernel

/-- two stores of different versions mount one volume -/
theorem stores_share_a_volume : ¬ ∀ (dir : String) (reads : List (Exchange Machine.Request Machine.Request.Answer))
    (c : Compiler), (Project.load dir).Play reads (.ok c.project) →
      ∃ g, c.application = .ok g ∧ c.SeparateVolumes g := by
  intro h
  obtain ⟨reads, hread, hmounts⟩ := stores_mount_one_volume
  obtain ⟨g, hg, hseparate⟩ := h _ _ crampedStores hread
  obtain ⟨hpages, hreports, hvolume, -, hvolume'⟩ := hmounts g hg
  obtain ⟨hcontainer, -⟩ := hseparate _ _ hpages hreports "/data/db" List.mem_cons_self "/data/db" List.mem_cons_self
    (hvolume.trans hvolume'.symm)
  exact absurd hcontainer (by decide)

end Compiler

end Fleet
