/-
Loading is enough for compiling.

Compilations look up services and ask for origins, and each of them has an error for what it does not find. On a project
that was loaded none of these errors occurs: names were checked before anything else, and each role has one origin and a
configuration (`Loaded`).
- `compilable_of_ready`: the graph of the application in every mode, the images to publish and the infrastructure are
  compiled; the environment of a deployed service can only lack a secret.
- `loaded_is_compilable`: so it is with every project that is loaded, from whatever files.
-/
import Fleet.Proofs.Compose.Startable
import Fleet.Proofs.Deploy.Completion

namespace Fleet.Project

open Dialogue

variable {p : Project} {dir : String} {reads : List (Exchange Machine.Request Machine.Request.Answer)}

/-- whatever is compiled from the project is there; only the environment of a deployed service may lack a secret -/
structure Compilable (p : Project) : Prop where
  application : ∀ mode lookup, ∃ g, (⟨p, mode, lookup⟩ : Compiler).application = .ok g
  images : ∃ jobs, p.imageJobs = .ok jobs
  infrastructure : ∀ account images, ∃ i, Infrastructure.ofProject p account images = .ok i
  environments : ∀ role ∈ p.roles, ∀ origins secrets f, Environment.inCloud p role origins secrets = .error f →
    ∃ k, k ∉ secrets.keys ∧ f = .secretMissing k

theorem compilable_of_ready (h : p.Ready) : p.Compilable where
  application mode lookup := by
    obtain ⟨specs, _, _, hg⟩ := Compiler.exists_application (c := ⟨p, mode, lookup⟩) h
    exact ⟨_, hg⟩
  images := by
    obtain ⟨jobs, hjobs, _⟩ := exists_imageJobs h
    exact ⟨jobs, hjobs⟩
  infrastructure := exists_ofProject h
  environments := by
    intro role hrole origins secrets f hfault
    obtain hservice | hmissing := Environment.fault_of_inCloud hfault
    · obtain ⟨s, hs⟩ := h.services role hrole
      rw [service, hs] at hservice
      cases hservice
    · exact hmissing

/-- **What is loaded can be compiled.** Of a project that is loaded, the services are those of the definition, with
their names in order and one origin each; a service that comes as an image has the default configuration. Everything is
compiled from it, in every mode, for every account and whatever images; only secrets can be missing. -/
theorem loaded_is_compilable (h : (load dir).Play reads (.ok p)) : p.Loaded ∧ p.Compilable := by
  have hloaded := loaded_of_load h
  exact ⟨hloaded, compilable_of_ready hloaded.ready⟩

/-- the shop with two stores is loaded, and compiled to be deployed -/
theorem pages_are_compiled : (∃ reads, (load ".").Play reads (.ok Compiler.pages.project)) ∧
    Compiler.pages.project.services.keys = ["database", "web"] ∧
    (∃ g, ({ Compiler.pages with mode := .deploy } : Compiler).application = .ok g) ∧
    (∃ jobs, Compiler.pages.project.imageJobs = .ok jobs) ∧
    (∃ i, Infrastructure.ofProject Compiler.pages.project ⟨"default", "eu", "1", "shop"⟩ .empty = .ok i) ∧
    ∀ f, Environment.inCloud Compiler.pages.project "web" .empty .empty = .error f → ∃ k, f = .secretMissing k := by
  obtain ⟨reads, hread⟩ := Compiler.exists_load_pages
  obtain ⟨hloaded, hcompilable⟩ := loaded_is_compilable hread
  refine ⟨⟨reads, hread⟩, hloaded.keys, hcompilable.application _ _, hcompilable.images,
    hcompilable.infrastructure _ _, ?_⟩
  intro f hfault
  obtain ⟨k, _, hk⟩ := hcompilable.environments "web" (by decide +kernel) _ _ f hfault
  exact ⟨k, hk⟩

end Fleet.Project
