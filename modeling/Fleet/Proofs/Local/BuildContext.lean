/-
The directories that images are built from.

A service with a location is configured by the file in one directory, its build context (`readFile_mem_of_load`), and a
deploy builds its image there (`build_mem_of_imageJobs`). The container that a local run compiles names that directory
too, as it is seen from outside; the run sees it from the application once more (`play_start_built`).
- `builds_in_context_iff`: so a local run builds in that directory just if the second step adds nothing.
- `shop_is_built_elsewhere`: the shop in a directory `app` is built in `app/app/web`.
-/
import Fleet.Proofs.Compose.Startable
import Fleet.Proofs.Deploy.Completion
import Fleet.Proofs.Local.Stack
import Fleet.Proofs.Path

namespace Fleet

open Dialogue Machine

variable {p : Project} {role path location context : String} {source : Source}

/-! ## Contexts -/

theorem Source.located (h : source.origin role = .ok (.location location)) : source.location = some location :=
  (origin_eq_ok_iff.1 h).1

theorem Source.buildContext_of_located (h : source.origin role = .ok (.location location)) (dir : String) :
    source.buildContext dir = some (Path.join dir (Path.withoutDotSlash location)) := by
  rw [buildContext, located h]
  rfl

namespace Project

variable {dir : String} {reads : List (Exchange Request Request.Answer)} {l : List (String × Source)}
  {loaded services : SortedMap Service} {s : Service} {jobs : List ImageJob}

theorem play_readYaml_ok {α : Type} {decoder : Yaml.Decoder α} {a : α}
    (h : (readYaml decoder path).Play reads (.ok a)) :
    ∃ text, reads = [⟨.readFile path, .ok text⟩] ∧ Yaml.decode decoder text = some a := by
  obtain ⟨_, hr, _⟩ | ⟨text, es, _, rfl, hread, hdecode⟩ := play_bind_iff.1 h
  · cases hr
  obtain ⟨_, hr, _⟩ | ⟨answer, _, _, rfl, hask, hanswer⟩ := play_bind_iff.1 hread
  · cases hr
  obtain ⟨_, rest, rfl, hgot⟩ := play_ask_iff.1 hask
  obtain ⟨rfl, hsame⟩ := play_done_iff.1 hgot
  cases hsame
  cases answer with
  | error e => cases (play_fail_iff.1 hanswer).2
  | ok given =>
    obtain ⟨rfl, hsame⟩ := play_done_iff.1 hanswer
    cases hsame
    cases hdecoded : Yaml.decode decoder text with
    | none =>
      rw [hdecoded] at hdecode
      cases (play_fail_iff.1 hdecode).2
    | some b =>
      rw [hdecoded] at hdecode
      obtain ⟨rfl, hsame⟩ := play_done_iff.1 hdecode
      cases hsame
      exact ⟨text, rfl, hdecoded⟩

/-- a service with a location is configured by the file in its build context -/
theorem readFile_of_loadService (horigin : source.origin role = .ok (.location location))
    (hcontext : source.buildContext dir = some context) (h : (loadService dir role source).Play reads (.ok s)) :
    ∃ text, reads = [⟨.readFile (Path.join context serviceFile), .ok text⟩] := by
  rw [loadService, horigin] at h
  simp only [hcontext, Option.getD_some] at h
  obtain ⟨text, hreads, _⟩ := play_readYaml_ok h
  exact ⟨text, hreads⟩

theorem readFile_of_loadServices (hsource : (role, source) ∈ l)
    (horigin : source.origin role = .ok (.location location)) (hcontext : source.buildContext dir = some context)
    (h : (loadServices dir loaded l).Play reads (.ok services)) :
    ∃ text, (⟨.readFile (Path.join context serviceFile), .ok text⟩ : Exchange Request Request.Answer) ∈ reads := by
  induction l generalizing loaded reads with
  | nil => cases hsource
  | cons head rest ih =>
    obtain ⟨_, hr, _⟩ | ⟨s, own, others, rfl, hown, hrest⟩ := play_bind_iff.1 h
    · cases hr
    rcases List.mem_cons.1 hsource with rfl | hsource
    · obtain ⟨text, rfl⟩ := readFile_of_loadService horigin hcontext hown
      exact ⟨text, List.mem_append_left _ (List.mem_singleton_self _)⟩
    · obtain ⟨text, hmem⟩ := ih hsource hrest
      exact ⟨text, List.mem_append_right _ hmem⟩

theorem readFile_mem_of_load (hsource : p.source? role = some source)
    (horigin : source.origin role = .ok (.location location)) (hcontext : source.buildContext dir = some context)
    (h : (load dir).Play reads (.ok p)) :
    ∃ text, (⟨.readFile (Path.join context serviceFile), .ok text⟩ : Exchange Request Request.Answer) ∈ reads := by
  obtain ⟨_, hr, _⟩ | ⟨application, _, _, rfl, _, hchecked⟩ := play_bind_iff.1 h
  · cases hr
  obtain ⟨_, hr, _⟩ | ⟨_, _, _, rfl, _, hload⟩ := play_bind_iff.1 hchecked
  · cases hr
  obtain ⟨_, hr, _⟩ | ⟨services, own, _, rfl, hservices, hend⟩ := play_bind_iff.1 hload
  · cases hr
  cases (play_done_iff.1 hend).2
  obtain ⟨text, hmem⟩ := readFile_of_loadServices (SortedMap.mem_entries_iff.2 hsource) horigin hcontext hservices
  exact ⟨text, List.mem_append_right _ (List.mem_append_right _ (List.mem_append_left _ hmem))⟩

/-- a deploy builds the image of a service in its build context -/
theorem build_mem_of_imageJobs (hsource : p.source? role = some source)
    (horigin : source.origin role = .ok (.location location)) (hcontext : source.buildContext p.dir = some context)
    (h : p.imageJobs = .ok jobs) :
    (⟨role, p.application.version, .build context Mode.deploy.dockerfile s!"{p.name}-{role}"⟩ : ImageJob) ∈ jobs := by
  obtain ⟨services, hservices, rfl⟩ := map_eq_ok_iff.1 h
  obtain ⟨j, hmem, hjob⟩ := exists_related (serviceJobs_eq_ok_iff.1 hservices) (SortedMap.mem_entries_iff.2 hsource)
  simp only [serviceJob, horigin, hcontext, Option.getD_some] at hjob
  cases hjob
  exact List.mem_append_left _ hmem

end Project

/-! ## Local runs -/

namespace Compiler

variable {c : Compiler} {spec : Container}

/-- on a machine, the container of a service with a location is built from its build context -/
theorem build_container (hmode : c.mode.lifecycle = .onMachine) (hsource : c.project.source? role = some source)
    (horigin : source.origin role = .ok (.location location))
    (hcontext : source.buildContext c.project.dir = some context)
    (h : c.container role = .ok spec) : spec.build = some ⟨context, c.mode.dockerfile⟩ := by
  rw [container, hmode] at h
  obtain ⟨source', hsource', h⟩ := bind_eq_ok_iff.1 h
  obtain ⟨s, -, h⟩ := bind_eq_ok_iff.1 h
  obtain ⟨origin, horigin', h⟩ := bind_eq_ok_iff.1 h
  obtain ⟨environment, -, h⟩ := bind_eq_ok_iff.1 h
  rw [Compiler.source, hsource] at hsource'
  cases hsource'
  cases horigin.symm.trans horigin'
  cases h
  simp only [localOrigin, hcontext, Option.getD_some]

end Compiler

namespace Stack

variable {s : Stack} {g : Composition} {spec : Container} {b : Build} {es : List Asked}
  {r : Except LocalFault (String × Stack)}

/-- a component that is built asks for one build first, unless the run is cancelled -/
theorem play_start_built (hspec : g.services.get? role = some spec) (hbuild : spec.build = some b)
    (h : (s.start p g role).Play es r) : es = [⟨.cancelled, true⟩] ∨
      ∃ a rest, es = ⟨.cancelled, false⟩ ::
        ⟨.call (.build (Path.join p.dir b.context) b.dockerfile s!"{s.network}-{role}"), a⟩ :: rest ∧
        ∀ dir dockerfile tag, .build dir dockerfile tag ∉ calls rest := by
  obtain ⟨interrupted, rest, rfl, hgo⟩ := play_cancelled_bind_iff.1 h
  cases interrupted with
  | true =>
    obtain ⟨rfl, _⟩ := play_fail_iff.1 hgo
    exact .inl rfl
  | false =>
    simp only [hspec, prepareImage, hbuild, bind_assoc] at hgo
    obtain ⟨a, rest, rfl, hend⟩ := play_callLocal_bind_iff.1 hgo
    refine .inr ⟨a, rest, rfl, fun dir dockerfile tag hin => ?_⟩
    obtain ⟨_, _, rfl, _⟩ | ⟨_, _, hstart⟩ := hend
    · cases hin
    · rw [bind_done] at hstart
      obtain ⟨_, more, rfl, hnoted⟩ := play_callLocal_bind_iff.1 hstart
      obtain ⟨_, _, rfl, _⟩ | ⟨_, _, hsaid⟩ := hnoted
      · obtain ⟨_, hmem⟩ := mem_calls.1 hin
        cases List.mem_singleton.1 hmem
      · obtain ⟨_, rfl, hdone⟩ := play_note_bind_iff.1 hsaid
        obtain ⟨rfl, _⟩ := play_done_iff.1 hdone
        obtain ⟨_, hmem⟩ := mem_calls.1 hin
        simp at hmem

end Stack

namespace Compiler

variable {c : Compiler} {spec : Container} {g : Composition}

/-- **A service with a location has one build context**: its configuration is read there, and a deploy builds its image
there. A local run builds it in the directory that this one is when it is seen from the application, and both are the
same just if the application is in a directory by an absolute path or in none, or the location is absolute. -/
theorem builds_in_context_iff (s : Stack) (hmode : c.mode.lifecycle = .onMachine)
    (hsource : c.project.source? role = some source) (horigin : source.origin role = .ok (.location location))
    (hspec : c.container role = .ok spec) (hg : g.services.get? role = some spec) :
    ∃ context, source.buildContext c.project.dir = some context ∧
      (∀ reads, (Project.load c.project.dir).Play reads (.ok c.project) → ∃ text,
        (⟨.readFile (Path.join context Project.serviceFile), .ok text⟩ : Exchange Request Request.Answer) ∈ reads) ∧
      (∀ jobs, c.project.imageJobs = .ok jobs → (⟨role, c.project.application.version,
        .build context Mode.deploy.dockerfile s!"{c.project.name}-{role}"⟩ : ImageJob) ∈ jobs) ∧
      (∀ es r, (s.start c.project g role).Play es r → es = [⟨.cancelled, true⟩] ∨
        ∃ a rest, es = ⟨.cancelled, false⟩ ::
          ⟨.call (.build (Path.join c.project.dir context) c.mode.dockerfile s!"{s.network}-{role}"), a⟩ :: rest ∧
          ∀ dir dockerfile tag, .build dir dockerfile tag ∉ calls rest) ∧
      (Path.SamePlace (Path.join c.project.dir context) context ↔
        Path.isAbsolute (Path.withoutDotSlash location) = true ∨ Path.isAbsolute c.project.dir = true ∨
          Path.components c.project.dir = []) := by
  have hcontext := Source.buildContext_of_located horigin c.project.dir
  have hbuild := build_container hmode hsource horigin hcontext hspec
  refine ⟨_, hcontext, fun reads hload => ?_, fun jobs hjobs => ?_, fun es r hstart => ?_, ?_⟩
  · exact Project.readFile_mem_of_load hsource horigin hcontext hload
  · exact Project.build_mem_of_imageJobs hsource horigin hcontext hjobs
  · obtain rfl | ⟨a, rest, rfl, hbuilds⟩ := Stack.play_start_built hg hbuild hstart
    · exact .inl rfl
    · exact .inr ⟨a, rest, rfl, hbuilds⟩
  · exact Path.samePlace_join_twice_iff _ _

/-- the shop with two stores, in another directory -/
def pagesIn (dir : String) : Compiler := { pages with project := { pages.project with dir } }

/-- where the shop lies in the present directory, its pages are built where their configuration is -/
theorem pages_are_built_in_place : pages.project.source? "web" = some { location := some "web" } ∧
    ∃ spec, pages.container "web" = .ok spec ∧ ∀ es r a rest,
      (({ network := "shop" } : Stack).start pages.project (.single "web" spec) "web").Play es r →
        es = ⟨.cancelled, false⟩ :: a :: rest →
          ∃ dir dockerfile tag answer, a = ⟨.call (.build dir dockerfile tag), answer⟩ ∧ Path.SamePlace dir "web" := by
  have hsource : pages.project.source? "web" = some { location := some "web" } := by decide +kernel
  obtain ⟨spec, hspec⟩ : ∃ spec, pages.container "web" = .ok spec := by
    obtain ⟨_, hload⟩ := exists_load_pages
    exact exists_container (Project.ready_of_load hload) (by decide +kernel)
  have hg : (Composition.single "web" spec).services.get? "web" = some spec := by
    rw [Composition.single, SortedMap.singleton, SortedMap.get?_insert, if_pos rfl]
  have horigin : ({ location := some "web" } : Source).origin "web" = .ok (.location "web") := by decide +kernel
  obtain ⟨context, hcontext, _, _, hstart, hplace⟩ :=
    builds_in_context_iff { network := "shop" } rfl hsource horigin hspec hg
  refine ⟨hsource, spec, hspec, fun es r a rest hplay hes => ?_⟩
  obtain rfl | ⟨answer, _, rfl, _⟩ := hstart es r hplay
  · cases hes
  cases hes
  have hweb : context = "./web" := by
    have hjoined : ({ location := some "web" } : Source).buildContext pages.project.dir = some "./web" := by
      decide +kernel
    exact Option.some.inj (hcontext.symm.trans hjoined)
  subst hweb
  exact ⟨_, _, _, answer, rfl, by decide +kernel⟩

/-- in a directory `app`, its pages are configured in `app/web` and built in `app/app/web` -/
theorem shop_is_built_elsewhere : ¬ ∀ (c : Compiler) (s : Stack) (g : Composition) (role : String) (source : Source)
    (spec : Container) (context dir dockerfile tag : String) (a : Except Fault Unit) (es : List Asked)
    (r : Except LocalFault (String × Stack)), c.mode.lifecycle = .onMachine → c.project.source? role = some source →
      source.buildContext c.project.dir = some context → c.container role = .ok spec →
      g.services.get? role = some spec →
        (s.start c.project g role).Play es r → (⟨.call (.build dir dockerfile tag), a⟩ : Asked) ∈ es →
          Path.SamePlace dir context := by
  intro h
  have hsource : (pagesIn "app").project.source? "web" = some { location := some "web" } := by decide +kernel
  have hready : (pagesIn "app").project.Ready := by
    obtain ⟨_, hload⟩ := exists_load_pages
    obtain ⟨horigins, hservices⟩ := Project.ready_of_load hload
    exact ⟨horigins, hservices⟩
  have hrole : "web" ∈ (pagesIn "app").project.roles := by decide +kernel
  obtain ⟨spec, hspec⟩ := exists_container hready hrole
  have hg : (Composition.single "web" spec).services.get? "web" = some spec := by
    rw [Composition.single, SortedMap.singleton, SortedMap.get?_insert, if_pos rfl]
  have hcontext : ({ location := some "web" } : Source).buildContext (pagesIn "app").project.dir = some "app/web" := by
    decide +kernel
  have horigin : ({ location := some "web" } : Source).origin "web" = .ok (.location "web") := by decide +kernel
  have hbuild := build_container rfl hsource horigin hcontext hspec
  -- the build itself fails, and that is all of the run
  have hplay : (({ network := "shop" } : Stack).start (pagesIn "app").project (.single "web" spec) "web").Play
      [⟨.cancelled, false⟩, ⟨.call (.build "app/app/web" "Dockerfile.dev" "shop-web"), .error .cancelled⟩]
      (.error (.fault .cancelled)) := by
    refine play_cancelled_bind_iff.2 ⟨false, _, rfl, ?_⟩
    simp only [hg, Stack.prepareImage, hbuild, bind_assoc]
    exact Stack.play_callLocal_bind_iff.2 ⟨_, _, rfl, .inl ⟨_, rfl, rfl, rfl⟩⟩
  have hsame := h (pagesIn "app") _ _ "web" _ spec "app/web" _ _ _ _ _ _ rfl hsource hcontext hspec hg hplay
    (List.mem_cons_of_mem _ (List.mem_singleton_self _))
  revert hsame
  decide +kernel

end Compiler

end Fleet
