/-
Whose fault it is when a stage of a deploy fails.

A stage fails with the fault of a call, or with one of its own: something in the project, a secret that is not there, or
changes that were declined.
- `fault_of_step`: there is no third way, for no stage.
- `Fault.IsPremature`: the faults of a stage that asks for something too early.
- `not_isPremature_of_ownFault`: a stage that is supplied with what it needs does not have one of these for its own.
-/
import Fleet.Proofs.Deploy.Requirement
import Fleet.Proofs.Deploy.Stages
import Fleet.Proofs.Environment
import Fleet.Proofs.Publish.Outcome

namespace Fleet

open Dialogue

/-! ## Faults of one's own -/

/-- something was asked for before it was there -/
def Fault.IsPremature : Fault → Prop
  | .unresolved _ .notReady | .unresolved _ .notGenerated => True
  | _ => False

/-- some call failed with this fault -/
def CallFailed (es : List Asked) (f : Fault) : Prop := ∃ c, (⟨.call c, .error f⟩ : Asked) ∈ es

theorem CallFailed.mono {es es' : List Asked} {f : Fault} (h : CallFailed es f) (hsub : es ⊆ es') :
    CallFailed es' f := by
  obtain ⟨c, hc⟩ := h
  exact ⟨c, hsub hc⟩

theorem Source.not_isPremature_of_origin {s : Source} {role : String} {f : Fault} (h : s.origin role = .error f) :
    ¬ f.IsPremature := by
  obtain ⟨-, rfl⟩ | ⟨-, rfl⟩ := Source.fault_of_origin h <;> exact id

namespace Project

variable {p : Project} {f : Fault}

theorem service_eq_error {role : String} (h : p.service role = .error f) : f = .unresolved role .noSuchService := by
  unfold service at h
  split at h <;> cases h
  rfl

theorem not_isPremature_of_service {role : String} (h : p.service role = .error f) : ¬ f.IsPremature := by
  rw [service_eq_error h]
  exact id

theorem not_isPremature_of_checkDeployable (h : p.checkDeployable = .error f) : ¬ f.IsPremature := by
  obtain ⟨q, hq, -, rfl⟩ := (p.judges_checkDeployable.reports_iff.1 h).exists_mem
  obtain ⟨_, _, _, hfield⟩ | ⟨role, _, rfl⟩ := aboutField_of_mem_requirements hq
  · rw [hfield]
    exact id
  · exact id

theorem not_isPremature_of_serviceJob {role : String} {source : Source} (h : p.serviceJob role source = .error f) :
    ¬ f.IsPremature := by
  rw [serviceJob] at h
  split at h
  · rename_i horigin
    cases h
    exact Source.not_isPremature_of_origin horigin
  · cases h
  · cases h

theorem not_isPremature_of_serviceJobs {l : List (String × Source)} (h : p.serviceJobs l = .error f) :
    ¬ f.IsPremature := by
  obtain ⟨e, -, hjob⟩ := (mapM_eq_error_iff.1 h).exists_mem
  exact not_isPremature_of_serviceJob hjob

theorem not_isPremature_of_imageJobs (h : p.imageJobs = .error f) : ¬ f.IsPremature :=
  not_isPremature_of_serviceJobs (map_eq_error_iff.1 h)

end Project

/-! ## Faults of publishing -/

namespace Publish

variable {t : Target} {jobs : List ImageJob} {concurrency : Nat} {es : List Asked} {f : Fault}

/-- the first fault to arrive is that of a call -/
theorem Course.callFailed {log : List (Nat × Deed)} (h : Course t jobs concurrency log es (.error f)) :
    CallFailed es f ∨ f = .cancelled := by
  obtain ⟨asked, s, rest, rfl, hlogged, hready, houtcome⟩ := h
  rcases play_outcome_iff.1 houtcome with ⟨g, hfirst, rfl, hr⟩ | ⟨-, c, rfl, hr⟩
  · cases hr
    obtain ⟨before, after, hresults, -⟩ := firstFault_eq_some_iff.1 hfirst
    have hreport : .error f ∈ reports log := by
      rw [← hlogged.sound.arrived, hresults]
      simp
    obtain ⟨n, -, j, stage, hdeed⟩ := hlogged.sound.reported _ hreport
    obtain ⟨shown, ⟨a, rfl, ha⟩, hsub⟩ := hlogged.shows hdeed
    cases a with
    | ok x => cases ha
    | error g =>
      cases ha
      exact .inl ⟨_, List.mem_append_left _ (hsub (List.mem_singleton_self _))⟩
  · split at hr
    · cases hr; exact .inr rfl
    · cases hr

end Publish

namespace Deploy

variable {d : Deploy} {s : Stage} {es : List Asked} {f : Fault}

theorem announce_ne_error {l : List (String × String)} : ¬ (announce l).Play es (.error f) := by
  induction l generalizing es with
  | nil => exact fun h => nomatch (play_done_iff.1 h).2
  | cons e l ih =>
    intro h
    obtain ⟨rest, -, hrest⟩ := play_say_bind_iff.1 h
    exact ih hrest

/-! ## Faults of the stages -/

/-- the faults that a stage can raise by itself -/
def OwnFault (d : Deploy) (f : Fault) : Stage → Prop
  | .validate => d.project.checkDeployable = .error f
  | .pushImages => d.project.imageJobs = .error f ∨ f = .cancelled
  | .generateFiles =>
    (d.imagesOr.bind fun images => Infrastructure.ofProject d.project d.account images) = .error f
  | .diffCheck =>
    d.generated = none ∧ f = .unresolved "infrastructure files" .notGenerated ∨ ∃ summary, f = .driftDeclined summary
  | .apply => d.varFlags = .error f
  | _ => False

/-- a call that is made has no fault but its own -/
theorem callFailed_of_call {α : Type} {c : Call} {g : c.Answer → α}
    (h : ((Action.call c).bind fun x => .done (g x)).Play es (.error f)) : CallFailed es f := by
  obtain ⟨a, rfl, ha⟩ := play_call_done_iff.1 h
  cases a with
  | ok x => cases ha
  | error g =>
    cases ha
    exact ⟨c, List.mem_singleton_self _⟩

theorem fault_of_pushImages (h : (pushImages d).Play es (.error f)) : CallFailed es f ∨ OwnFault d f .pushImages := by
  obtain ⟨_, hf, hlogin⟩ | ⟨registry, es₁, _, rfl, -, h⟩ := play_bind_iff.1 h
  · cases hf
    cases play_call_iff.1 hlogin
    exact .inl ⟨_, List.mem_singleton_self _⟩
  obtain ⟨_, hjobs, _, hf⟩ | ⟨jobs, hjobs, h⟩ := play_ofExcept_bind_iff.1 h
  · cases hf
    exact .inr (.inl hjobs)
  obtain ⟨_, hf, hpublish⟩ | ⟨images, _, _, -, -, h⟩ := play_bind_iff.1 h
  · cases hf
    obtain ⟨log, hcourse⟩ := Publish.play_publish_iff.1 hpublish
    exact hcourse.callFailed.imp (fun hcall => hcall.mono (List.subset_append_right _ _)) .inr
  -- what is announced are texts, and announcing cannot fail
  obtain ⟨_, hf, hannounce⟩ | ⟨_, _, _, -, -, h⟩ := play_bind_iff.1 h
  · cases hf
    exact absurd hannounce announce_ne_error
  · cases (play_done_iff.1 h).2

theorem fault_of_diffCheck (h : (diffCheck d).Play es (.error f)) : CallFailed es f ∨ OwnFault d f .diffCheck := by
  unfold diffCheck at h
  split at h
  · rename_i hnone
    cases (play_fail_iff.1 h).2
    exact .inr (.inl ⟨hnone, rfl⟩)
  unfold settleDrift at h
  split at h
  · obtain ⟨_, -, h⟩ := play_say_bind_iff.1 h
    cases (play_done_iff.1 h).2
  · obtain ⟨_, -, h⟩ := play_say_bind_iff.1 h
    cases (play_done_iff.1 h).2
  obtain ⟨_, rfl, hshown⟩ := play_say_bind_iff.1 h
  split at hshown
  · cases (play_done_iff.1 hshown).2
  obtain ⟨_, hf, hconfirm⟩ | ⟨accepted, _, _, -, -, hend⟩ := play_bind_iff.1 hshown
  · cases hf
    cases play_call_iff.1 hconfirm
    exact .inl ⟨_, List.mem_cons_of_mem _ (List.mem_singleton_self _)⟩
  split at hend
  · cases (play_done_iff.1 hend).2
  · cases (play_fail_iff.1 hend).2
    exact .inr (.inr ⟨_, rfl⟩)

/-- **A stage that fails has a fault of its own, or one of its calls failed.** -/
theorem fault_of_step (h : (step s d).Play es (.error f)) : CallFailed es f ∨ OwnFault d f s := by
  cases s with
  | validate =>
    obtain ⟨_, hcheck, _, hf⟩ | ⟨_, _, h⟩ := play_ofExcept_bind_iff.1 h
    · cases hf; exact .inr hcheck
    · cases (play_done_iff.1 h).2
  | pushImages => exact fault_of_pushImages h
  | generateFiles =>
    obtain ⟨_, hbuild, _, hf⟩ | ⟨i, a, -, rfl, hf⟩ := play_generateFiles_iff.1 h
    · cases hf; exact .inr hbuild
    · cases a <;> cases hf
      exact .inl ⟨_, List.mem_singleton_self _⟩
  | diffCheck => exact fault_of_diffCheck h
  | apply =>
    obtain ⟨_, hflags, _, hf⟩ | ⟨flags, a, -, rfl, hf⟩ := play_apply_iff.1 h
    · cases hf; exact .inr hflags
    · cases a <;> cases hf
      exact .inl ⟨_, List.mem_singleton_self _⟩
  | _ => exact .inl (callFailed_of_call h)

/-! ## A stage that is supplied asks for nothing too early -/

/-- what a stage needs is there -/
def Supplied (d : Deploy) : Stage → Prop
  | .generateFiles => ∃ images, d.imagesOr = .ok images
  | .diffCheck => ∃ generated, d.generated = some generated
  | .apply => (∃ images, d.imagesOr = .ok images) ∧ ∃ secrets, d.secretsOr = .ok secrets
  | _ => True

theorem not_isPremature_of_servicesOf {p : Project} {roles : List String}
    (h : Infrastructure.servicesOf p roles = .error f) : ¬ f.IsPremature := by
  obtain ⟨role, -, hservice⟩ := (mapM_eq_error_iff.1 h).exists_mem
  exact Project.not_isPremature_of_service (map_eq_error_iff.1 hservice)

theorem not_isPremature_of_ofProject {p : Project} {a : Account} {images : Images}
    (h : Infrastructure.ofProject p a images = .error f) : ¬ f.IsPremature := by
  unfold Infrastructure.ofProject at h
  split at h
  · rename_i hservices
    cases h
    exact not_isPremature_of_servicesOf hservices
  · cases h

theorem not_isPremature_of_inCloud {p : Project} {role : String} {e : Endpoints} {secrets : Secrets}
    (h : Environment.inCloud p role e secrets = .error f) : ¬ f.IsPremature := by
  obtain hservice | ⟨k, -, rfl⟩ := Environment.fault_of_inCloud h
  · exact Project.not_isPremature_of_service hservice
  · exact id

theorem not_isPremature_of_serviceEnvironments {p : Project} {secrets : Secrets} {roles : List String}
    (h : serviceEnvironments p secrets roles = .error f) : ¬ f.IsPremature := by
  obtain ⟨role, -, henvironment⟩ := (mapM_eq_error_iff.1 h).exists_mem
  exact not_isPremature_of_inCloud (map_eq_error_iff.1 henvironment)

theorem not_isPremature_of_varFlags (hsupplied : d.Supplied .apply) (h : d.varFlags = .error f) :
    ¬ f.IsPremature := by
  obtain ⟨⟨images, himages⟩, secrets, hsecrets⟩ := hsupplied
  simp only [varFlags, assignments, himages, hsecrets, map_eq_error_iff] at h
  exact not_isPremature_of_serviceEnvironments h

/-- **Only a stage that lacks what it needs asks for something too early.** -/
theorem not_isPremature_of_ownFault (hsupplied : d.Supplied s) (h : OwnFault d f s) : ¬ f.IsPremature := by
  cases s with
  | validate => exact Project.not_isPremature_of_checkDeployable h
  | pushImages =>
    rcases h with h | rfl
    · exact Project.not_isPremature_of_imageJobs h
    · exact id
  | generateFiles =>
    obtain ⟨images, himages⟩ := hsupplied
    simp only [OwnFault, himages] at h
    exact not_isPremature_of_ofProject h
  | diffCheck =>
    obtain ⟨generated, hgenerated⟩ := hsupplied
    rcases h with ⟨hnone, -⟩ | ⟨summary, rfl⟩
    · rw [hgenerated] at hnone
      cases hnone
    · exact id
  | apply => exact not_isPremature_of_varFlags hsupplied h
  | _ => exact h.elim

end Deploy

end Fleet
