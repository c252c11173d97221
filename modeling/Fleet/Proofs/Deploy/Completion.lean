/-
Completion: what has to be so for a deploy to go through.

The surroundings go along with everything (`Obliging`): no call fails, the token is not cancelled, the operator agrees,
and the secrets that are declared are in the store (`Stored`).
- `nodup_names_iff`: publishing needs different names of images. A dependency that runs in a container may be called
  like a service (`Clash`), which no check excludes.
- `clash_of_error`: of a project that a deploy accepts, no stage fails but the one that publishes, and that one only
  with a clash.
- `cancelled_of_clash`: with a clash, it does.
- `completes_iff`: a deploy of an accepted project goes through just if there is no such dependency.
-/
import Fleet.Machine.Memory
import Fleet.Proofs.Deploy.Findings
import Fleet.Proofs.Environment
import Fleet.Proofs.Project
import Fleet.Proofs.Publish.Success

namespace Fleet

open Dialogue

/-! ## What is accepted -/

namespace Dependency

/-- the secret that is declared as the password of a database -/
def declaredPassword? (d : Dependency) : Option String :=
  d.descriptor.settings.database.bind DatabaseSettings.passwordSecret

theorem declaredPassword?_of_passwordSecret? {d : Dependency} {name key : String}
    (h : d.passwordSecret? = some (name, key)) : d.declaredPassword? = some key := by
  unfold passwordSecret? at h
  split at h
  · rename_i settings _ hsettings
    split at h
    · rename_i hsecret
      cases h
      simp only [declaredPassword?, hsettings, Option.bind_some, hsecret]
    · cases h
  · cases h

end Dependency

namespace Project

variable {p : Project} {f : Fault}

theorem ready_of_checkDeployable (h : p.checkDeployable = .ok ()) : Ready p := by
  have hdeployable := checkDeployable_eq_ok_iff.1 h
  refine ⟨fun e he => ?_, fun role hrole => ?_⟩
  · obtain ⟨-, o, hcomes⟩ := hdeployable.roles e.1 e.2 (SortedMap.mem_entries_iff.1 he)
    exact ⟨o, Source.origin_eq_ok_iff.2 hcomes⟩
  · obtain ⟨s, hs, -⟩ := hdeployable.services role hrole
    exact ⟨s, hs⟩

/-! ## Names of images -/

theorem serviceJobs_eq_ok_iff {l : List (String × Source)} {jobs : List ImageJob} : p.serviceJobs l = .ok jobs ↔
    List.Forall₂ (fun e j => p.serviceJob e.1 e.2 = .ok j) l jobs := mapM_eq_ok_iff

theorem name_serviceJob {role : String} {source : Source} {j : ImageJob} (h : p.serviceJob role source = .ok j) :
    j.name = role := by
  unfold serviceJob at h
  split at h <;> cases h <;> rfl

theorem names_serviceJobs {l : List (String × Source)} {jobs : List ImageJob} (h : p.serviceJobs l = .ok jobs) :
    jobs.map ImageJob.name = l.map Prod.fst :=
  (map_eq_map_of_related (serviceJobs_eq_ok_iff.1 h) fun _ _ hj => (name_serviceJob hj).symm).symm

theorem exists_serviceJobs {l : List (String × Source)} (h : ∀ e ∈ l, ∃ o, e.2.origin e.1 = .ok o) :
    ∃ jobs, p.serviceJobs l = .ok jobs ∧ jobs.map ImageJob.name = l.map Prod.fst := by
  obtain ⟨jobs, hjobs⟩ : ∃ jobs, p.serviceJobs l = .ok jobs := exists_mapM fun e he => by
    obtain ⟨o, horigin⟩ := h e he
    rw [serviceJob, horigin]
    cases o with
    | location path => exact ⟨_, rfl⟩
    | image reference => exact ⟨_, rfl⟩
  exact ⟨jobs, hjobs, names_serviceJobs hjobs⟩

/-- a dependency has an image just if it runs in a container -/
theorem dependencyJob?_cases (p : Project) (d : Dependency) :
    d.isContainerised = false ∧ p.dependencyJob? d = none ∨
      d.isContainerised = true ∧ ∃ j, p.dependencyJob? d = some j ∧ j.name = d.name := by
  unfold dependencyJob? Dependency.container? Dependency.isContainerised
  cases d.kind with
  | managedDatabase => exact .inl ⟨rfl, rfl⟩
  | messageBus repository =>
    have himage : (Dependency.busContainer p d repository).image = some s!"{repository}:{d.version}" := by
      unfold Dependency.busContainer
      cases d.lifecycle <;> rfl
    simp only [Option.bind_some, himage, Option.map_some]
    exact .inr ⟨trivial, _, rfl, rfl⟩
  | generic => exact .inr ⟨rfl, _, rfl, rfl⟩

theorem names_dependencyJobs (p : Project) (l : List Dependency) :
    (l.filterMap p.dependencyJob?).map ImageJob.name = (l.filter Dependency.isContainerised).map Dependency.name := by
  induction l with
  | nil => rfl
  | cons d l ih =>
    obtain ⟨hcontainerised, hjob⟩ | ⟨hcontainerised, j, hjob, hname⟩ := p.dependencyJob?_cases d
    · rw [List.filterMap_cons_none hjob, List.filter_cons_of_neg (by simp [hcontainerised]), ih]
    · rw [List.filterMap_cons_some hjob, List.filter_cons_of_pos hcontainerised, List.map_cons,
        List.map_cons, hname, ih]

theorem exists_imageJobs (h : Ready p) : ∃ jobs, p.imageJobs = .ok jobs ∧ jobs.map ImageJob.name =
    p.roles ++ (p.cloudDependencies.filter Dependency.isContainerised).map Dependency.name := by
  obtain ⟨jobs, hjobs, hnames⟩ := exists_serviceJobs (p := p) h.origins
  refine ⟨_, by rw [imageJobs, hjobs]; rfl, ?_⟩
  rw [List.map_append, names_dependencyJobs, hnames]
  rfl

/-- what is kept is the first of its name, unless the name has come before -/
theorem mem_firstOfEachName_iff {d : Dependency} {seen : List String} {l : List Dependency} :
    d ∈ firstOfEachName seen l ↔ d.name ∉ seen ∧ (l.find? fun x => x.name = d.name) = some d := by
  induction l generalizing seen with
  | nil => simp [firstOfEachName]
  | cons x l ih =>
    simp only [firstOfEachName]
    by_cases hname : x.name = d.name
    · rw [List.find?_cons_of_pos (by simpa using hname)]
      split
      · rename_i hseen
        have hseen : d.name ∈ seen := by simpa [hname] using hseen
        simp [ih, hseen]
      · rename_i hseen
        have hseen : d.name ∉ seen := by simpa [hname] using hseen
        simp [ih, hseen, hname, eq_comm]
    · rw [List.find?_cons_of_neg (by simpa using hname)]
      have hne : d ≠ x := fun h => hname (h ▸ rfl)
      split
      · exact ih
      · simp [ih, hne, Ne.symm hname]

theorem nodup_firstOfEachName (seen : List String) (l : List Dependency) :
    ((firstOfEachName seen l).map Dependency.name).Nodup := by
  induction l generalizing seen with
  | nil => exact List.nodup_nil
  | cons d l ih =>
    simp only [firstOfEachName]
    split
    · exact ih seen
    · rw [List.map_cons, List.nodup_cons]
      refine ⟨fun hin => ?_, ih _⟩
      obtain ⟨d', hd', hname⟩ := List.mem_map.1 hin
      exact (mem_firstOfEachName_iff.1 hd').1 (hname ▸ List.mem_cons_self)

/-- a dependency that runs in a container is called like a service -/
def Clash (p : Project) : Prop := ∃ d ∈ p.cloudDependencies, d.isContainerised = true ∧ d.name ∈ p.roles

/-- **Names of images differ just if no dependency in a container is called like a service.** -/
theorem nodup_names_iff (p : Project) :
    (p.roles ++ (p.cloudDependencies.filter Dependency.isContainerised).map Dependency.name).Nodup ↔ ¬ Clash p := by
  have hroles : p.roles.Nodup := SortedMap.nodup_keys _
  have hdependencies : ((p.cloudDependencies.filter Dependency.isContainerised).map Dependency.name).Nodup :=
    (nodup_firstOfEachName [] _).sublist (List.filter_sublist.map _)
  rw [List.nodup_append]
  constructor
  · rintro ⟨-, -, hne⟩ ⟨d, hd, hcontainerised, hname⟩
    exact hne _ hname _ (List.mem_map_of_mem (List.mem_filter.2 ⟨hd, hcontainerised⟩)) rfl
  · intro hclash
    refine ⟨hroles, hdependencies, fun role hrole name hname heq => hclash ?_⟩
    obtain ⟨d, hd, rfl⟩ := List.mem_map.1 hname
    obtain ⟨hd, hcontainerised⟩ := List.mem_filter.1 hd
    exact ⟨d, hd, hcontainerised, heq ▸ hrole⟩

/-! ## Compiling -/

theorem exists_servicesOf {roles : List String} (h : ∀ role ∈ roles, ∃ s, p.services.get? role = some s) :
    ∃ l, Infrastructure.servicesOf p roles = .ok l := by
  refine exists_mapM fun role hrole => ?_
  obtain ⟨s, hs⟩ := h role hrole
  rw [service, hs]
  exact ⟨_, rfl⟩

theorem exists_ofProject (h : Ready p) (account : Account) (images : Images) :
    ∃ i, Infrastructure.ofProject p account images = .ok i := by
  obtain ⟨l, hl⟩ := exists_servicesOf h.services
  simp only [Infrastructure.ofProject, hl]
  exact ⟨_, rfl⟩

/-- the store has every secret that is declared: for a service, or as the password of a database that it uses -/
structure Stored (p : Project) (secrets : Secrets) : Prop where
  declared : ∀ role ∈ p.roles, ∀ s ∈ p.services.get? role, ∀ k ∈ s.inCloud.secrets, k ∈ secrets.keys
  passwords : ∀ role ∈ p.roles, ∀ d ∈ p.dependenciesOf role .inCloud, ∀ k ∈ d.declaredPassword?, k ∈ secrets.keys

section Stored

variable {secrets : Secrets}

theorem exists_layers {l : List Dependency} (h : ∀ d ∈ l, ∀ k ∈ d.declaredPassword?, k ∈ secrets.keys) :
    ∃ layers, List.Forall₂ (fun d layer => d.deployedVariables p secrets = .ok layer) l layers := by
  induction l with
  | nil => exact ⟨[], .nil⟩
  | cons d l ih =>
    obtain ⟨hd, hl⟩ := List.forall_mem_cons.1 h
    obtain ⟨layers, hlayers⟩ := ih hl
    obtain ⟨layer, hlayer⟩ : ∃ layer, d.deployedVariables p secrets = .ok layer := by
      simp only [Dependency.deployedVariables]
      cases hpassword : d.passwordSecret? with
      | none => exact ⟨_, rfl⟩
      | some entry =>
        obtain ⟨name, key⟩ := entry
        have hkey := Dependency.declaredPassword?_of_passwordSecret? hpassword
        obtain ⟨v, hv⟩ := SortedMap.mem_keys_iff.1 (hd key hkey)
        simp only [hv]
        exact ⟨_, rfl⟩
    exact ⟨layer :: layers, .cons hlayer hlayers⟩

theorem exists_inCloud (hready : Ready p) (hstored : Stored p secrets) {role : String} (hrole : role ∈ p.roles)
    (e : Endpoints) : ∃ vars, Environment.inCloud p role e secrets = .ok vars := by
  obtain ⟨s, hs⟩ := hready.services role hrole
  obtain ⟨layers, hlayers⟩ := exists_layers (p := p) (hstored.passwords role hrole)
  exact ⟨_, Environment.inCloud_eq_ok_iff.2 ⟨s, layers, hs, hlayers, hstored.declared role hrole s hs, rfl⟩⟩

theorem exists_serviceEnvironments (hready : Ready p) (hstored : Stored p secrets) {roles : List String}
    (hroles : roles ⊆ p.roles) : ∃ l, Deploy.serviceEnvironments p secrets roles = .ok l := by
  refine exists_mapM fun role hrole => ?_
  obtain ⟨vars, hvars⟩ := exists_inCloud hready hstored (hroles hrole) (.ofProject p .deploy)
  rw [hvars]
  exact ⟨_, rfl⟩

end Stored

end Project

/-! ## Surroundings that go along -/

/-- an answer of surroundings that go along with everything and keep these secrets -/
def Obliging (secrets : Secrets) : Asked → Prop
  | ⟨.call (.readSecrets _), r⟩ => r = .ok secrets
  | ⟨.call (.confirm _), r⟩ => r = .ok true
  | ⟨.call (.writeDefinition _ i), r⟩ => r = .ok i.render
  | ⟨.call _, r⟩ => ∃ a, r = .ok a
  | ⟨.cancelled, c⟩ => c = false
  | _ => True

section Obliging

variable {secrets : Secrets} {es : List Asked}

theorem Obliging.call_ok {c : Call} {r : Except Fault c.Answer} (h : Obliging secrets ⟨.call c, r⟩) :
    ∃ a, r = .ok a := by
  cases c with
  | readSecrets account => exact ⟨_, h⟩
  | confirm prompt => exact ⟨_, h⟩
  | writeDefinition dir i => exact ⟨_, h⟩
  | _ => exact h

theorem clean_of_obliging (h : ∀ e ∈ es, Obliging secrets e) : Publish.Clean es := by
  refine ⟨fun hcancelled => ?_, fun c f hfailed => ?_⟩
  · cases h _ hcancelled
  · obtain ⟨a, ha⟩ := (h _ hfailed).call_ok
    cases ha

theorem not_callFailed_of_clean (h : Publish.Clean es) {f : Fault} : ¬ CallFailed es f := by
  rintro ⟨c, hc⟩
  exact h.2 c f hc

theorem Publish.Clean.mono {es' : List Asked} (h : Publish.Clean es) (hsub : es' ⊆ es) : Publish.Clean es' :=
  ⟨fun hin => h.1 (hsub hin), fun c f hin => h.2 c f (hsub hin)⟩

end Obliging

/-! ## Publishing -/

/-- **When nothing goes wrong, publishing depends on the names alone.** With two images of one name it is cancelled, by
nobody. -/
theorem publish_of_clean {t : Publish.Target} {jobs : List ImageJob} {concurrency : Nat} {es : List Asked}
    {r : Except Fault Images} (h : (publish t jobs concurrency).Play es r) (hclean : Publish.Clean es) :
    ((jobs.map ImageJob.name).Nodup → ∃ images, r = .ok images) ∧
    (¬ (jobs.map ImageJob.name).Nodup → r = .error .cancelled) := by
  obtain ⟨log, hcourse⟩ := Publish.play_publish_iff.1 h
  refine ⟨fun hnames => Publish.ok_of_clean hcourse hnames hclean, fun hnames => ?_⟩
  cases r with
  | ok images => exact absurd (Publish.complete_of_course hcourse).names hnames
  | error f =>
    obtain hcall | rfl := hcourse.callFailed
    · exact absurd hcall (not_callFailed_of_clean hclean)
    · rfl

namespace Deploy

variable {d t : Deploy} {secrets : Secrets} {es own : List Asked} {r : Except Fault Deploy} {s : Stage}
  {through rest : List Stage} {f : Fault} {x : Except StageFault Unit}

theorem pushImages_of_clean (hready : d.project.Ready) (h : (pushImages d).Play es r) (hclean : Publish.Clean es) :
    (¬ d.project.Clash → ∃ d', r = .ok d') ∧ (d.project.Clash → r = .error .cancelled) := by
  obtain ⟨jobs, hjobs, hnames⟩ := Project.exists_imageJobs hready
  have hdiffer := hnames ▸ Project.nodup_names_iff d.project
  obtain ⟨f, -, hlogin⟩ | ⟨registry, _, _, rfl, -, h⟩ := play_bind_iff.1 h
  · cases play_call_iff.1 hlogin
    exact absurd (List.mem_singleton_self _) (hclean.2 _ f)
  simp only [hjobs] at h
  obtain ⟨_, hf, _⟩ | ⟨_, hsame, h⟩ := play_ofExcept_bind_iff.1 h
  · cases hf
  cases hsame
  obtain ⟨f, rfl, hpublish⟩ | ⟨images, _, _, rfl, hpublish, h⟩ := play_bind_iff.1 h
  · obtain ⟨hok, hcancelled⟩ := publish_of_clean hpublish (hclean.mono (List.subset_append_right _ _))
    refine ⟨fun hclash => ?_, fun hclash => ?_⟩
    · obtain ⟨_, himages⟩ := hok (hdiffer.2 hclash)
      cases himages
    · cases hcancelled fun hnodup => hdiffer.1 hnodup hclash
      rfl
  · obtain ⟨-, hcancelled⟩ := publish_of_clean hpublish
      (hclean.mono (List.subset_append_of_subset_right _ (List.subset_append_left _ _)))
    refine ⟨fun _ => ?_, fun hclash => ?_⟩
    · obtain ⟨_, _, hannounce⟩ | ⟨_, _, _, -, -, hend⟩ := play_bind_iff.1 h
      · exact absurd hannounce announce_ne_error
      · exact ⟨_, (play_done_iff.1 hend).2⟩
    · cases hcancelled fun hnodup => hdiffer.1 hnodup hclash

theorem exists_varFlags (hready : d.project.Ready) (hstored : d.project.Stored secrets)
    (hsecrets : d.secrets = some secrets) {images : Images} (himages : d.imagesOr = .ok images) :
    ∃ flags, d.varFlags = .ok flags := by
  obtain ⟨services, hservices⟩ := Project.exists_serviceEnvironments hready hstored (List.Subset.refl _)
  simp only [varFlags, assignments, secretsOr, hsecrets, himages, hservices]
  exact ⟨_, rfl⟩

/-- an accepted change goes on -/
theorem not_diffCheck_error {generated : String} (hgenerated : t.generated = some generated)
    (hobliging : ∀ e ∈ own, Obliging secrets e) : ¬ (diffCheck t).Play own (.error f) := by
  intro h
  obtain ⟨_, _, hr⟩ | ⟨_, decision, hconfirmations, ⟨hr, _⟩ | ⟨_, hdeclined⟩⟩ := diffCheck_play hgenerated h
  · cases hr
  · cases hr
  · obtain ⟨prompt, hanswer⟩ := mem_confirmations.1 (hconfirmations ▸ List.mem_singleton_self decision)
    exact hdeclined (hobliging _ hanswer)

/-- **Of an accepted deploy, only publishing can fail, when the surroundings go along**, and only for two images of one
name. -/
theorem clash_of_error (hdeployable : d.project.checkDeployable = .ok ()) (hstored : d.project.Stored secrets)
    (hobliging : ∀ e ∈ es, Obliging secrets e) (hat : At d es through t) (hall : Stage.all = through ++ s :: rest)
    (hown : own ⊆ es) (h : (step s t).Play own (.error f)) : d.project.Clash := by
  have hproject : t.project = d.project := congrArg Prod.fst (same_of_start hat).aim
  have hready := Project.ready_of_checkDeployable hdeployable
  have hclean := (clean_of_obliging hobliging).mono hown
  have hsupplied := supplied_of_at hat hall
  have hfault := (fault_of_step h).resolve_left (not_callFailed_of_clean hclean)
  cases s with
  | validate =>
    simp only [OwnFault, hproject, hdeployable] at hfault
    cases hfault
  | pushImages =>
    by_contra hclash
    obtain ⟨_, hr⟩ := (pushImages_of_clean (hproject ▸ hready) h hclean).1 (hproject ▸ hclash)
    cases hr
  | generateFiles =>
    obtain ⟨images, himages⟩ := hsupplied
    obtain ⟨i, hi⟩ := Project.exists_ofProject hready t.account images
    simp only [OwnFault, himages, hproject, Except.bind, hi] at hfault
    cases hfault
  | diffCheck =>
    obtain ⟨generated, hgenerated⟩ := hsupplied
    exact absurd h (not_diffCheck_error hgenerated fun e he => hobliging e (hown he))
  | apply =>
    obtain ⟨⟨images, himages⟩, -⟩ := hsupplied
    obtain ⟨_, kept, hkept, hanswer⟩ := (filled_of_at hat).secrets (mem_through hall (by decide) (by decide))
    cases hobliging _ hanswer
    obtain ⟨flags, hflags⟩ := exists_varFlags (hproject ▸ hready) (hproject ▸ hstored) hkept himages
    simp only [OwnFault, hflags] at hfault
    cases hfault
  | _ => exact hfault.elim

/-- when nothing goes wrong, a stage is started; it fails, or it goes through and the others follow -/
theorem play_stages_cons_of_clean {l : List Stage} {out : Deploy × Except StageFault Unit}
    (h : (Pipeline.run (stages (s :: l)) d).Play es (.ok out)) (hclean : Publish.Clean es) :
    (∃ f own, own ⊆ es ∧ (step s d).Play own (.error f) ∧ out = (d, .error ⟨s, f⟩)) ∨
    ∃ d' own es', own ⊆ es ∧ es' ⊆ es ∧ (step s d).Play own (.ok d') ∧
      (Pipeline.run (stages l) d').Play es' (.ok out) := by
  rcases play_stages_cons_iff.1 h with ⟨rfl, _⟩ | ⟨f, own, rfl, hstep, hout⟩ | ⟨d', own, es', rfl, hstep, hrest⟩
  · exact absurd (List.mem_singleton_self _) hclean.1
  · exact .inl ⟨f, own, List.subset_append_right _ _, hstep, hout⟩
  · refine .inr ⟨d', own, es', ?_, ?_, hstep, hrest⟩
    · exact List.subset_append_of_subset_right _ (List.subset_append_left _ _)
    · exact List.subset_append_of_subset_right _ (List.subset_append_right _ _)

/-- with two images of one name, the deploy ends where they are published -/
theorem cancelled_of_clash (hdeployable : d.project.checkDeployable = .ok ()) (hclash : d.project.Clash)
    (h : d.run.Play es (.ok (t, x))) (hclean : Publish.Clean es) : x = .error ⟨.pushImages, .cancelled⟩ := by
  have hready := Project.ready_of_checkDeployable hdeployable
  obtain ⟨f, own, hown, hvalidate, _⟩ | ⟨d₁, _, es₁, _, hes₁, hvalidate, h₁⟩ :=
    play_stages_cons_of_clean (s := .validate) h hclean
  · obtain ⟨_, hf, _⟩ | ⟨_, _, hend⟩ := play_ofExcept_bind_iff.1 hvalidate
    · rw [hdeployable] at hf
      cases hf
    · cases (play_done_iff.1 hend).2
  have hclean₁ := hclean.mono hes₁
  obtain ⟨f, own, hown, hprovision, _⟩ | ⟨d₂, _, es₂, _, hes₂, hprovision, h₂⟩ := play_stages_cons_of_clean h₁ hclean₁
  · exact absurd (callFailed_of_call hprovision) (not_callFailed_of_clean (hclean₁.mono hown))
  have hclean₂ := hclean₁.mono hes₂
  have hproject : d₂.project = d.project :=
    congrArg Prod.fst ((step_aim hprovision).trans (step_aim hvalidate))
  obtain ⟨f, own, hown, hpush, hout⟩ | ⟨d₃, own, _, hown, _, hpush, _⟩ := play_stages_cons_of_clean h₂ hclean₂
  · have hpublished := pushImages_of_clean (hproject ▸ hready) hpush (hclean₂.mono hown)
    cases hpublished.2 (hproject ▸ hclash)
    cases hout
    rfl
  · have hpublished := pushImages_of_clean (hproject ▸ hready) hpush (hclean₂.mono hown)
    cases hpublished.2 (hproject ▸ hclash)

/-- **A deploy of an accepted project goes through just if no dependency in a container is called like a service**, when
the surroundings go along with everything. Then every stage runs once. Otherwise publishing is cancelled, although
nobody cancelled it and no call failed. -/
theorem completes_iff (hdeployable : d.project.checkDeployable = .ok ()) (hstored : d.project.Stored secrets)
    (h : d.run.Play es (.ok (t, x))) (hobliging : ∀ e ∈ es, Obliging secrets e) :
    (x = .ok () ↔ ¬ d.project.Clash) ∧ (d.project.Clash → x = .error ⟨.pushImages, .cancelled⟩) ∧
    (x = .ok () → ∃ parts, parts.map Pipeline.Part.stage = Stage.all ∧ Pipeline.Through standard d parts t ∧
      es = Pipeline.exchanged parts) := by
  have hclean := clean_of_obliging hobliging
  have hcancelled (hclash : d.project.Clash) := cancelled_of_clash hdeployable hclash h hclean
  refine ⟨⟨?_, fun hclash => ?_⟩, hcancelled, ?_⟩
  · rintro rfl hclash
    cases hcancelled hclash
  · obtain ⟨through, hat, ⟨hx, _⟩ | ⟨s, rest, f, _, hall, ⟨_, htoken⟩ | ⟨own, hown, hstep⟩⟩⟩ := exists_end h
    · exact hx
    · exact absurd htoken hclean.1
    · exact absurd (clash_of_error hdeployable hstored hobliging hat hall hown hstep) hclash
  · rintro rfl
    obtain ⟨parts, hthrough, rfl⟩ := Pipeline.play_run_ok_iff.1 h
    exact ⟨parts, hthrough.stages_eq, hthrough, rfl⟩

/-! ## Two shops -/

/-- surroundings that go along with everything and keep these secrets -/
def agreeable (secrets : Secrets) : (q : Ask) → Unit → q.Answer × Unit
  | .call c, _ => (.ok (({ secrets, accepts := true } : Rehearsal.Script).respond c), ())
  | .cancelled, _ => (false, ())
  | .say _, _ | .note _, _ => ((), ())
  | .turn _, _ => (0, ())

theorem obliging_agreeable (secrets : Secrets) (q : Ask) (w : Unit) :
    Obliging secrets ⟨q, (agreeable secrets q w).1⟩ := by
  cases q with
  | call c =>
    cases c with
    | readSecrets account => rfl
    | confirm prompt => rfl
    | writeDefinition dir i => rfl
    | _ => exact ⟨_, rfl⟩
  | cancelled => rfl
  | _ => trivial

/-- a shop that keeps its stock in a database of the cloud, and its sessions in a container -/
def stockedShop : Deploy where
  project := {
    dir := "."
    application := {
      name := "shop", version := "1"
      services := .singleton "web" { location := some "web" }
      site := {
        dependencies := [
          { name := "mysql", version := "8"
            settings := { database := some {
              allocatedStorage := some "10", instanceClass := some "micro", storageType := some "ssd"
              dbName := some "stock", username := some "shop", passwordSecret := some "db-password"
              consumerNames := ⟨some "DB", some "DB_USER", some "DB_PASSWORD"⟩ } } },
          { name := "redis", version := "7" }]
        url := "shop.example", accountId := "1", region := "eu", certificate := "cert" } }
    services := .singleton "web" { inCloud := { cpu := some "1", memory := some "1", secrets := ["session-key"] } } }
  account := ⟨"default", "eu", "1", "shop"⟩
  infraDir := "infra"
  autoApprove := false

def stockedSecrets : Secrets := .ofList [("db-password", "swordfish"), ("session-key", "sesame")]

theorem stockedShop_completes : stockedShop.project.checkDeployable = .ok () ∧
    stockedShop.project.Stored stockedSecrets ∧ ∃ es t, stockedShop.run.Play es (.ok (t, .ok ())) ∧
      ∀ e ∈ es, Obliging stockedSecrets e := by
  have hdeployable : stockedShop.project.checkDeployable = .ok () := by decide +kernel
  have hstored : stockedShop.project.Stored stockedSecrets := ⟨by decide +kernel, by decide +kernel⟩
  have hclash : ¬ stockedShop.project.Clash := by unfold Project.Clash; decide +kernel
  have hplay := play_run (agreeable stockedSecrets) stockedShop.run ()
  have hobliging := all_transcript (obliging_agreeable stockedSecrets) stockedShop.run ()
  obtain ⟨⟨t, x⟩, hresult⟩ := Action.exists_result hplay
  rw [hresult] at hplay
  obtain rfl := (completes_iff hdeployable hstored hplay hobliging).1.2 hclash
  exact ⟨hdeployable, hstored, _, t, hplay, hobliging⟩

/-- the files of a shop in which a service and a container that it needs are both called `mongo` -/
def namesakeFiles : (q : Machine.Request) → Machine.Memory → q.Answer × Machine.Memory
  | .readFile path, m =>
    (if path = "./application.yml" then
      .ok ("\n".intercalate [
        "name: shop",
        "version: v1",
        "services:",
        "  mongo:",
        "    location: mongo",
        "remote:",
        "  url: a",
        "  account-id: b",
        "  region: c",
        "  ssl-certificate-arn: d",
        "  dependencies:",
        "  - name: mongo",
        "    version: v4"])
    else if path = "./mongo/service.yml" then .ok ("\n".intercalate ["remote:", "  cpu: x", "  memory: y"])
    else .error .notFound, m)
  | q, m => m.answer q

def namesakeShop : Deploy where
  project := {
    dir := "."
    application := {
      name := "shop", version := "v1"
      services := .singleton "mongo" { location := some "mongo" }
      site := {
        dependencies := [{ name := "mongo", version := "v4" }]
        url := "a", accountId := "b", region := "c", certificate := "d" } }
    services := .singleton "mongo" { inCloud := { cpu := some "x", memory := some "y" } } }
  account := ⟨"default", "c", "b", "shop"⟩
  infraDir := "infra"
  autoApprove := true

/-- the shop is loaded and accepted, and its deploy is cancelled by nobody -/
theorem namesakeShop_is_cancelled : ¬ ∀ (dir : String) (reads : List (Exchange Machine.Request Machine.Request.Answer))
    (p : Project), (Project.load dir).Play reads (.ok p) → p.checkDeployable = .ok () →
    ∀ (d : Deploy) (secrets : Secrets) (es : List Asked) (t : Deploy) (x : Except StageFault Unit), d.project = p →
      1 ≤ d.concurrency → p.Stored secrets → d.run.Play es (.ok (t, x)) → (∀ e ∈ es, Obliging secrets e) →
        x = .ok () := by
  intro h
  have hread := play_run namesakeFiles (Project.load ".") {}
  have hloaded : ((Project.load ".").run namesakeFiles {}).1 = .ok namesakeShop.project := by decide +kernel
  have hdeployable : namesakeShop.project.checkDeployable = .ok () := by decide +kernel
  have hstored : namesakeShop.project.Stored .empty := ⟨by decide +kernel, by decide +kernel⟩
  have hclash : namesakeShop.project.Clash := by unfold Project.Clash; decide +kernel
  have hplay := play_run (agreeable .empty) namesakeShop.run ()
  have hobliging := all_transcript (obliging_agreeable .empty) namesakeShop.run ()
  obtain ⟨⟨t, x⟩, hresult⟩ := Action.exists_result hplay
  rw [hloaded] at hread
  rw [hresult] at hplay
  cases h _ _ _ hread hdeployable namesakeShop _ _ _ _ rfl (by decide) hstored hplay hobliging
  cases cancelled_of_clash hdeployable hclash hplay (clean_of_obliging hobliging)

end Deploy

end Fleet
