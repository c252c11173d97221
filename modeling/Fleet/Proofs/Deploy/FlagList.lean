/-
The flags of a deploy: which there are, in which order, and what it is that keeps them from being compiled.

- `serviceEnvironments_eq_error_iff`: of the roles whose environments cannot be had, the first one is reported.
- `varFlags_eq_error_iff`: what is reported is that there are no secrets yet, then that there are no images yet, and
  then the first such role.
- `lists_of_varFlags`: flags that are compiled name each variable in its place, and the text of an environment says what
  the environment is.
- `flags_are_listed`: both, and that nothing else keeps flags from being compiled.
-/
import Fleet.Proofs.Deploy.Flags

namespace Fleet.Deploy

variable {d : Deploy} {p : Project} {f : Fault} {secrets : Secrets} {images : Images} {flags roles : List String}
  {services : List (String × String)}

/-! ## Flags that are compiled -/

/-- the environment of a role when it is deployed -/
def environmentOf (p : Project) (secrets : Secrets) (role : String) : Except Fault Variables :=
  Environment.inCloud p role (.ofProject p .deploy) secrets

/-- a service's variable with a text that says what the environment of the service is -/
def TellsService (p : Project) (secrets : Secrets) (role : String) (e : String × String) : Prop :=
  e.1 = role ++ "_env_vars" ∧ ∃ vars, environmentOf p secrets role = .ok vars ∧ Environment.decode e.2 = .ok vars

/-- a dependency's variable with a text that says what the infrastructure of the dependency is told -/
def TellsDependency (p : Project) (x : Dependency) (e : String × String) : Prop :=
  e.1 = x.name ++ "_env_vars" ∧ Environment.decode e.2 = .ok (x.moduleVariables p)

/-- flags for secrets, images, services, dependencies and the profile, each kind in the order of its names or, for
dependencies, of their declaration -/
def Lists (d : Deploy) (secrets : Secrets) (images : Images) (flags : List String) : Prop :=
  ∃ services dependencies, List.Forall₂ (TellsService d.project secrets) d.project.roles services ∧
    List.Forall₂ (TellsDependency d.project) d.project.cloudDependencies dependencies ∧
    flags = (secrets.entries ++ images.entries.map (fun e => (e.1 ++ "_docker_image", e.2)) ++ services ++
      dependencies ++ [("aws_profile", d.account.profile)]).flatMap fun e => ["-var", e.1 ++ "=" ++ e.2]

/-- there is all that flags are compiled from -/
def IsEquipped (d : Deploy) (secrets : Secrets) (images : Images) : Prop :=
  d.secrets = some secrets ∧ d.images = some images ∧
    ∀ role ∈ d.project.roles, ∃ vars, environmentOf d.project secrets role = .ok vars

theorem flag_eq (name value : String) : flag name value = ["-var", name ++ "=" ++ value] := by
  simp [flag, toString]

theorem tells_services (h : serviceEnvironments p secrets roles = .ok services) :
    List.Forall₂ (TellsService p secrets) roles services := by
  refine (serviceEnvironments_eq_ok_iff.1 h).imp ?_
  rintro role _ ⟨vars, hvars, rfl⟩
  exact ⟨by simp [Infrastructure.envVariable], vars, hvars, Environment.decode_encode vars⟩

theorem tells_dependencies (p : Project) :
    List.Forall₂ (TellsDependency p) p.cloudDependencies (dependencyEnvironments p) := by
  rw [dependencyEnvironments, List.forall₂_map_right_iff, List.forall₂_same]
  exact fun x _ => ⟨by simp [Infrastructure.envVariable], Environment.decode_encode _⟩

/-- **Flags that are compiled name each variable in its place.** -/
theorem lists_of_varFlags (h : d.varFlags = .ok flags) : ∃ secrets images, d.IsEquipped secrets images ∧
    d.Lists secrets images flags := by
  obtain ⟨secrets, images, services, hsecrets, himages, hservices, rfl⟩ := varFlags_eq_ok_iff.1 h
  have htold := tells_services hservices
  refine ⟨secrets, images, ⟨hsecrets, himages, fun role hrole => ?_⟩, services, _, htold,
    tells_dependencies d.project, ?_⟩
  · obtain ⟨_, _, _, vars, hvars, _⟩ := exists_related htold hrole
    exact ⟨vars, hvars⟩
  · simp [assigned, Infrastructure.imageVariable, Infrastructure.profileVariable, flag_eq]

/-! ## What is reported -/

/-- what keeps flags from being compiled, each thing only if those above it do not -/
inductive Hindrance (d : Deploy) : Fault → Prop
  | secrets (h : d.secrets = none) : Hindrance d (.unresolved "secrets" .notReady)
  | images {secrets : Secrets} (hsecrets : d.secrets = some secrets) (h : d.images = none) :
      Hindrance d (.unresolved "images" .notReady)
  | environment {secrets : Secrets} {images : Images} {f : Fault} (hsecrets : d.secrets = some secrets)
      (himages : d.images = some images)
      (h : FirstFails (fun role => ∃ vars, environmentOf d.project secrets role = .ok vars)
        (fun role => environmentOf d.project secrets role = .error f) d.project.roles) : Hindrance d f

/-- the first role whose environment cannot be had is reported -/
theorem serviceEnvironments_eq_error_iff : serviceEnvironments p secrets roles = .error f ↔
    FirstFails (fun role => ∃ vars, environmentOf p secrets role = .ok vars)
      (fun role => environmentOf p secrets role = .error f) roles := by
  rw [serviceEnvironments, mapM_eq_error_iff]
  simp only [map_eq_error_iff, exists_map_eq_ok_iff, environmentOf]

theorem varFlags_eq_error_iff : d.varFlags = .error f ↔ d.Hindrance f := by
  simp only [varFlags, assignments, secretsOr, imagesOr]
  constructor
  · intro h
    cases hsecrets : d.secrets with
    | none =>
      rw [hsecrets] at h
      cases h
      exact .secrets hsecrets
    | some secrets =>
      cases himages : d.images with
      | none =>
        rw [hsecrets, himages] at h
        cases h
        exact .images hsecrets himages
      | some images =>
        simp only [hsecrets, himages, map_eq_error_iff] at h
        exact .environment hsecrets himages (serviceEnvironments_eq_error_iff.1 h)
  · intro h
    cases h with
    | secrets hsecrets =>
      rw [hsecrets]
      rfl
    | images hsecrets himages =>
      rw [hsecrets, himages]
      rfl
    | environment hsecrets himages hfirst =>
      simp only [hsecrets, himages, map_eq_error_iff]
      exact serviceEnvironments_eq_error_iff.2 hfirst

/-- **Flags are compiled just if there are secrets, images, and an environment for each role.** Then they are those of
all secrets, images, services and dependencies in this order, and of the profile. Otherwise what is reported is the
first thing that is not there, roles in ascending order. -/
theorem flags_are_listed (d : Deploy) : d.project.roles.Pairwise (· < ·) ∧
    (∀ f, d.varFlags = .error f ↔ d.Hindrance f) ∧
    ((∃ flags, d.varFlags = .ok flags) ↔ ∃ secrets images, d.IsEquipped secrets images) ∧
    ∀ flags, d.varFlags = .ok flags → ∃ secrets images, d.IsEquipped secrets images ∧ d.Lists secrets images flags := by
  refine ⟨d.project.ascending_roles, fun f => varFlags_eq_error_iff, ⟨?_, ?_⟩, fun flags => lists_of_varFlags⟩
  · rintro ⟨flags, hflags⟩
    obtain ⟨secrets, images, hequipped, _⟩ := lists_of_varFlags hflags
    exact ⟨secrets, images, hequipped⟩
  · rintro ⟨secrets, images, hsecrets, himages, hroles⟩
    cases hresult : d.varFlags with
    | ok flags => exact ⟨flags, rfl⟩
    | error f =>
      exfalso
      cases varFlags_eq_error_iff.1 hresult with
      | secrets hnone => cases hsecrets.symm.trans hnone
      | images _ hnone => cases himages.symm.trans hnone
      | environment hsame _ hfirst =>
        cases hsecrets.symm.trans hsame
        obtain ⟨before, role, after, hsplit, -, hfault⟩ := hfirst
        obtain ⟨vars, hvars⟩ := hroles role (by simp [hsplit])
        cases hvars.symm.trans hfault

/-- a shop with all that it needs, with a database whose password is missing, and before it has any secrets -/
theorem shops_list_their_flags : (∃ flags, (equippedShop stockedSecrets).varFlags = .ok flags ∧
      (equippedShop stockedSecrets).Lists stockedSecrets stockedImages flags) ∧
    (equippedShop .empty).varFlags = .error (.secretMissing "db-password") ∧
    stockedShop.varFlags = .error (.unresolved "secrets" .notReady) := by
  refine ⟨?_, ?_, ?_⟩
  · obtain ⟨flags, _, hflags, _⟩ := exists_equipped stored_stockedSecrets
    obtain ⟨secrets, images, ⟨hsecrets, himages, _⟩, hlists⟩ := (flags_are_listed _).2.2.2 flags hflags
    cases hsecrets
    cases himages
    exact ⟨flags, hflags, hlists⟩
  · have hfault : environmentOf stockedShop.project .empty "web" = .error (.secretMissing "db-password") := by
      decide +kernel
    exact ((flags_are_listed (equippedShop .empty)).2.1 _).2
      (.environment rfl rfl ⟨[], "web", [], by decide +kernel, by simp, hfault⟩)
  · exact ((flags_are_listed stockedShop).2.1 _).2 (.secrets rfl)

end Fleet.Deploy
