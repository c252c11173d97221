/-
Provision: which of the dependencies that services are told about a deploy checks and provides.

A service is told about every dependency in its scope (`Environment.inCloud_eq_ok_iff`). What a deploy provides holds
each name once (`mem_firstOfEachName_iff`).
- `provided_of_listed`: what is listed there is checked, has its module and, if it runs in a container, its image.
- `injected_is_provided_iff`: a dependency in scope is provided just if it is the one that is declared first under its
  name; so all of them are just if no two that differ share a name.
- `shop_reports_have_no_database`: a project that is accepted, whose second service is told about a database that nobody
  provides, with settings that nobody checked.
-/
import Fleet.Proofs.Deploy.Completion

namespace Fleet.Project

variable {p : Project} {d first : Dependency} {l : List Dependency} {role : String}

/-! ## What is declared -/

/-- everything that is declared for the cloud, what is shared first, then what each role has for itself -/
def declaredInCloud (p : Project) : List Dependency :=
  p.sharedDependencies .inCloud ++ p.roles.flatMap fun r => p.privateDependencies r .inCloud

theorem mem_cloudDependencies_iff : d ∈ p.cloudDependencies ↔
    (p.declaredInCloud.find? fun x => x.name = d.name) = some d := by
  simp [cloudDependencies, declaredInCloud, mem_firstOfEachName_iff]

theorem mem_declaredInCloud_iff (hrole : role ∈ p.roles) : d ∈ p.declaredInCloud ↔
    ∃ r ∈ p.roles, d ∈ p.dependenciesOf r .inCloud := by
  simp only [declaredInCloud, dependenciesOf, List.mem_append, List.mem_flatMap]
  constructor
  · rintro (hshared | ⟨r, hr, hprivate⟩)
    · exact ⟨role, hrole, .inl hshared⟩
    · exact ⟨r, hr, .inr hprivate⟩
  · rintro ⟨r, hr, hshared | hprivate⟩
    · exact .inl hshared
    · exact .inr ⟨r, hr, hprivate⟩

/-! ## What is provided -/

/-- the dependency is one that a deploy is about: it is checked, and it gets its module and its image -/
structure Provided (p : Project) (d : Dependency) : Prop where
  listed : d ∈ p.cloudDependencies
  checked : d.check = .ok ()
  module : ∀ account images, ∃ i, Infrastructure.ofProject p account images = .ok i ∧
    Infrastructure.dependencyModule p d ∈ i.dependencies
  image : d.isContainerised = true → ∃ jobs j, p.imageJobs = .ok jobs ∧ j ∈ jobs ∧ p.dependencyJob? d = some j ∧
    j.name = d.name ∧ j.version = d.version

theorem provided_of_listed (haccepted : p.checkDeployable = .ok ()) (hlisted : d ∈ p.cloudDependencies) :
    p.Provided d := by
  have hready := ready_of_checkDeployable haccepted
  have hchecked := Dependency.check_eq_ok_iff.2 ((checkDeployable_eq_ok_iff.1 haccepted).dependencies d hlisted)
  refine ⟨hlisted, hchecked, fun account images => ?_, fun hcontainerised => ?_⟩
  · obtain ⟨services, hservices⟩ := exists_servicesOf hready.services
    simp only [Infrastructure.ofProject, hservices]
    exact ⟨_, rfl, List.mem_map_of_mem hlisted⟩
  · obtain ⟨hnot, _⟩ | ⟨_, j, hjob, hname⟩ := p.dependencyJob?_cases d
    · rw [hnot] at hcontainerised
      cases hcontainerised
    obtain ⟨jobs, hjobs, _⟩ := exists_serviceJobs (p := p) hready.origins
    refine ⟨_, j, by rw [imageJobs, hjobs]; rfl, ?_, hjob, hname, ?_⟩
    · exact List.mem_append_right _ (List.mem_filterMap.2 ⟨d, hlisted, hjob⟩)
    · obtain ⟨image, _, rfl⟩ := Option.map_eq_some_iff.1 hjob
      rfl

/-- dependencies of one name that services are told about are the same -/
def Unambiguous (p : Project) : Prop :=
  ∀ role ∈ p.roles, ∀ role' ∈ p.roles, ∀ d ∈ p.dependenciesOf role .inCloud, ∀ d' ∈ p.dependenciesOf role' .inCloud,
    d.name = d'.name → d = d'

/-- what is declared first under the name of a dependency is provided, and nothing else under that name -/
theorem exists_first (haccepted : p.checkDeployable = .ok ()) (hd : d ∈ p.declaredInCloud) :
    ∃ first ∈ p.declaredInCloud, (p.declaredInCloud.find? fun x => x.name = d.name) = some first ∧
      first.name = d.name ∧ p.Provided first ∧ (p.Provided d ↔ d = first) := by
  cases hfind : p.declaredInCloud.find? fun x => x.name = d.name with
  | none => simpa using List.find?_eq_none.1 hfind d hd
  | some first =>
    have hname : first.name = d.name := by simpa using List.find?_some hfind
    have hprovided : p.Provided first :=
      provided_of_listed haccepted (mem_cloudDependencies_iff.2 (by rw [hname]; exact hfind))
    refine ⟨first, List.mem_of_find?_eq_some hfind, rfl, hname, hprovided, fun h => ?_, fun h => h ▸ hprovided⟩
    have hlisted := mem_cloudDependencies_iff.1 h.listed
    rw [hfind] at hlisted
    exact (Option.some.inj hlisted).symm

/-- **A service is told about all dependencies in its scope; of these, the ones that are declared first under their
names are provided, and no others.** So all of them are just if no two that differ share a name. -/
theorem injected_is_provided_iff (haccepted : p.checkDeployable = .ok ()) :
    (∀ role origins secrets vars, Environment.inCloud p role origins secrets = .ok vars →
      ∃ s layers, p.services.get? role = some s ∧
        List.Forall₂ (fun d layer => d.deployedVariables p secrets = .ok layer)
        (p.dependenciesOf role .inCloud) layers ∧ vars = Environment.assembled role s layers secrets origins) ∧
    (∀ role ∈ p.roles, ∀ d ∈ p.dependenciesOf role .inCloud, ∃ first,
      (p.declaredInCloud.find? fun x => x.name = d.name) = some first ∧ p.Provided first ∧ (p.Provided d ↔ d = first)) ∧
    ((∀ role ∈ p.roles, ∀ d ∈ p.dependenciesOf role .inCloud, p.Provided d) ↔ p.Unambiguous) := by
  refine ⟨fun role origins secrets vars h => ?_, fun role hrole d hd => ?_, fun hall => ?_, fun hsame => ?_⟩
  · obtain ⟨s, layers, hservice, hlayers, _, hvars⟩ := Environment.inCloud_eq_ok_iff.1 h
    exact ⟨s, layers, hservice, hlayers, hvars⟩
  · obtain ⟨first, _, hfind, _, hprovided, hiff⟩ :=
      exists_first haccepted ((mem_declaredInCloud_iff hrole).2 ⟨role, hrole, hd⟩)
    exact ⟨first, hfind, hprovided, hiff⟩
  · intro role hrole role' hrole' d hd d' hd' hname
    have hlisted := mem_cloudDependencies_iff.1 (hall role hrole d hd).listed
    have hlisted' := mem_cloudDependencies_iff.1 (hall role' hrole' d' hd').listed
    rw [hname, hlisted'] at hlisted
    exact (Option.some.inj hlisted).symm
  · intro role hrole d hd
    obtain ⟨first, hfirst, _, hname, hprovided, _⟩ :=
      exists_first haccepted ((mem_declaredInCloud_iff hrole).2 ⟨role, hrole, hd⟩)
    obtain ⟨role', hrole', hfirst⟩ := (mem_declaredInCloud_iff hrole).1 hfirst
    rw [hsame role hrole role' hrole' d hd first hfirst hname.symm]
    exact hprovided

/-! ## A shop with two databases of one name -/

/-- the stock of the pages, with all that a deploy asks for -/
def stockDatabase : Descriptor where
  name := "mysql"
  version := "8"
  settings := { database := some {
    allocatedStorage := some "10", instanceClass := some "micro", storageType := some "ssd"
    dbName := some "stock", username := some "shop", passwordSecret := some "db-password"
    consumerNames := ⟨some "DB", some "DB_USER", some "DB_PASSWORD"⟩ } }

/-- what the reports ask for, without settings -/
def reportsDatabase : Descriptor where
  name := "mysql"
  version := "5"

/-- a shop whose pages and reports each have a database for themselves -/
def shopWithReports : Project where
  dir := "."
  application := {
    name := "shop", version := "1"
    services := .ofList [("pages", { location := some "pages" }), ("reports", { location := some "reports" })]
    site := { url := "shop.example", accountId := "1", region := "eu", certificate := "cert" } }
  services := .ofList [
    ("pages", { inCloud := { cpu := some "1", memory := some "1", dependencies := [stockDatabase] } }),
    ("reports", { inCloud := { cpu := some "1", memory := some "1", dependencies := [reportsDatabase] } })]

/-- the database of the pages is provided, that of the reports is not -/
theorem shop_provides_one_database : shopWithReports.checkDeployable = .ok () ∧
    shopWithReports.Provided ⟨stockDatabase, .inCloud⟩ ∧
    ¬ shopWithReports.Provided ⟨reportsDatabase, .inCloud⟩ ∧ ¬ shopWithReports.Unambiguous := by
  have haccepted : shopWithReports.checkDeployable = .ok () := by decide +kernel
  obtain ⟨_, hscopes, hall⟩ := injected_is_provided_iff haccepted
  obtain ⟨first, hfind, hprovided, hiff⟩ :=
    hscopes "reports" (by decide +kernel) ⟨reportsDatabase, .inCloud⟩ (by decide +kernel)
  have hfirst : (shopWithReports.declaredInCloud.find? fun x => x.name = "mysql") = some ⟨stockDatabase, .inCloud⟩ := by
    decide +kernel
  obtain rfl : first = ⟨stockDatabase, .inCloud⟩ := Option.some.inj (hfind.symm.trans hfirst)
  have hdiffer : (⟨reportsDatabase, .inCloud⟩ : Dependency) ≠ ⟨stockDatabase, .inCloud⟩ := by decide +kernel
  have hnone : ¬ shopWithReports.Provided ⟨reportsDatabase, .inCloud⟩ := fun h => hdiffer (hiff.1 h)
  exact ⟨haccepted, hprovided, hnone, fun h => hnone (hall.2 h "reports" (by decide +kernel) _ (by decide +kernel))⟩

/-- the reports are told where to find a database that would have been refused, had it been checked -/
theorem shop_reports_have_no_database : ¬ ∀ (p : Project) (role : String) (origins : Endpoints) (secrets : Secrets)
    (vars : Variables) (d : Dependency), p.checkDeployable = .ok () → role ∈ p.roles →
      Environment.inCloud p role origins secrets = .ok vars → d ∈ p.dependenciesOf role .inCloud → p.Provided d := by
  intro h
  have haccepted : shopWithReports.checkDeployable = .ok () := by decide +kernel
  have hvars : Environment.inCloud shopWithReports "reports" (.ofProject shopWithReports .deploy) .empty =
      .ok (.ofList [("MYSQL", ".rds.local"), ("ROLE", "reports")]) := by decide +kernel
  have hprovided := h shopWithReports "reports" _ _ _ ⟨reportsDatabase, .inCloud⟩ haccepted
    (by decide +kernel) hvars (by decide +kernel)
  have hrefused : Dependency.check ⟨reportsDatabase, .inCloud⟩ =
      .error (.missing (.dependency "mysql" "5") "rds") := by decide +kernel
  have hchecked := hprovided.checked
  rw [hrefused] at hchecked
  cases hchecked

end Fleet.Project
