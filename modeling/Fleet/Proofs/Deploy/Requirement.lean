/-
Requirements: what a project has to meet to be deployed, and which violation is reported.

The checks of a deploy are spread over names, the site, services and dependencies. Each of them goes through a list of
requirements (`Judges`), and so do all of them one after the other.
- `Judges.accepts_iff`, `Judges.reports_iff`: what goes through a list accepts what meets all of it, and otherwise
  reports the first requirement that is violated.
- `judges_checkNames`, `judges_checkSite`, `Service.judges_check`, `Dependency.judges_check`: the lists of the checks.
- `aboutField_of_mem_requirements`: all of them are about names and fields, but for the configurations of the roles.
- `deployable_iff`: a project is accepted just if it is `Deployable`; of one that is not, the first violation is
  reported.
-/
import Fleet.Deploy.Context
import Fleet.Proofs.Project
import Fleet.Proofs.Traversal

namespace Fleet

open Naming

/-! ## Lists of requirements -/

/-- what is required, and what is reported where it is violated -/
structure Requirement where
  holds : Prop
  fault : Fault

/-- what is reported is a name or a field -/
def Requirement.AboutField (q : Requirement) : Prop := ∃ subject problem field, q.fault = .invalid subject problem field

variable {l l' : List Requirement} {q : Requirement} {r r' : Except Fault Unit} {f fault : Fault} {P : Prop}

/-- the first requirement that is violated is reported so -/
def FirstViolated (l : List Requirement) (f : Fault) : Prop :=
  FirstFails (fun q => q.holds) (fun q => ¬ q.holds ∧ q.fault = f) l

theorem FirstViolated.exists_mem (h : FirstViolated l f) : ∃ q ∈ l, ¬ q.holds ∧ q.fault = f := FirstFails.exists_mem h

/-- a check with this result has gone through the list up to the first requirement that is violated -/
inductive Judges : List Requirement → Except Fault Unit → Prop
  | nil : Judges [] (.ok ())
  | met {q : Requirement} {l : List Requirement} {r : Except Fault Unit} (hq : q.holds) (h : Judges l r) :
    Judges (q :: l) r
  | violated {q : Requirement} {l : List Requirement} (hq : ¬ q.holds) : Judges (q :: l) (.error q.fault)

namespace Judges

theorem accepts_iff (h : Judges l r) : r = .ok () ↔ ∀ q ∈ l, q.holds := by
  induction h with
  | nil => simp
  | met hq _ ih => rw [ih, List.forall_mem_cons, and_iff_right hq]
  | violated hq => simp [hq]

theorem reports_iff (h : Judges l r) : r = .error f ↔ FirstViolated l f := by
  induction h with
  | nil => exact iff_of_false nofun not_firstFails_nil
  | met hq _ ih => rw [ih, FirstViolated, FirstViolated, firstFails_cons_iff]; simp [hq]
  | violated hq => rw [FirstViolated, firstFails_cons_iff]; simp [hq]

/-- one more requirement, by a condition that says that it is violated -/
theorem guarded {c : Prop} [Decidable c] (hc : c ↔ ¬ P) (h : P → Judges l r) :
    Judges (⟨P, fault⟩ :: l) (if c then .error fault else r) := by
  by_cases hP : P
  · rw [if_neg (by rwa [hc, not_not])]
    exact .met hP (h hP)
  · rw [if_pos (hc.2 hP)]
    exact .violated hP

/-- where one list is met, the next one follows -/
theorem append_of_ok (h : Judges l (.ok ())) (h' : Judges l' r') : Judges (l ++ l') r' := by
  induction l with
  | nil => exact h'
  | cons q l ih =>
    cases h with
    | met hq h => exact .met hq (ih h)

theorem append_of_error (h : Judges l (.error f)) : Judges (l ++ l') (.error f) := by
  induction l with
  | nil => cases h
  | cons q l ih =>
    cases h with
    | met hq h => exact .met hq (ih h)
    | violated hq => exact .violated hq

theorem andThen (h : Judges l r) (h' : Judges l' r') : Judges (l ++ l') (r >>= fun _ => r') := by
  cases r with
  | error f => exact h.append_of_error
  | ok _ => exact h.append_of_ok h'

end Judges

/-! ## Fields -/

/-- the text has a character that is not blank -/
def Filled (text : String) : Prop := ∃ c ∈ text.toList, Text.isBlank c = false

/-- the field is set, and not to the empty text -/
def Given (field : Option String) : Prop := ∃ text, field = some text ∧ text ≠ ""

/-- the field is set, and not to blanks -/
def Stated (field : Option String) : Prop := ∃ text, field = some text ∧ Filled text

theorem isAllBlank_iff {text : String} : Text.isAllBlank text = true ↔ ¬ Filled text := by
  simp [Text.isAllBlank, Filled]

theorem isGiven_iff {field : Option String} : Service.isGiven field = true ↔ Given field := by
  cases field <;> simp [Service.isGiven, Given]

theorem stated_iff {field : Option String} : Stated field ↔ Filled (field.getD "") := by
  cases field <;> simp [Stated, Filled]

/-- each of these is to be filled in -/
def toBeFilled (report : String → Fault) (fields : List (String × String)) : List Requirement :=
  fields.map fun e => ⟨Filled e.2, report e.1⟩

variable {fields : List (String × String)} {field : String} {report : String → Fault}

theorem judges_of_firstBlank (h : firstBlank fields = some field) :
    Judges (toBeFilled report fields) (.error (report field)) := by
  induction fields with
  | nil => cases h
  | cons e fields ih =>
    rw [firstBlank] at h
    split at h
    · rename_i hblank
      cases h
      exact .violated (isAllBlank_iff.1 hblank)
    · rename_i hfilled
      rw [isAllBlank_iff, not_not] at hfilled
      exact .met hfilled (ih h)

theorem judges_of_noBlank (h : firstBlank fields = none) : Judges (toBeFilled report fields) (.ok ()) := by
  induction fields with
  | nil => exact .nil
  | cons e fields ih =>
    rw [firstBlank] at h
    split at h
    · cases h
    · rename_i hfilled
      rw [isAllBlank_iff, not_not] at hfilled
      exact .met hfilled (ih h)

/-! ## Names, origins, and the site -/

/-- for each role in turn, its grammar, and then that it has one origin -/
def roleRequirements (role : String) (source : Source) : List Requirement :=
  let report (problem : Problem) : Fault := .invalid .application problem s!"services.{role}"
  [⟨Hyphenated false role.toList, report .badRole⟩,
    ⟨¬ (source.location.isSome ∧ source.image.isSome), report .twoOrigins⟩,
    ⟨∃ o, source.ComesFrom o, report .noOrigin⟩]

def nameRequirements (a : Application) : List Requirement :=
  ⟨Hyphenated true a.name.toList, .invalid .application (.badApplicationName a.name) "name"⟩ ::
    a.services.entries.flatMap fun e => roleRequirements e.1 e.2

def siteRequirements (site : CloudSite) : List Requirement :=
  toBeFilled (.invalid .application .missing) [("remote.url", site.url), ("remote.account-id", site.accountId),
    ("remote.region", site.region), ("remote.ssl-certificate-arn", site.certificate)]

/-- a source without an origin names two, or none at all that is not empty -/
theorem Source.fault_of_origin {s : Source} {role : String} (h : s.origin role = .error f) :
    (s.location.isSome ∧ s.image.isSome) ∧ f = .invalid .application .twoOrigins s!"services.{role}" ∨
      ¬ (s.location.isSome ∧ s.image.isSome) ∧ f = .invalid .application .noOrigin s!"services.{role}" := by
  obtain ⟨location, image, _⟩ := s
  cases location <;> cases image <;> grind [origin, origin.missing]

theorem judges_checkRoles (l : List (String × Source)) :
    Judges (l.flatMap fun e => roleRequirements e.1 e.2) (Application.checkRoles l) := by
  induction l with
  | nil => exact .nil
  | cons e l ih =>
    obtain ⟨role, source⟩ := e
    rw [List.flatMap_cons, Application.checkRoles]
    refine .guarded (by rw [Bool.not_eq_true', ← isHyphenated_iff, Bool.not_eq_true]) fun _ => ?_
    cases horigin : source.origin role with
    | ok o =>
      have hcomes := Source.origin_eq_ok_iff.1 horigin
      exact .met (by cases o <;> simp [hcomes.2.2]) (.met ⟨o, hcomes⟩ ih)
    | error f =>
      have hnone : ¬ ∃ o, source.ComesFrom o := by
        rintro ⟨o, hcomes⟩
        cases horigin.symm.trans (Source.origin_eq_ok_iff.2 hcomes)
      obtain ⟨hboth, rfl⟩ | ⟨hboth, rfl⟩ := Source.fault_of_origin horigin
      · exact .violated (not_not.2 hboth)
      · exact .met hboth (.violated hnone)

theorem aboutField_names (a : Application) : ∀ q ∈ nameRequirements a, q.AboutField := by
  rw [nameRequirements, List.forall_mem_cons, List.forall_mem_flatMap]
  refine ⟨⟨_, _, _, rfl⟩, fun e _ => ?_⟩
  simp [roleRequirements, Requirement.AboutField]

theorem judges_checkNames (a : Application) : Judges (nameRequirements a) a.checkNames := by
  refine .guarded ?_ fun _ => judges_checkRoles _
  rw [Bool.not_eq_true', ← isHyphenated_iff, Bool.not_eq_true]

theorem aboutField_site (site : CloudSite) : ∀ q ∈ siteRequirements site, q.AboutField := by
  simp [siteRequirements, toBeFilled, Requirement.AboutField]

theorem judges_checkSite (site : CloudSite) : Judges (siteRequirements site) site.check := by
  rw [CloudSite.check]
  split
  · exact judges_of_firstBlank ‹_›
  · exact judges_of_noBlank ‹_›

/-! ## Services -/

namespace Service

def requirements (role : String) (s : Service) : List Requirement := [
  ⟨Given s.inCloud.cpu, .missing (.service role) "remote.cpu"⟩,
  ⟨Given s.inCloud.memory, .missing (.service role) "remote.memory"⟩,
  ⟨s.reach = .everyone → s.productionPort ≠ none, .missing (.service role) "production.port"⟩,
  ⟨s.reach = .everyone → Given s.inCloud.url, .missing (.service role) "remote.url"⟩]

/-- a service that can be deployed: one that everyone can reach has to listen, and needs an address -/
structure Deployable (s : Service) : Prop where
  cpu : Given s.inCloud.cpu
  memory : Given s.inCloud.memory
  port : s.reach = .everyone → s.productionPort ≠ none
  url : s.reach = .everyone → Given s.inCloud.url

theorem deployable_iff_requirements (role : String) (s : Service) :
    s.Deployable ↔ ∀ q ∈ s.requirements role, q.holds := by
  simp only [requirements, List.forall_mem_cons, List.not_mem_nil, false_implies, implies_true, and_true]
  exact ⟨fun h => ⟨h.cpu, h.memory, h.port, h.url⟩, fun ⟨hcpu, hmemory, hport, hurl⟩ => ⟨hcpu, hmemory, hport, hurl⟩⟩

theorem aboutField (role : String) (s : Service) : ∀ q ∈ s.requirements role, q.AboutField := by
  simp [requirements, Fault.missing, Requirement.AboutField]

theorem judges_check (role : String) (s : Service) : Judges (s.requirements role) (s.checkDeployable role) := by
  have hgiven (field : Option String) : (!isGiven field) = true ↔ ¬ Given field := by
    rw [Bool.not_eq_true', ← isGiven_iff, Bool.not_eq_true]
  simp only [checkDeployable]
  refine .guarded (hgiven _) fun _ => .guarded (hgiven _) fun _ => ?_
  cases hreach : s.reach with
  | worker => exact .met (by simp) (.met (by simp) .nil)
  | everyone =>
    refine .guarded (by simp) fun _ => .guarded ?_ fun _ => .nil
    simpa [hreach] using hgiven _

end Service

/-! ## Dependencies -/

/-- settings of a database that say all that is needed, and a name for it that is accepted -/
structure DatabaseSettings.Complete (s : DatabaseSettings) : Prop where
  allocatedStorage : Stated s.allocatedStorage
  instanceClass : Stated s.instanceClass
  storageType : Stated s.storageType
  dbName : Stated s.dbName
  username : Stated s.username
  passwordSecret : Stated s.passwordSecret
  nameVariable : Stated s.consumerNames.dbName
  usernameVariable : Stated s.consumerNames.username
  passwordVariable : Stated s.consumerNames.password
  grammar : ∀ name ∈ s.dbName, Hyphenated false name.toList

namespace Dependency

/-- the fields that a managed database needs, in the order of their checks -/
def databaseFields (s : DatabaseSettings) : List (String × Option String) := [
  ("rds.allocated-storage", s.allocatedStorage),
  ("rds.instance-class", s.instanceClass),
  ("rds.storage-type", s.storageType),
  ("rds.db-name", s.dbName),
  ("rds.username", s.username),
  ("rds.password-secret-name", s.passwordSecret),
  ("rds.service-env-var-names.db-name", s.consumerNames.dbName),
  ("rds.service-env-var-names.username", s.consumerNames.username),
  ("rds.service-env-var-names.password", s.consumerNames.password)]

/-- all fields, and then the name -/
def settingsRequirements (subject : Subject) (s : DatabaseSettings) : List Requirement :=
  (databaseFields s).map (fun e => ⟨Stated e.2, .missing subject e.1⟩) ++
    [⟨∀ name ∈ s.dbName, Hyphenated false name.toList, .invalid subject .badDatabaseName "rds.db-name"⟩]

def databaseRequirements (subject : Subject) (settings : Option DatabaseSettings) : List Requirement :=
  ⟨settings ≠ none, .missing subject "rds"⟩ :: settings.toList.flatMap (settingsRequirements subject)

def requirements (x : Dependency) : List Requirement :=
  let subject : Subject := .dependency x.name x.version
  ⟨Filled x.name, .missing subject "name"⟩ :: ⟨Filled x.version, .missing subject "version"⟩ ::
    if x.kind = .managedDatabase then databaseRequirements subject x.descriptor.settings.database else []

/-- a dependency that can be deployed: a managed database needs its settings -/
structure Deployable (x : Dependency) : Prop where
  name : Filled x.name
  version : Filled x.version
  database : x.kind = .managedDatabase → ∃ s, x.descriptor.settings.database = some s ∧ s.Complete

theorem complete_iff_requirements (subject : Subject) (s : DatabaseSettings) :
    s.Complete ↔ ∀ q ∈ settingsRequirements subject s, q.holds := by
  simp only [settingsRequirements, databaseFields, List.map_cons, List.map_nil, List.cons_append, List.nil_append,
    List.forall_mem_cons, List.not_mem_nil, false_implies, implies_true, and_true]
  constructor
  · rintro ⟨h1, h2, h3, h4, h5, h6, h7, h8, h9, h10⟩
    exact ⟨h1, h2, h3, h4, h5, h6, h7, h8, h9, h10⟩
  · rintro ⟨h1, h2, h3, h4, h5, h6, h7, h8, h9, h10⟩
    exact ⟨h1, h2, h3, h4, h5, h6, h7, h8, h9, h10⟩

theorem deployable_iff_requirements {x : Dependency} : x.Deployable ↔ ∀ q ∈ x.requirements, q.holds := by
  have hdatabase : (x.kind = .managedDatabase → ∃ s, x.descriptor.settings.database = some s ∧ s.Complete) ↔
      ∀ q ∈ if x.kind = .managedDatabase then
        databaseRequirements (.dependency x.name x.version) x.descriptor.settings.database else [], q.holds := by
    by_cases hkind : x.kind = .managedDatabase
    · rw [if_pos hkind, databaseRequirements, List.forall_mem_cons]
      cases x.descriptor.settings.database with
      | none => simp [hkind]
      | some s => simp [hkind, complete_iff_requirements (.dependency x.name x.version) s]
    · simp [hkind]
  simp only [requirements, List.forall_mem_cons, ← hdatabase]
  exact ⟨fun h => ⟨h.name, h.version, h.database⟩, fun ⟨hname, hversion, hsettings⟩ => ⟨hname, hversion, hsettings⟩⟩

theorem aboutField (x : Dependency) : ∀ q ∈ x.requirements, q.AboutField := by
  have hdatabase (subject : Subject) (settings : Option DatabaseSettings) :
      ∀ q ∈ databaseRequirements subject settings, q.AboutField := by
    cases settings <;>
      simp [databaseRequirements, settingsRequirements, databaseFields, Fault.missing, Requirement.AboutField]
  simp only [requirements, List.forall_mem_cons]
  refine ⟨⟨_, _, _, rfl⟩, ⟨_, _, _, rfl⟩, ?_⟩
  split
  · exact hdatabase _ _
  · simp

theorem judges_checkDatabase (subject : Subject) (settings : Option DatabaseSettings) :
    Judges (databaseRequirements subject settings) (checkDatabase subject settings) := by
  cases settings with
  | none => exact .violated (by simp)
  | some s =>
    have hfields : (databaseFields s).map (fun e => (⟨Stated e.2, .missing subject e.1⟩ : Requirement)) =
        toBeFilled (.missing subject) (requiredSettings s) := by
      simp [databaseFields, toBeFilled, requiredSettings, stated_iff]
    rw [databaseRequirements, Option.toList_some, List.flatMap_singleton, settingsRequirements, hfields, checkDatabase]
    refine .met (by simp) ?_
    split
    · exact (judges_of_firstBlank ‹_›).append_of_error
    · refine (judges_of_noBlank ‹_›).append_of_ok ?_
      have hgrammar : s.dbName.all (isHyphenated false) = true ↔ ∀ name ∈ s.dbName, Hyphenated false name.toList := by
        cases s.dbName <;> simp [isHyphenated_iff]
      split
      · exact .met (hgrammar.1 ‹_›) .nil
      · exact .violated (mt hgrammar.2 ‹_›)

theorem judges_check (x : Dependency) : Judges x.requirements x.check := by
  simp only [requirements, check]
  refine .guarded isAllBlank_iff fun _ => .guarded isAllBlank_iff fun _ => ?_
  cases x.kind with
  | managedDatabase => exact judges_checkDatabase _ _
  | messageBus repository => exact .nil
  | generic => exact .nil

theorem check_eq_ok_iff {x : Dependency} : x.check = .ok () ↔ x.Deployable :=
  x.judges_check.accepts_iff.trans deployable_iff_requirements.symm

end Dependency

/-! ## Projects -/

namespace Project

variable {p : Project}

/-- a role needs a configuration, and that one has its own requirements -/
def serviceRequirements (p : Project) (role : String) : List Requirement :=
  ⟨p.services.get? role ≠ none, .unresolved role .noSuchService⟩ ::
    (p.services.get? role).toList.flatMap (Service.requirements role)

/-- all requirements, in the order of their checks -/
def requirements (p : Project) : List Requirement :=
  nameRequirements p.application ++ siteRequirements p.application.site ++ p.roles.flatMap p.serviceRequirements ++
  p.cloudDependencies.flatMap Dependency.requirements

/-- a project that can be deployed -/
structure Deployable (p : Project) : Prop where
  name : Hyphenated true p.application.name.toList
  roles : ∀ role source, p.application.services.get? role = some source →
    Hyphenated false role.toList ∧ ∃ o, source.ComesFrom o
  url : Filled p.application.site.url
  accountId : Filled p.application.site.accountId
  region : Filled p.application.site.region
  certificate : Filled p.application.site.certificate
  services : ∀ role ∈ p.roles, ∃ s, p.services.get? role = some s ∧ s.Deployable
  dependencies : ∀ x ∈ p.cloudDependencies, x.Deployable

theorem roles_iff_requirements {a : Application} :
    (∀ role source, a.services.get? role = some source → Hyphenated false role.toList ∧ ∃ o, source.ComesFrom o) ↔
      ∀ e ∈ a.services.entries, ∀ q ∈ roleRequirements e.1 e.2, q.holds := by
  have hentry (source : Source) (h : ∃ o, source.ComesFrom o) : ¬ (source.location.isSome ∧ source.image.isSome) := by
    obtain ⟨o, hcomes⟩ := h
    cases o <;> simp [hcomes.2.2]
  simp only [roleRequirements, List.forall_mem_cons, List.not_mem_nil, false_implies, implies_true, and_true]
  constructor
  · intro h e he
    obtain ⟨hrole, horigin⟩ := h e.1 e.2 (SortedMap.mem_entries_iff.1 he)
    exact ⟨hrole, hentry _ horigin, horigin⟩
  · intro h role source hsource
    obtain ⟨hrole, -, horigin⟩ := h (role, source) (SortedMap.mem_entries_iff.2 hsource)
    exact ⟨hrole, horigin⟩

theorem service_iff_requirements (p : Project) (role : String) :
    (∃ s, p.services.get? role = some s ∧ s.Deployable) ↔ ∀ q ∈ p.serviceRequirements role, q.holds := by
  rw [serviceRequirements, List.forall_mem_cons]
  cases p.services.get? role with
  | none => simp
  | some s => simp [s.deployable_iff_requirements role]

theorem deployable_iff_requirements : p.Deployable ↔ ∀ q ∈ p.requirements, q.holds := by
  simp only [requirements, nameRequirements, siteRequirements, toBeFilled, List.forall_mem_append, List.forall_mem_cons,
    List.map_cons, List.map_nil, List.not_mem_nil, false_implies, implies_true, and_true, List.forall_mem_flatMap,
    ← roles_iff_requirements, ← service_iff_requirements, ← Dependency.deployable_iff_requirements]
  constructor
  · intro h
    exact ⟨⟨⟨⟨h.name, h.roles⟩, h.url, h.accountId, h.region, h.certificate⟩, h.services⟩, h.dependencies⟩
  · rintro ⟨⟨⟨⟨hname, hroles⟩, hurl, haccount, hregion, hcertificate⟩, hservices⟩, hdependencies⟩
    exact ⟨hname, hroles, hurl, haccount, hregion, hcertificate, hservices, hdependencies⟩

theorem judges_checkServices (p : Project) (roles : List String) :
    Judges (roles.flatMap p.serviceRequirements) (p.checkServices roles) := by
  induction roles with
  | nil => exact .nil
  | cons role roles ih =>
    rw [List.flatMap_cons, serviceRequirements, List.cons_append]
    simp only [checkServices, service]
    cases p.services.get? role with
    | none => exact .violated (by simp)
    | some s =>
      have hjudges := s.judges_check role
      refine .met (by simp) ?_
      rw [Option.toList_some, List.flatMap_singleton]
      simp only
      split <;> rename_i hcheck <;> rw [hcheck] at hjudges
      · exact hjudges.append_of_error
      · exact hjudges.append_of_ok ih

theorem judges_checkDependencies (l : List Dependency) :
    Judges (l.flatMap Dependency.requirements) (checkDependencies l) := by
  induction l with
  | nil => exact .nil
  | cons x l ih =>
    have hjudges := x.judges_check
    rw [List.flatMap_cons, checkDependencies]
    split <;> rename_i hcheck <;> rw [hcheck] at hjudges
    · exact hjudges.append_of_error
    · exact hjudges.append_of_ok ih

theorem judges_checkDeployable (p : Project) : Judges p.requirements p.checkDeployable := by
  rw [requirements, List.append_assoc, List.append_assoc]
  exact (judges_checkNames _).andThen ((judges_checkSite _).andThen
    ((judges_checkServices _ _).andThen (judges_checkDependencies _)))

/-- a name or a field is at fault, or a role has no configuration -/
theorem aboutField_of_mem_requirements (hq : q ∈ p.requirements) :
    q.AboutField ∨ ∃ role ∈ p.roles, q = ⟨p.services.get? role ≠ none, .unresolved role .noSuchService⟩ := by
  simp only [requirements, List.mem_append, List.mem_flatMap] at hq
  obtain ((hnames | hsite) | ⟨role, hrole, hservice⟩) | ⟨x, _, hdependency⟩ := hq
  · exact .inl (aboutField_names _ q hnames)
  · exact .inl (aboutField_site _ q hsite)
  · rcases List.mem_cons.1 hservice with rfl | hservice
    · exact .inr ⟨role, hrole, rfl⟩
    · obtain ⟨s, _, hq⟩ := List.mem_flatMap.1 hservice
      exact .inl (s.aboutField role q hq)
  · exact .inl (x.aboutField q hdependency)

theorem checkDeployable_eq_ok_iff : p.checkDeployable = .ok () ↔ p.Deployable :=
  p.judges_checkDeployable.accepts_iff.trans deployable_iff_requirements.symm

/-- **A project is accepted just if it is deployable, and otherwise the first violation is reported.** Where roles have
their configurations, as in a project that was loaded, it is always about a name or a field. -/
theorem deployable_iff (p : Project) : (p.checkDeployable = .ok () ↔ p.Deployable) ∧
    (∀ f, p.checkDeployable = .error f ↔ FirstViolated p.requirements f) ∧
    ((∀ role ∈ p.roles, ∃ s, p.services.get? role = some s) → ∀ f, p.checkDeployable = .error f →
      ∃ subject problem field, f = .invalid subject problem field) := by
  have hjudges := p.judges_checkDeployable
  refine ⟨checkDeployable_eq_ok_iff, fun _ => hjudges.reports_iff, ?_⟩
  intro hconfigured f hfault
  obtain ⟨q, hq, hviolated, rfl⟩ := (hjudges.reports_iff.1 hfault).exists_mem
  obtain hfield | ⟨role, hrole, rfl⟩ := aboutField_of_mem_requirements hq
  · exact hfield
  · obtain ⟨s, hs⟩ := hconfigured role hrole
    exact absurd (by simp [hs]) hviolated

/-- a shop with a service that everyone can reach, and a managed database -/
def openShop : Project where
  dir := "."
  application := {
    name := "shop"
    services := .singleton "web" { location := some "web" }
    site := {
      dependencies := [{
        name := "mysql", version := "8"
        settings := { database := some {
          allocatedStorage := some "10", instanceClass := some "micro", storageType := some "ssd"
          dbName := some "stock", username := some "shop", passwordSecret := some "db-password"
          consumerNames := ⟨some "DB", some "DB_USER", some "DB_PASSWORD"⟩ } } }]
      url := "shop.example", accountId := "1", region := "eu", certificate := "cert" } }
  services := .singleton "web" {
    reach := .everyone, productionPort := some ⟨443, by decide⟩
    inCloud := { url := some "shop.example", cpu := some "1", memory := some "256" } }

/-- the shop when only blanks stand for its region, and its service lacks its memory and its port -/
def closedShop : Project :=
  { openShop with
    application := { openShop.application with site := { openShop.application.site with region := " " } }
    services := .singleton "web" { reach := .everyone, inCloud := { cpu := some "1", memory := some "" } } }

/-- one shop is accepted; of the other one its region is reported, which is looked at before its service -/
theorem shop_opens : openShop.Deployable ∧
    FirstViolated closedShop.requirements (.missing .application "remote.region") ∧
    ∃ subject problem field, Fault.missing .application "remote.region" = .invalid subject problem field := by
  obtain ⟨-, hreported, hfield⟩ := deployable_iff closedShop
  have hfault : closedShop.checkDeployable = .error (.missing .application "remote.region") := by decide +kernel
  have hconfigured : ∀ role ∈ closedShop.roles, ∃ s, closedShop.services.get? role = some s := by
    simp only [← Option.isSome_iff_exists]
    decide +kernel
  exact ⟨(deployable_iff openShop).1.1 (by decide +kernel), (hreported _).1 hfault, hfield hconfigured _ hfault⟩

end Project

end Fleet
