/-
Flags: which variables of the infrastructure are declared, and which are given a value.

The two are worked out from different things: what is declared, from the project and the names of the images
(`mem_declared_iff`); what is given, from the store as well (`mem_given_iff`). The infrastructure tool refuses a value
for a variable that is not declared, and a declared variable without a value. A flag is cut at its first equals sign,
and for one variable the last flag counts (`given`).
- `flags_are_declared_iff`: every flag has a declaration just if every secret in the store is asked for, and no name
  that has an equals sign in it gets in the way.
- `former_secret_is_not_declared`: a shop whose store keeps a secret that nobody asks for any more.
- `variables_are_given_iff`: every declared variable is given a value just if no declared name has an equals sign in it,
  and the passwords that are not asked for on behalf of a service are in the store. A secret that is missing is noticed
  nowhere but in the environment of a service.
- `unmanned_password_is_not_given`: an accepted project without services that declares the password of its database, and
  whose flags are compiled without it.
-/
import Mathlib.Data.List.TakeWhile
import Fleet.Proofs.Deploy.Provision

namespace Fleet

/-! ## Declarations -/

namespace Infrastructure

variable {p : Project} {account : Account} {images : Images} {i : Infrastructure} {name : String}

/-- the variables whose values a deploy works out: the profile, environments and images -/
inductive Computed (p : Project) (images : Images) : String → Prop
  | profile : Computed p images profileVariable
  | service {role : String} (h : role ∈ p.roles) : Computed p images (envVariable role)
  | dependency {d : Dependency} (h : d ∈ p.cloudDependencies) : Computed p images (envVariable d.name)
  | image {component : String} (h : component ∈ images.keys) : Computed p images (imageVariable component)

/-- the secrets that are asked for: by services, and as passwords of dependencies -/
inductive Wanted (p : Project) : String → Prop
  | service {role key : String} {s : Service} (hrole : role ∈ p.roles) (hs : p.services.get? role = some s)
      (hkey : key ∈ s.inCloud.secrets) : Wanted p key
  | password {d : Dependency} {key : String} (hd : d ∈ p.cloudDependencies) (hkey : d.declaredPassword? = some key) :
      Wanted p key

/-- the variables of an infrastructure -/
def Declared (p : Project) (images : Images) (name : String) : Prop := Computed p images name ∨ Wanted p name

theorem servicesOf_eq_ok_iff {roles : List String} {l : List (String × Service)} : servicesOf p roles = .ok l ↔
    List.Forall₂ (fun role e => p.services.get? role = some e.2 ∧ e.1 = role) roles l := by
  have hrole (role : String) (e : String × Service) : (p.service role).map (fun s => (role, s)) = .ok e ↔
      p.services.get? role = some e.2 ∧ e.1 = role := by
    obtain ⟨name, s⟩ := e
    rw [Project.service, map_eq_ok_iff]
    cases p.services.get? role <;> simp [eq_comm, and_comm]
  rw [servicesOf, mapM_eq_ok_iff]
  simp only [hrole]

/-- **What an infrastructure declares.** -/
theorem mem_declared_iff (h : ofProject p account images = .ok i) :
    name ∈ i.declared.keys ↔ Declared p images name := by
  rw [ofProject] at h
  split at h
  · cases h
  rename_i services hservices
  cases h
  have hconfigured := servicesOf_eq_ok_iff.1 hservices
  simp only [SortedMap.mem_keys_ofList_iff, List.map_map, Function.comp_def, List.map_id', List.mem_append,
    List.mem_cons, List.mem_flatMap, List.mem_map, serviceVariables, dependencyVariables, Option.mem_toList]
  constructor
  · rintro (((rfl | ⟨e, he, hname⟩) | ⟨d, hd, rfl | hkey⟩) | ⟨component, hcomponent, rfl⟩)
    · exact .inl .profile
    · obtain ⟨role, hrole, hs, rfl⟩ := exists_related hconfigured.flip he
      rcases hname with rfl | hkey
      · exact .inl (.service hrole)
      · exact .inr (.service hrole hs hkey)
    · exact .inl (.dependency hd)
    · exact .inr (.password hd hkey)
    · exact .inl (.image hcomponent)
  · rintro ((_ | hrole | hd | hcomponent) | (⟨hrole, hs, hkey⟩ | ⟨hd, hkey⟩))
    · exact .inl (.inl (.inl rfl))
    · obtain ⟨e, he, _, rfl⟩ := exists_related hconfigured hrole
      exact .inl (.inl (.inr ⟨e, he, .inl rfl⟩))
    · exact .inl (.inr ⟨_, hd, .inl rfl⟩)
    · exact .inr ⟨_, hcomponent, rfl⟩
    · obtain ⟨e, he, hs', _⟩ := exists_related hconfigured hrole
      cases hs.symm.trans hs'
      exact .inl (.inl (.inr ⟨e, he, .inr hkey⟩))
    · exact .inl (.inr ⟨_, hd, .inr hkey⟩)

end Infrastructure

namespace Deploy

/-! ## Flags -/

variable {d : Deploy} {name key : String} {secrets : Secrets} {images : Images} {flags : List String}
  {l : List (String × String)}

/-- what stands before the first equals sign -/
def flagName (text : String) : String := .ofList (text.toList.takeWhile fun c => c ≠ '=')

/-- what stands behind it -/
def flagValue (text : String) : String := .ofList ((text.toList.dropWhile fun c => c ≠ '=').drop 1)

/-- names and values, as the infrastructure tool reads them -/
def readFlags : List String → List (String × String)
  | "-var" :: text :: rest => (flagName text, flagValue text) :: readFlags rest
  | _ => []

/-- the values that variables end up with: of flags for one variable, the last one counts -/
def given (flags : List String) : SortedMap String := .ofList (readFlags flags)

theorem toList_assignment (name value : String) : s!"{name}={value}".toList = name.toList ++ '=' :: value.toList := by
  simp [toString]

theorem flagName_assignment (name value : String) : flagName s!"{name}={value}" = flagName name := by
  have htake (cs rest : List Char) :
      (cs ++ '=' :: rest).takeWhile (fun c => c ≠ '=') = cs.takeWhile fun c => c ≠ '=' := by
    induction cs with
    | nil => simp
    | cons c cs ih => simp only [List.cons_append, List.takeWhile_cons, ih]
  rw [flagName, toList_assignment, htake, flagName]

theorem flagName_eq_self (h : '=' ∉ name.toList) : flagName name = name := by
  rw [flagName, List.takeWhile_eq_self_iff.2 (fun c hc => decide_eq_true (ne_of_mem_of_not_mem hc h)),
    String.ofList_toList]

theorem equals_not_mem_flagName (text : String) : '=' ∉ (flagName text).toList := by
  rw [flagName, String.toList_ofList]
  intro h
  simpa using List.mem_takeWhile_imp h

/-- a name and its value, as the flag for them is read -/
def asRead (e : String × String) : String × String := (flagName e.1, flagValue s!"{e.1}={e.2}")

theorem readFlags_flags (l : List (String × String)) : readFlags (l.flatMap fun e => flag e.1 e.2) = l.map asRead := by
  induction l with
  | nil => rfl
  | cons e l ih =>
    have hcons : readFlags ((e :: l).flatMap fun e => flag e.1 e.2) =
        (flagName s!"{e.1}={e.2}", flagValue s!"{e.1}={e.2}") :: readFlags (l.flatMap fun e => flag e.1 e.2) := rfl
    rw [hcons, ih, flagName_assignment]
    rfl

/-! ## Assignments -/

open Infrastructure

variable {services : List (String × String)} {p : Project} {roles : List String} {role : String}

/-- each role's variable gets the text of its environment -/
theorem serviceEnvironments_eq_ok_iff : serviceEnvironments p secrets roles = .ok services ↔
    List.Forall₂ (fun role e => ∃ vars, Environment.inCloud p role (.ofProject p .deploy) secrets = .ok vars ∧
      e = (envVariable role, Environment.encode vars)) roles services := by
  have hsame (vars : Variables) (role : String) (e : String × String) :
      (envVariable role, Environment.encode vars) = e ↔ e = (envVariable role, Environment.encode vars) := eq_comm
  rw [serviceEnvironments, mapM_eq_ok_iff]
  simp only [map_eq_ok_iff, hsame]

theorem names_of_serviceEnvironments (h : serviceEnvironments p secrets roles = .ok services) :
    services.map Prod.fst = roles.map envVariable := by
  refine (map_eq_map_of_related (serviceEnvironments_eq_ok_iff.1 h) ?_).symm
  rintro role _ ⟨vars, _, rfl⟩
  rfl

/-- each dependency's variable gets the text of what its infrastructure is told -/
def dependencyEnvironments (p : Project) : List (String × String) :=
  p.cloudDependencies.map fun x => (envVariable x.name, Environment.encode (x.moduleVariables p))

/-- all names with their values, in the order of the flags -/
def assigned (d : Deploy) (secrets : Secrets) (images : Images) (services : List (String × String)) :
    List (String × String) :=
  secrets.entries ++ images.entries.map (fun e => (imageVariable e.1, e.2)) ++ services ++
    dependencyEnvironments d.project ++ [(profileVariable, d.account.profile)]

theorem varFlags_eq_ok_iff : d.varFlags = .ok flags ↔ ∃ secrets images services, d.secrets = some secrets ∧
    d.images = some images ∧ serviceEnvironments d.project secrets d.project.roles = .ok services ∧
    flags = (assigned d secrets images services).flatMap fun e => flag e.1 e.2 := by
  simp only [varFlags, assignments, secretsOr, imagesOr]
  cases d.secrets with
  | none => simp [Except.map]
  | some secrets =>
    cases d.images with
    | none => simp [Except.map]
    | some images => simp [map_eq_ok_iff, assigned, dependencyEnvironments, eq_comm (a := flags)]

theorem mem_names_assigned (h : serviceEnvironments d.project secrets d.project.roles = .ok services) :
    name ∈ (assigned d secrets images services).map Prod.fst ↔
      name ∈ secrets.keys ∨ Computed d.project images name := by
  simp only [assigned, dependencyEnvironments, List.map_append, List.mem_append, names_of_serviceEnvironments h,
    List.map_map, List.mem_map, List.mem_singleton, List.map_cons, List.map_nil, Function.comp_apply]
  constructor
  · rintro ((((hstored | ⟨e, he, rfl⟩) | ⟨role, hrole, rfl⟩) | ⟨x, hx, rfl⟩) | rfl)
    · exact .inl (List.mem_map.2 hstored)
    · exact .inr (.image (List.mem_map_of_mem he))
    · exact .inr (.service hrole)
    · exact .inr (.dependency hx)
    · exact .inr .profile
  · rintro (hstored | (_ | hrole | hx | hcomponent))
    · exact .inl (.inl (.inl (.inl (List.mem_map.1 hstored))))
    · exact .inr rfl
    · exact .inl (.inl (.inr ⟨_, hrole, rfl⟩))
    · exact .inl (.inr ⟨_, hx, rfl⟩)
    · obtain ⟨e, he, rfl⟩ := List.mem_map.1 hcomponent
      exact .inl (.inl (.inl (.inr ⟨e, he, rfl⟩)))

/-- **What the flags give a value to**: secrets in the store, and what is worked out, each up to its first equals
sign. -/
theorem mem_given_iff (hsecrets : d.secrets = some secrets) (himages : d.images = some images)
    (hflags : d.varFlags = .ok flags) : name ∈ (given flags).keys ↔
      ∃ passed, (passed ∈ secrets.keys ∨ Computed d.project images passed) ∧ flagName passed = name := by
  obtain ⟨_, _, services, hsecrets', himages', hservices, rfl⟩ := varFlags_eq_ok_iff.1 hflags
  cases hsecrets.symm.trans hsecrets'
  cases himages.symm.trans himages'
  simp only [given, SortedMap.mem_keys_ofList_iff, readFlags_flags, ← mem_names_assigned hservices, List.mem_map]
  constructor
  · rintro ⟨_, ⟨e, he, rfl⟩, rfl⟩
    exact ⟨e.1, ⟨e, he, rfl⟩, rfl⟩
  · rintro ⟨_, ⟨e, he, rfl⟩, rfl⟩
    exact ⟨_, ⟨e, he, rfl⟩, rfl⟩

/-! ## Flags without a declaration -/

variable {account : Account} {i : Infrastructure}

/-- **Every flag has a declaration just if every secret in the store is asked for**, by a service or as the password of
a dependency, or is called like what is worked out anyway. What is worked out is declared under its full name, so a name
with an equals sign in it needs a declaration of its beginning as well. -/
theorem flags_are_declared_iff (hsecrets : d.secrets = some secrets) (himages : d.images = some images)
    (hflags : d.varFlags = .ok flags) (hi : ofProject d.project account images = .ok i) :
    (∀ name ∈ (given flags).keys, name ∈ i.declared.keys) ↔
      (∀ key ∈ secrets.keys, Declared d.project images (flagName key)) ∧
      ∀ name, Computed d.project images name → '=' ∈ name.toList → Declared d.project images (flagName name) := by
  simp only [mem_given_iff hsecrets himages hflags, mem_declared_iff hi]
  constructor
  · intro h
    exact ⟨fun key hkey => h _ ⟨key, .inl hkey, rfl⟩, fun name hname _ => h _ ⟨name, .inr hname, rfl⟩⟩
  · rintro ⟨hstored, hcut⟩ _ ⟨passed, hkey | hcomputed, rfl⟩
    · exact hstored passed hkey
    · by_cases hequals : '=' ∈ passed.toList
      · exact hcut passed hcomputed hequals
      · rw [flagName_eq_self hequals]
        exact .inl hcomputed

/-- what was published for the shop with its stock -/
def stockedImages : Images := .ofList [("redis", "registry/shop-redis:7"), ("web", "registry/shop-web:1")]

/-- the shop with its stock, with these secrets, before it is applied -/
def equippedShop (secrets : Secrets) : Deploy :=
  { stockedShop with secrets := some secrets, images := some stockedImages }

theorem stored_stockedSecrets : stockedShop.project.Stored stockedSecrets := ⟨by decide +kernel, by decide +kernel⟩

/-- with the secrets of the shop, flags and infrastructure are compiled -/
theorem exists_equipped (hstored : stockedShop.project.Stored secrets) : ∃ flags i,
    (equippedShop secrets).varFlags = .ok flags ∧
    ofProject stockedShop.project stockedShop.account stockedImages = .ok i := by
  have hready : stockedShop.project.Ready := Project.ready_of_checkDeployable (by decide +kernel)
  obtain ⟨flags, hflags⟩ := exists_varFlags (d := equippedShop secrets) hready hstored rfl rfl
  obtain ⟨i, hi⟩ := Project.exists_ofProject hready stockedShop.account stockedImages
  exact ⟨flags, i, hflags, hi⟩

/-- what is worked out for the shop has names without equals signs -/
theorem equals_not_mem_of_computed (h : Computed stockedShop.project stockedImages name) : '=' ∉ name.toList := by
  have hroles : ∀ role ∈ stockedShop.project.roles, '=' ∉ (envVariable role).toList := by decide +kernel
  have hdependencies : ∀ x ∈ stockedShop.project.cloudDependencies, '=' ∉ (envVariable x.name).toList := by
    decide +kernel
  have himages : ∀ component ∈ stockedImages.keys, '=' ∉ (imageVariable component).toList := by decide +kernel
  cases h with
  | profile => decide
  | service h => exact hroles _ h
  | dependency h => exact hdependencies _ h
  | image h => exact himages _ h

/-- of the two secrets in the store, one is a password, and a service asks for the other one -/
theorem stocked_flags_are_declared : ∃ flags i, (equippedShop stockedSecrets).varFlags = .ok flags ∧
    ofProject stockedShop.project stockedShop.account stockedImages = .ok i ∧
    ∀ name ∈ (given flags).keys, name ∈ i.declared.keys := by
  obtain ⟨flags, i, hflags, hi⟩ := exists_equipped stored_stockedSecrets
  refine ⟨flags, i, hflags, hi, (flags_are_declared_iff rfl rfl hflags hi).2 ⟨fun key hkey => ?_, fun name hname => ?_⟩⟩
  · have hkeys : ∀ key ∈ stockedSecrets.keys, flagName key = "db-password" ∨ flagName key = "session-key" := by
      decide +kernel
    rcases hkeys key hkey with hpassword | hasked
    · rw [hpassword]
      exact .inr (.password (d := ⟨Project.stockDatabase, .inCloud⟩) (by decide +kernel) rfl)
    · rw [hasked]
      exact .inr (.service (show "web" ∈ stockedShop.project.roles by decide +kernel) rfl (by decide +kernel))
  · exact fun hequals => absurd hequals (equals_not_mem_of_computed hname)

/-- with a secret in the store that nobody asks for any more -/
def formerSecrets : Secrets := stockedSecrets.insert "former-key" "rusty"

/-- the former secret of the shop is given a value, and it is not declared -/
theorem former_secret_is_not_declared : ¬ ∀ (d : Deploy) (account : Account) (secrets : Secrets) (images : Images)
    (flags : List String) (i : Infrastructure), d.secrets = some secrets → d.images = some images →
      d.varFlags = .ok flags → ofProject d.project account images = .ok i →
        ∀ name ∈ (given flags).keys, name ∈ i.declared.keys := by
  intro h
  have hstored : stockedShop.project.Stored formerSecrets := ⟨by decide +kernel, by decide +kernel⟩
  obtain ⟨flags, i, hflags, hi⟩ := exists_equipped hstored
  have hgiven : "former-key" ∈ (given flags).keys :=
    (mem_given_iff rfl rfl hflags).2 ⟨"former-key", .inl (by decide +kernel), by decide⟩
  have hdeclared := h _ _ _ _ _ _ rfl rfl hflags hi _ hgiven
  have hnone : (ofProject stockedShop.project stockedShop.account stockedImages).map
      (fun i => i.declared.keys.contains "former-key") = .ok false := by decide +kernel
  simp [hi, Except.map, hdeclared] at hnone

/-! ## Declarations without a flag -/

variable {x : Dependency} {vars : Variables} {origins : Endpoints}

/-- a managed database that was checked tells services its password -/
theorem exists_passwordSecret? (hkind : x.kind = .managedDatabase) (hcheck : x.check = .ok ())
    (hkey : x.declaredPassword? = some key) : ∃ name, x.passwordSecret? = some (name, key) := by
  obtain ⟨settings, hsettings, hsecret⟩ := Option.bind_eq_some_iff.1 hkey
  obtain ⟨_, hsame, hcomplete⟩ := (Dependency.check_eq_ok_iff.1 hcheck).database hkind
  cases hsettings.symm.trans hsame
  obtain ⟨name, hname, -⟩ := hcomplete.passwordVariable
  exact ⟨name, by simp [Dependency.passwordSecret?, hkind, hsettings, hname, hsecret]⟩

/-- the passwords of the dependencies of a service whose environment is compiled are in the store -/
theorem stored_of_inCloud (h : Environment.inCloud p role origins secrets = .ok vars)
    (hx : x ∈ p.dependenciesOf role .inCloud) (hpassword : x.passwordSecret? = some (name, key)) :
    key ∈ secrets.keys := by
  obtain ⟨_, layers, _, hlayers, _⟩ := Environment.inCloud_eq_ok_iff.1 h
  obtain ⟨layer, _, hlayer⟩ := exists_related hlayers hx
  simp only [Dependency.deployedVariables, hpassword] at hlayer
  split at hlayer
  · rename_i value hvalue
    exact SortedMap.mem_keys_iff.2 ⟨value, hvalue⟩
  · cases hlayer

/-- where there is a service, a managed database is in the scope of one, so its password is missed if it is missing -/
theorem stored_of_managed (haccepted : p.checkDeployable = .ok ())
    (hservices : serviceEnvironments p secrets p.roles = .ok services) (hroles : p.roles ≠ [])
    (hx : x ∈ p.cloudDependencies) (hkind : x.kind = .managedDatabase) (hkey : x.declaredPassword? = some key) :
    key ∈ secrets.keys := by
  obtain ⟨_, hrole⟩ := List.exists_mem_of_ne_nil _ hroles
  have hdeclared := List.mem_of_find?_eq_some (Project.mem_cloudDependencies_iff.1 hx)
  obtain ⟨asking, hasking, hscope⟩ := (Project.mem_declaredInCloud_iff hrole).1 hdeclared
  obtain ⟨_, _, vars, hvars, _⟩ := exists_related (serviceEnvironments_eq_ok_iff.1 hservices) hasking
  obtain ⟨_, hpassword⟩ := exists_passwordSecret? hkind (Project.provided_of_listed haccepted hx).checked hkey
  exact stored_of_inCloud hvars hscope hpassword

/-- **Every declared variable is given a value just if no declared name has an equals sign in it, and passwords that are
not asked for on behalf of a service are in the store**: those of dependencies that are not managed databases, and,
where there is no service, those of managed databases too. All other secrets are missed when environments are
compiled. -/
theorem variables_are_given_iff (haccepted : d.project.checkDeployable = .ok ()) (hsecrets : d.secrets = some secrets)
    (himages : d.images = some images) (hflags : d.varFlags = .ok flags)
    (hi : ofProject d.project account images = .ok i) :
    (∀ name ∈ i.declared.keys, name ∈ (given flags).keys) ↔
      (∀ name, Declared d.project images name → '=' ∉ name.toList) ∧
      ∀ x ∈ d.project.cloudDependencies, (x.kind = .managedDatabase → d.project.roles = []) →
        ∀ key ∈ x.declaredPassword?, Computed d.project images key ∨
          ∃ stored ∈ secrets.keys, flagName stored = key := by
  obtain ⟨_, _, services, hsecrets', _, hservices, _⟩ := varFlags_eq_ok_iff.1 hflags
  cases hsecrets.symm.trans hsecrets'
  have hcompiled := serviceEnvironments_eq_ok_iff.1 hservices
  simp only [mem_given_iff hsecrets himages hflags, mem_declared_iff hi]
  constructor
  · intro h
    have hequals (name : String) (hname : Declared d.project images name) : '=' ∉ name.toList := by
      obtain ⟨passed, _, rfl⟩ := h name hname
      exact equals_not_mem_flagName passed
    refine ⟨hequals, fun x hx _ key hkey => ?_⟩
    obtain ⟨passed, hstored | hcomputed, rfl⟩ := h key (.inr (.password hx hkey))
    · exact .inr ⟨passed, hstored, rfl⟩
    · rw [flagName_eq_self (hequals passed (.inl hcomputed))]
      exact .inl hcomputed
  · rintro ⟨hequals, hpasswords⟩ name hname
    have hwhole := flagName_eq_self (hequals name hname)
    rcases hname with hcomputed | (⟨hrole, hs, hkey⟩ | @⟨x, _, hx, hkey⟩)
    · exact ⟨name, .inr hcomputed, hwhole⟩
    · -- the environment of the service would have failed without its secret
      obtain ⟨_, _, vars, hvars, _⟩ := exists_related hcompiled hrole
      obtain ⟨s, _, hs', _, hstored, _⟩ := Environment.inCloud_eq_ok_iff.1 hvars
      cases hs.symm.trans hs'
      exact ⟨name, .inl (hstored name hkey), hwhole⟩
    · by_cases hasked : x.kind = .managedDatabase ∧ d.project.roles ≠ []
      · exact ⟨name, .inl (stored_of_managed haccepted hservices hasked.2 hx hasked.1 hkey), hwhole⟩
      · obtain hcomputed | ⟨stored, hstored, hname⟩ := hpasswords x hx (by tauto) name hkey
        · exact ⟨name, .inr hcomputed, hwhole⟩
        · exact ⟨stored, .inl hstored, hname⟩

/-- the only password of the shop is that of its database, which a service asks for -/
theorem stocked_variables_are_given : stockedShop.project.checkDeployable = .ok () ∧
    ∃ flags i, (equippedShop stockedSecrets).varFlags = .ok flags ∧
      ofProject stockedShop.project stockedShop.account stockedImages = .ok i ∧
      ∀ name ∈ i.declared.keys, name ∈ (given flags).keys := by
  have haccepted : (equippedShop stockedSecrets).project.checkDeployable = .ok () := by decide +kernel
  obtain ⟨flags, i, hflags, hi⟩ := exists_equipped stored_stockedSecrets
  refine ⟨haccepted, flags, i, hflags, hi, (variables_are_given_iff haccepted rfl rfl hflags hi).2 ⟨?_, ?_⟩⟩
  · have hasked : ∀ role ∈ stockedShop.project.roles, ∀ s ∈ stockedShop.project.services.get? role,
        ∀ key ∈ s.inCloud.secrets, '=' ∉ key.toList := by decide +kernel
    have hpasswords : ∀ x ∈ stockedShop.project.cloudDependencies, ∀ key ∈ x.declaredPassword?, '=' ∉ key.toList := by
      decide +kernel
    rintro name (hcomputed | (⟨hrole, hs, hkey⟩ | ⟨hx, hkey⟩))
    · exact equals_not_mem_of_computed hcomputed
    · exact hasked _ hrole _ hs _ hkey
    · exact hpasswords _ hx _ hkey
  · have hmanaged : ∀ x ∈ stockedShop.project.cloudDependencies, ∀ key ∈ x.declaredPassword?,
        x.kind = .managedDatabase := by decide +kernel
    have hroles : stockedShop.project.roles ≠ [] := by decide +kernel
    exact fun x hx hunasked key hkey => absurd (hunasked (hmanaged x hx key hkey)) hroles

/-- where there is nothing to publish, that much is published -/
theorem exists_publish_nil (t : Publish.Target) : ∃ es images, (publish t [] 1).Play es (.ok images) ∧
    ∀ component, component ∉ images.keys := by
  have hplay := Dialogue.play_run (agreeable .empty) (publish t [] 1) ()
  have hobliging := Dialogue.all_transcript (obliging_agreeable .empty) (publish t [] 1) ()
  obtain ⟨images, himages⟩ := (publish_of_clean hplay (clean_of_obliging hobliging)).1 List.nodup_nil
  rw [himages] at hplay
  refine ⟨_, images, hplay, fun component hcomponent => ?_⟩
  obtain ⟨log, hcourse⟩ := Publish.play_publish_iff.1 hplay
  obtain ⟨reference, hreference⟩ := SortedMap.mem_keys_iff.1 hcomponent
  obtain ⟨j, hj, _⟩ := ((Publish.complete_of_course hcourse).images component reference).1 hreference
  cases hj

/-- a shop that has a database for its stock, and no services yet -/
def unmannedShop : Deploy where
  project := {
    dir := "."
    application := {
      name := "shop", version := "1"
      site := {
        dependencies := [Project.stockDatabase]
        url := "shop.example", accountId := "1", region := "eu", certificate := "cert" } }
    services := .empty }
  account := ⟨"default", "eu", "1", "shop"⟩
  infraDir := "infra"
  autoApprove := false

/-- the password of the stock is declared and not given, although the shop is accepted and its flags are compiled -/
theorem unmanned_password_is_not_given : ¬ ∀ (d : Deploy) (account : Account) (t : Publish.Target)
    (jobs : List ImageJob) (concurrency : Nat) (es : List Asked) (secrets : Secrets) (images : Images)
    (flags : List String) (i : Infrastructure), d.project.checkDeployable = .ok () → d.project.imageJobs = .ok jobs →
      (publish t jobs concurrency).Play es (.ok images) → d.secrets = some secrets → d.images = some images →
        d.varFlags = .ok flags → ofProject d.project account images = .ok i →
          ∀ name ∈ i.declared.keys, name ∈ (given flags).keys := by
  intro h
  have haccepted : unmannedShop.project.checkDeployable = .ok () := by decide +kernel
  have hready := Project.ready_of_checkDeployable haccepted
  have hstored : unmannedShop.project.Stored .empty := ⟨by decide +kernel, by decide +kernel⟩
  have hjobs : unmannedShop.project.imageJobs = .ok [] := by decide +kernel
  obtain ⟨es, images, hpublish, hnone⟩ := exists_publish_nil ⟨unmannedShop.account, "registry"⟩
  let d : Deploy := { unmannedShop with secrets := some .empty, images := some images }
  obtain ⟨flags, hflags⟩ := exists_varFlags (d := d) hready hstored rfl rfl
  obtain ⟨i, hi⟩ := Project.exists_ofProject hready unmannedShop.account images
  have hdeclared : Declared unmannedShop.project images "db-password" :=
    .inr (.password (d := ⟨Project.stockDatabase, .inCloud⟩) (by decide +kernel) rfl)
  have hgiven := h d _ _ _ _ _ _ _ _ _ haccepted hjobs hpublish rfl rfl hflags hi _ ((mem_declared_iff hi).2 hdeclared)
  obtain ⟨passed, hstored | hcomputed, hname⟩ := (mem_given_iff rfl rfl hflags).1 hgiven
  · cases hstored
  · have hdependencies : ∀ x ∈ unmannedShop.project.cloudDependencies,
        flagName (envVariable x.name) ≠ "db-password" := by
      decide +kernel
    cases hcomputed with
    | profile => exact absurd hname (by decide)
    | service hrole => cases hrole
    | dependency hx => exact hdependencies _ hx hname
    | image hcomponent => exact hnone _ hcomponent

end Deploy

end Fleet
