/-
Overriding: which flag the environment of a service ends up with.

Names of secrets, images, services and dependencies share one name space, and of several flags for one variable the last
one counts. Flags for services come after those for secrets and images, and before those for dependencies.
- `decode_ne_ok_of_cut`: the text of an environment does not decode when an equals sign stands in front of it.
- `environment_is_given_iff`: the value of a service's variable decodes to the environment of the service just if no
  flag for a dependency reads as one for that variable. No secret, no image and no other service gets in the way.
- `database_overrides_its_namesake`: an accepted project in which a service is called like the database that it uses.
-/
import Fleet.Proofs.Deploy.Flags

namespace Fleet

/-! ## Environments and their texts -/

namespace Environment

variable {p : Project} {role text : String} {origins : Endpoints} {secrets : Secrets} {vars vars' : Variables}
  {front : List Char}

theorem mem_keys_overlay {layers : List Variables} {k : String} (h : k ∈ vars.keys) :
    k ∈ (overlay vars layers).keys := by
  induction layers generalizing vars with
  | nil => exact h
  | cons layer layers ih => exact ih (SortedMap.mem_keys_merge_iff.2 (.inl h))

/-- a service is told its own name -/
theorem role_mem_of_inCloud (h : inCloud p role origins secrets = .ok vars) : roleVariable ∈ vars.keys := by
  obtain ⟨s, layers, _, _, _, rfl⟩ := inCloud_eq_ok_iff.1 h
  have hbase : roleVariable ∈ (SortedMap.singleton roleVariable role).keys := List.mem_cons_self
  refine SortedMap.mem_keys_merge_iff.2 (.inl ?_)
  refine SortedMap.mem_keys_iff.2 (SortedMap.exists_get?_insertAll (.inr (SortedMap.mem_keys_iff.1 ?_)))
  exact SortedMap.mem_keys_merge_iff.2 (.inl (mem_keys_overlay hbase))

/-- the infrastructure of a dependency is not told a role -/
theorem role_not_mem_moduleVariables (p : Project) (x : Dependency) : roleVariable ∉ (x.moduleVariables p).keys := by
  unfold Dependency.moduleVariables
  cases x.kind with
  | messageBus repository => exact fun h => absurd (List.mem_singleton.1 h) (show "ROLE" ≠ "SERVICE_ROUTES" by decide)
  | managedDatabase => simp [SortedMap.mem_keys_ofList_iff, roleVariable]
  | generic => exact List.not_mem_nil

theorem toList_encode (vars : Variables) : ∃ behind, (encode vars).toList = '"' :: '[' :: behind := by
  have hescape : Json.escapeChar '[' = ['['] := rfl
  simp [encode, Json.compact, Json.text, Json.write, Json.quote, hescape]

/-- no text decodes that has the text of an environment behind an equals sign -/
theorem decode_ne_ok_of_cut (h : text.toList = front ++ '=' :: (encode vars).toList) : decode text ≠ .ok vars' := by
  obtain ⟨behind, hencoded⟩ := toList_encode vars
  rw [hencoded] at h
  have hparse (inner : Option String) := Json.parse_ne_string (t := inner) h List.mem_cons_self rfl
  intro hdecode
  simp only [decode] at hdecode
  split at hdecode
  · rename_i hpairs
    split at hpairs
    · exact absurd ‹_› (hparse _)
    · cases hpairs
  · cases hdecode

end Environment

namespace Deploy

open Infrastructure

variable {d : Deploy} {p : Project} {secrets : Secrets} {images : Images} {flags : List String}
  {services : List (String × String)} {name role text : String} {vars : Variables} {origins : Endpoints}

/-! ## The last flag for a variable -/

theorem asRead_of_plain {e : String × String} (h : '=' ∉ e.1.toList) : asRead e = e := by
  have hname : e.1.toList.dropWhile (fun c => c ≠ '=') = [] :=
    List.dropWhile_eq_nil_iff.2 fun c hc => decide_eq_true (ne_of_mem_of_not_mem hc h)
  rw [asRead, flagName_eq_self h, flagValue, toList_assignment, List.dropWhile_append, hname]
  simp

/-- a name with an equals sign spills into the value -/
theorem asRead_of_cut {e : String × String} (h : '=' ∈ e.1.toList) :
    ∃ front, (asRead e).2.toList = front ++ '=' :: e.2.toList := by
  cases hname : e.1.toList.dropWhile (fun c => c ≠ '=') with
  | nil => simpa using List.dropWhile_eq_nil_iff.1 hname '=' h
  | cons c front =>
    refine ⟨front, ?_⟩
    rw [asRead, flagValue, toList_assignment, List.dropWhile_append, hname]
    simp

theorem envVariable_injective : Function.Injective envVariable := by
  intro name name' h
  have hlists := congrArg String.toList h
  simp only [envVariable, String.toList_append, List.append_left_inj] at hlists
  exact String.toList_inj.1 hlists

theorem equals_not_mem_envVariable (h : '=' ∉ name.toList) : '=' ∉ (envVariable name).toList := by
  rw [envVariable, String.toList_append, List.mem_append, not_or]
  exact ⟨h, by decide⟩

/-- names of accepted services have no equals signs -/
theorem equals_not_mem_of_role (h : p.checkDeployable = .ok ()) (hrole : role ∈ p.roles) : '=' ∉ role.toList := by
  obtain ⟨source, hsource⟩ := SortedMap.mem_keys_iff.1 hrole
  obtain ⟨hname, -⟩ := (Project.checkDeployable_eq_ok_iff.1 h).roles role source hsource
  intro hequals
  rcases Naming.mem_of_isHyphenated (Naming.isHyphenated_iff.2 hname) hequals with hhyphen | hchar
  · cases hhyphen
  · cases hchar

/-- the flags for services give each variable its environment -/
theorem lookupEntry_services (haccepted : p.checkDeployable = .ok ())
    (hservices : serviceEnvironments p secrets p.roles = .ok services) (hrole : role ∈ p.roles)
    (hvars : Environment.inCloud p role (.ofProject p .deploy) secrets = .ok vars) :
    SortedMap.lookupEntry (envVariable role) (services.map asRead).reverse = some (Environment.encode vars) := by
  have hnames := names_of_serviceEnvironments hservices
  have hread : services.map asRead = services := by
    refine (List.map_congr_left fun e he => ?_).trans (List.map_id services)
    obtain ⟨r, hr, hname⟩ := List.mem_map.1 (hnames ▸ List.mem_map_of_mem he)
    exact asRead_of_plain (hname ▸ equals_not_mem_envVariable (equals_not_mem_of_role haccepted hr))
  have hnodup : (services.map Prod.fst).Nodup := by
    rw [hnames]
    exact (SortedMap.nodup_keys _).map envVariable_injective
  obtain ⟨e, he, vars', hvars', rfl⟩ := exists_related (serviceEnvironments_eq_ok_iff.1 hservices) hrole
  cases hvars.symm.trans hvars'
  rw [hread, SortedMap.lookupEntry_reverse hnodup]
  exact SortedMap.lookupEntry_of_mem hnodup he

/-- a flag for a dependency gives no variable the environment of a service -/
theorem decode_ne_ok_of_dependency (hvars : Environment.inCloud p role origins secrets = .ok vars)
    (h : (name, text) ∈ (dependencyEnvironments p).map asRead) : Environment.decode text ≠ .ok vars := by
  obtain ⟨_, hassigned, hread⟩ := List.mem_map.1 h
  obtain ⟨x, _, rfl⟩ := List.mem_map.1 hassigned
  obtain rfl : _ = text := congrArg Prod.snd hread
  -- either the value is spoilt by the rest of the name, or it is whole, and no environment of a service
  by_cases hequals : '=' ∈ (envVariable x.name).toList
  · obtain ⟨front, hcut⟩ := asRead_of_cut (e := (envVariable x.name, Environment.encode (x.moduleVariables p))) hequals
    exact Environment.decode_ne_ok_of_cut hcut
  · rw [asRead_of_plain hequals, Environment.decode_encode]
    rintro ⟨⟩
    exact Environment.role_not_mem_moduleVariables p x (Environment.role_mem_of_inCloud hvars)

/-- the flags that count for a service's variable are those for dependencies, and then its own -/
theorem get?_given_service (haccepted : d.project.checkDeployable = .ok ())
    (hservices : serviceEnvironments d.project secrets d.project.roles = .ok services) (hrole : role ∈ d.project.roles)
    (hvars : Environment.inCloud d.project role (.ofProject d.project .deploy) secrets = .ok vars) :
    (given ((assigned d secrets images services).flatMap fun e => flag e.1 e.2)).get? (envVariable role) =
      (SortedMap.lookupEntry (envVariable role) ((dependencyEnvironments d.project).map asRead).reverse).or
        (some (Environment.encode vars)) := by
  have hprofile : SortedMap.lookupEntry (envVariable role) [asRead (profileVariable, d.account.profile)] = none := by
    have hne : envVariable role ≠ profileVariable := by
      intro h
      have hlast := congrArg (fun s => s.toList.getLast?) h
      simp [envVariable, profileVariable] at hlast
    rw [asRead_of_plain (show '=' ∉ profileVariable.toList by decide)]
    exact if_neg hne
  -- read from the end, there is the profile, then come the dependencies and the services, and no further flag counts
  simp only [given, readFlags_flags, SortedMap.get?_ofList, assigned, List.map_append, List.reverse_append,
    SortedMap.lookupEntry_append, lookupEntry_services haccepted hservices hrole hvars, List.map_cons, List.map_nil,
    List.reverse_singleton, hprofile, Option.none_or, Option.some_or]

/-- **A service's variable ends up with the service's environment just if no flag for a dependency reads as one for that
variable**: because the dependency is called like the service, or because its name begins with the variable and an
equals sign. Nothing else gets in the way. -/
theorem environment_is_given_iff (haccepted : d.project.checkDeployable = .ok ()) (hflags : d.varFlags = .ok flags)
    (hrole : role ∈ d.project.roles) : ∃ secrets vars text, d.secrets = some secrets ∧
      Environment.inCloud d.project role (.ofProject d.project .deploy) secrets = .ok vars ∧
      (given flags).get? (envVariable role) = some text ∧
      (Environment.decode text = .ok vars ↔
        ∀ x ∈ d.project.cloudDependencies, flagName (envVariable x.name) ≠ envVariable role) := by
  obtain ⟨secrets, images, services, hsecrets, _, hservices, rfl⟩ := varFlags_eq_ok_iff.1 hflags
  obtain ⟨_, _, vars, hvars, _⟩ := exists_related (serviceEnvironments_eq_ok_iff.1 hservices) hrole
  rw [get?_given_service haccepted hservices hrole hvars]
  cases hlookup : SortedMap.lookupEntry (envVariable role) ((dependencyEnvironments d.project).map asRead).reverse with
  | none =>
    refine ⟨secrets, vars, _, hsecrets, hvars, Option.none_or, ?_⟩
    refine iff_of_true (Environment.decode_encode vars) fun x hx hname => ?_
    refine SortedMap.lookupEntry_eq_none_iff.1 hlookup ?_
    rw [List.map_reverse, List.mem_reverse, List.map_map]
    exact List.mem_map.2 ⟨_, List.mem_map_of_mem hx, hname⟩
  | some text =>
    have hin := List.mem_reverse.1 (SortedMap.mem_entries_of_lookupEntry hlookup)
    refine ⟨secrets, vars, text, hsecrets, hvars, Option.some_or, ?_⟩
    refine iff_of_false (decode_ne_ok_of_dependency hvars hin) fun hdiffer => ?_
    obtain ⟨_, hassigned, hread⟩ := List.mem_map.1 hin
    obtain ⟨x, hx, rfl⟩ := List.mem_map.1 hassigned
    exact hdiffer x hx (congrArg Prod.fst hread)

/-- the pages of the shop keep their environment -/
theorem stocked_environment_is_given : stockedShop.project.checkDeployable = .ok () ∧
    "web" ∈ stockedShop.project.roles ∧ ∃ flags, (equippedShop stockedSecrets).varFlags = .ok flags ∧ ∃ vars text,
      Environment.inCloud stockedShop.project "web" (.ofProject stockedShop.project .deploy) stockedSecrets = .ok vars ∧
      (given flags).get? "web_env_vars" = some text ∧ Environment.decode text = .ok vars := by
  have haccepted : (equippedShop stockedSecrets).project.checkDeployable = .ok () := by decide +kernel
  have hrole : "web" ∈ (equippedShop stockedSecrets).project.roles := by decide +kernel
  obtain ⟨flags, _, hflags, _⟩ := exists_equipped stored_stockedSecrets
  obtain ⟨secrets, vars, text, hsecrets, hvars, htext, hiff⟩ := environment_is_given_iff haccepted hflags hrole
  cases hsecrets
  exact ⟨haccepted, hrole, flags, hflags, vars, text, hvars, htext, hiff.2 (by decide +kernel)⟩

/-- a shop with a service that is called like the database of its stock -/
def mysqlShop : Deploy where
  project := {
    dir := "."
    application := {
      name := "shop", version := "1"
      services := .singleton "mysql" { location := some "mysql" }
      site := {
        dependencies := [Project.stockDatabase]
        url := "shop.example", accountId := "1", region := "eu", certificate := "cert" } }
    services := .singleton "mysql" { inCloud := { cpu := some "1", memory := some "1" } } }
  account := ⟨"default", "eu", "1", "shop"⟩
  infraDir := "infra"
  autoApprove := false
  secrets := some (.singleton "db-password" "swordfish")
  images := some (.singleton "mysql" "registry/shop-mysql:1")

/-- the service is accepted, and started with the settings of the database for its environment -/
theorem database_overrides_its_namesake : ¬ ∀ (d : Deploy) (flags : List String) (role : String) (secrets : Secrets)
    (vars : Variables), d.project.checkDeployable = .ok () → d.varFlags = .ok flags → role ∈ d.project.roles →
      d.secrets = some secrets →
        Environment.inCloud d.project role (.ofProject d.project .deploy) secrets = .ok vars →
          ∃ text, (given flags).get? (envVariable role) = some text ∧ Environment.decode text = .ok vars := by
  intro h
  have haccepted : mysqlShop.project.checkDeployable = .ok () := by decide +kernel
  have hrole : "mysql" ∈ mysqlShop.project.roles := by decide +kernel
  have hstored : mysqlShop.project.Stored (.singleton "db-password" "swordfish") :=
    ⟨by decide +kernel, by decide +kernel⟩
  obtain ⟨flags, hflags⟩ := exists_varFlags (Project.ready_of_checkDeployable haccepted) hstored rfl rfl
  obtain ⟨_, images, services, hsecrets, _, hservices, rfl⟩ := varFlags_eq_ok_iff.1 hflags
  cases hsecrets
  obtain ⟨_, _, vars, hvars, _⟩ := exists_related (serviceEnvironments_eq_ok_iff.1 hservices) hrole
  obtain ⟨text, htext, hdecoded⟩ := h _ _ _ _ _ haccepted hflags hrole rfl hvars
  have hnamesake : (SortedMap.lookupEntry (envVariable "mysql")
      ((dependencyEnvironments mysqlShop.project).map asRead).reverse).isSome = true := by decide +kernel
  obtain ⟨overriding, hlookup⟩ := Option.isSome_iff_exists.1 hnamesake
  rw [get?_given_service haccepted hservices hrole hvars, hlookup, Option.some_or] at htext
  cases htext
  have hin := List.mem_reverse.1 (SortedMap.mem_entries_of_lookupEntry hlookup)
  exact decode_ne_ok_of_dependency hvars hin hdecoded

end Deploy

end Fleet
