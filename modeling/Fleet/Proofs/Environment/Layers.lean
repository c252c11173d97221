/-
Which layer of an environment decides.

Several layers may define one name. The highest of those that do gives its value (`highest`), and a name that no layer
defines is not in the environment.
- `onMachine_in_layers`: the environment of a service on a machine, which is always there. A secret that is not found is
  as good as one that is not declared.
- `inCloud_in_layers`: the environment of a deployed service, which secrets it needs, and which of them is reported if
  some are not in the store. It depends on no other secret.
-/
import Fleet.Proofs.Environment

namespace Fleet

/-- what a layer defines, by name -/
abbrev Layer := String → Option String

/-- what is set for one tier alone -/
def TieredVariables.ofTier (v : TieredVariables) : Tier → Variables
  | .development => v.development
  | .test => v.test
  | .production => v.production

theorem TieredVariables.get?_forTier (v : TieredVariables) (tier : Tier) (k : String) :
    (v.forTier tier).get? k = ((v.ofTier tier).get? k).or (v.base.get? k) := by
  cases tier <;> exact SortedMap.get?_merge _ _ k

/-- the service without a secret that it declares for a machine -/
def Service.withoutSecret (s : Service) (key : String) : Service :=
  { s with onMachine := { s.onMachine with secrets := s.onMachine.secrets.filter (· ≠ key) } }

/-- the project with this configuration of a role -/
def Project.withService (p : Project) (role : String) (s : Service) : Project :=
  { p with services := p.services.insert role s }

theorem Project.get?_withService (p : Project) (role : String) (s : Service) :
    (p.withService role s).services.get? role = some s := (SortedMap.get?_insert _ _ _ _).trans (if_pos rfl)

namespace Environment

variable {p : Project} {role : String} {s : Service} {m : Mode} {origins : Endpoints} {lookup : String → Option String}
  {secrets secrets' : Secrets} {vars : Variables} {l : List Dependency} {keys : List String} {k : String} {f : Fault}

/-- what the highest layer says that says anything -/
def highest (layers : List Layer) : Layer := fun k => layers.findSome? fun layer => layer k

theorem highest_nil (k : String) : highest [] k = none := rfl

theorem highest_cons (layer : Layer) (layers : List Layer) (k : String) :
    highest (layer :: layers) k = (layer k).or (highest layers k) := by
  rw [highest, List.findSome?_cons]
  cases layer k <;> rfl

theorem highest_append (layers layers' : List Layer) (k : String) :
    highest (layers ++ layers') k = (highest layers k).or (highest layers' k) := List.findSome?_append

/-- what is laid over something last is highest -/
theorem get?_overlay (vars : Variables) (layers : List Variables) (k : String) :
    (overlay vars layers).get? k = (highest (layers.reverse.map SortedMap.get?) k).or (vars.get? k) := by
  induction layers generalizing vars with
  | nil => rfl
  | cons layer layers ih =>
    have hstep : overlay vars (layer :: layers) = overlay (vars.merge layer) layers := rfl
    have hsingle : highest [layer.get?] k = layer.get? k := (highest_cons _ _ k).trans Option.or_none
    rw [hstep, ih, SortedMap.get?_merge, List.reverse_cons, List.map_append, highest_append, Option.or_assoc,
      List.map_singleton, hsingle]

/-! ## Secrets -/

/-- the values of declared secrets, where they are found -/
def found (keys : List String) (lookup : String → Option String) : Layer := fun k => if k ∈ keys then lookup k else none

theorem get?_insertAll_foundSecrets (vars : Variables) (lookup : String → Option String) (keys : List String)
    (k : String) : (vars.insertAll (foundSecrets lookup keys)).get? k = (found keys lookup k).or (vars.get? k) := by
  rw [SortedMap.get?_insertAll]
  congr 1
  induction keys with
  | nil => rfl
  | cons key keys ih =>
    cases hfound : lookup key with
    | none =>
      have hskip : foundSecrets lookup (key :: keys) = foundSecrets lookup keys := by simp [foundSecrets, hfound]
      rw [hskip, ih]
      simp only [found, List.mem_cons]
      grind
    | some v =>
      have hentry : foundSecrets lookup (key :: keys) = (key, v) :: foundSecrets lookup keys := by
        simp [foundSecrets, hfound]
      rw [hentry, List.reverse_cons, SortedMap.lookupEntry_append, ih]
      simp only [found, List.mem_cons, SortedMap.lookupEntry]
      grind

/-! ## A shop whose layers overlap -/

/-- The shared store, the pages' own one and their settings name the same variables. The pages have a store of their own
that is called like the shared one, and a secret that is set as well. -/
def overlappingShop : Project where
  dir := "."
  application := {
    name := "shop"
    services := .ofList [("api", { location := some "api" }), ("web", { location := some "web" })]
    localDependencies := [{ name := "redis", version := "7"
                            settings := { consumerEnv := .ofList [("ROLE", "cache"), ("STORE", "shared")] } }]
    site := { dependencies := [
      { name := "mysql", version := "8"
        settings := { database := some {
          dbName := some "stock", username := some "shop", passwordSecret := some "db-password"
          consumerNames := ⟨some "STORE", some "ROLE", some "PASSWORD"⟩ } } }] } }
  services := .ofList [("api", { developmentPort := some ⟨80, by decide⟩ }), ("web", {
    onMachine := {
      dependencies := [
        { name := "redis", version := "6", settings := { consumerEnv := .singleton "OLD" "shadowed" } },
        { name := "mongo", version := "4", settings := { consumerEnv := .singleton "STORE" "own" } }]
      environment := {
        base := .ofList [("TOKEN", "plain"), ("KEY", "plain"), ("API_INTERNAL_ORIGIN", "nowhere")]
        development := .singleton "STAGE" "development" }
      secrets := ["KEY", "TOKEN"] }
    inCloud := { environment := .singleton "PASSWORD" "guess", secrets := ["session-key"] } })]

/-! ## On a machine -/

/-- the layers of a service's environment on a machine, highest first -/
def layersOnMachine (p : Project) (role : String) (s : Service) (m : Mode) (origins : Endpoints)
    (lookup : String → Option String) : List Layer :=
  [(origins.variablesFor role).get?, found s.onMachine.secrets lookup, (s.onMachine.environment.ofTier m.tier).get?,
    s.onMachine.environment.base.get?] ++
  (p.privateDependencies role m.lifecycle).reverse.map (fun d => (d.serviceVariables p).get?) ++
  (p.sharedDependencies m.lifecycle).reverse.map (fun d => (d.serviceVariables p).get?) ++
  [(SortedMap.singleton roleVariable role).get?]

theorem exists_onMachine (hs : p.services.get? role = some s) : ∃ vars, onMachine p role m origins lookup = .ok vars ∧
    ∀ k, vars.get? k = highest (layersOnMachine p role s m origins lookup) k := by
  have hservice : p.service role = .ok s := by rw [Project.service, hs]
  refine ⟨_, by rw [onMachine, hservice], fun k => ?_⟩
  simp only [SortedMap.get?_merge, get?_insertAll_foundSecrets, TieredVariables.get?_forTier, get?_overlay,
    layersOnMachine, highest_append, highest_cons, highest_nil, Project.dependenciesOf, List.map_append,
    List.map_reverse, List.reverse_append, List.map_map, Function.comp_def, Option.or_assoc, Option.or_none]

/-- it makes no difference whether a secret that is not found is declared -/
theorem onMachine_withoutSecret {key : String} (hs : p.services.get? role = some s) (hkey : lookup key = none) :
    onMachine (p.withService role (s.withoutSecret key)) role m origins lookup = onMachine p role m origins lookup := by
  have hservice := p.get?_withService role (s.withoutSecret key)
  obtain ⟨vars, hvars, hlayers⟩ := exists_onMachine hs
  obtain ⟨vars', hvars', hlayers'⟩ := exists_onMachine hservice
  have hprivate (l : Lifecycle) :
      (p.withService role (s.withoutSecret key)).privateDependencies role l = p.privateDependencies role l := by
    simp only [Project.privateDependencies, Project.ownDependencies, hservice, hs]
    cases l <;> rfl
  have hfound : found (s.withoutSecret key).onMachine.secrets lookup = found s.onMachine.secrets lookup := by
    funext k
    simp only [found, Service.withoutSecret, List.mem_filter]
    grind
  have hsame : layersOnMachine (p.withService role (s.withoutSecret key)) role (s.withoutSecret key) m origins lookup =
      layersOnMachine p role s m origins lookup := by
    simp only [layersOnMachine, hprivate, hfound]
    rfl
  have hvalues : vars' = vars := SortedMap.ext_get? fun k => by rw [hlayers, hlayers', hsame]
  exact hvars'.trans (hvalues ▸ hvars.symm)

/-- **On a machine the highest layer decides.** A service that is there has an environment; each name has the value that
the highest layer gives it, and a name that no layer defines is not in it. A secret that is not found might as well not
be declared. -/
theorem onMachine_in_layers (hs : p.services.get? role = some s) :
    ∃ vars, onMachine p role m origins lookup = .ok vars ∧
    (∀ k, vars.get? k = highest (layersOnMachine p role s m origins lookup) k) ∧
    ∀ key, lookup key = none →
      onMachine (p.withService role (s.withoutSecret key)) role m origins lookup = .ok vars := by
  obtain ⟨vars, hvars, hlayers⟩ := exists_onMachine hs
  exact ⟨vars, hvars, hlayers, fun key hkey => (onMachine_withoutSecret hs hkey).trans hvars⟩

/-- The pages' own store comes before the shared one, which even gives the role another name. A secret that is found
comes before what is set, and one that is not found leaves it. -/
theorem overlapping_shop_on_machine : ∃ vars,
    onMachine overlappingShop "web" .localDevelopment (.ofProject overlappingShop .localDevelopment)
      (fun key => if key = "KEY" then some "secret" else none) = .ok vars ∧
    vars.get? "STORE" = some "own" ∧ vars.get? "ROLE" = some "cache" ∧ vars.get? "OLD" = none ∧
    vars.get? "KEY" = some "secret" ∧ vars.get? "TOKEN" = some "plain" ∧
    vars.get? "API_INTERNAL_ORIGIN" = some "http://api:80" ∧ ∃ s, overlappingShop.services.get? "web" = some s ∧
    onMachine (overlappingShop.withService "web" (s.withoutSecret "TOKEN")) "web" .localDevelopment
      (.ofProject overlappingShop .localDevelopment) (fun key => if key = "KEY" then some "secret" else none) =
      .ok vars := by
  have hweb : (overlappingShop.services.get? "web").isSome = true := by decide +kernel
  obtain ⟨s, hs⟩ := Option.isSome_iff_exists.1 hweb
  obtain ⟨vars, hvars, hlayers, hwithout⟩ := onMachine_in_layers hs
  refine ⟨vars, hvars, ?_, ?_, ?_, ?_, ?_, ?_, s, hs, hwithout "TOKEN" rfl⟩
  all_goals
    rw [hlayers]
    cases hs
    decide +kernel

/-! ## In the cloud -/

/-- what a dependency defines for a deployed service, if its password is in the store -/
def deployed (p : Project) (secrets : Secrets) (d : Dependency) : Layer :=
  match d.deployedVariables p secrets with
  | .ok vars => vars.get?
  | .error _ => fun _ => none

/-- the layers of a deployed service's environment, highest first -/
def layersInCloud (p : Project) (role : String) (s : Service) (origins : Endpoints) (secrets : Secrets) : List Layer :=
  [(origins.variablesFor role).get?, found s.inCloud.secrets secrets.get?, s.inCloud.environment.get?] ++
  (p.privateDependencies role .inCloud).reverse.map (deployed p secrets) ++
  (p.sharedDependencies .inCloud).reverse.map (deployed p secrets) ++
  [(SortedMap.singleton roleVariable role).get?]

/-- the secrets of managed databases, where a variable is named for the password -/
def passwords (l : List Dependency) : List String := l.filterMap fun d => d.passwordSecret?.map Prod.snd

/-- the secrets that a deployed service needs: the passwords of the databases in scope, then what it declares itself -/
def neededSecrets (p : Project) (role : String) (s : Service) : List String :=
  passwords (p.dependenciesOf role .inCloud) ++ s.inCloud.secrets

def isAbsent (secrets : Secrets) (key : String) : Bool := (secrets.get? key).isNone

theorem isAbsent_iff : isAbsent secrets k = true ↔ k ∉ secrets.keys := by
  rw [isAbsent, Option.isNone_iff_eq_none, ← Option.not_isSome_iff_eq_none, SortedMap.mem_keys_iff,
    Option.isSome_iff_exists]

theorem overlayDependencies_eq_error_iff (vars : Variables) : overlayDependencies p secrets vars l = .error f ↔
    ∃ k, (passwords l).find? (isAbsent secrets) = some k ∧ f = .secretMissing k := by
  induction l generalizing vars with
  | nil => simp [overlayDependencies, passwords]
  | cons d l ih =>
    simp only [overlayDependencies, Dependency.deployedVariables]
    cases hpassword : d.passwordSecret? with
    | none =>
      have hskip : passwords (d :: l) = passwords l := by simp [passwords, hpassword]
      simp only [ih, hskip]
    | some e =>
      obtain ⟨name, secret⟩ := e
      have hneeded : passwords (d :: l) = secret :: passwords l := by simp [passwords, hpassword]
      rw [hneeded, List.find?_cons]
      cases hfound : secrets.get? secret with
      | none => simp [isAbsent, hfound, eq_comm]
      | some v => simp only [ih, isAbsent, hfound, Option.isNone_some]

theorem overlaySecrets_eq_error_iff (vars : Variables) : overlaySecrets secrets vars keys = .error f ↔
    ∃ k, keys.find? (isAbsent secrets) = some k ∧ f = .secretMissing k := by
  induction keys generalizing vars with
  | nil => simp [overlaySecrets]
  | cons key keys ih =>
    rw [overlaySecrets, List.find?_cons]
    cases hfound : secrets.get? key with
    | none => simp [isAbsent, hfound, eq_comm]
    | some v => simp only [ih, isAbsent, hfound, Option.isNone_some]

/-- **The first secret that is absent is what is reported.** -/
theorem inCloud_eq_error_iff (hs : p.services.get? role = some s) : inCloud p role origins secrets = .error f ↔
    ∃ k, (neededSecrets p role s).find? (isAbsent secrets) = some k ∧ f = .secretMissing k := by
  have hservice : p.service role = .ok s := by rw [Project.service, hs]
  simp only [inCloud, hservice, neededSecrets, List.find?_append]
  cases hdependencies : overlayDependencies p secrets (.singleton roleVariable role)
    (p.dependenciesOf role .inCloud) with
  | error g =>
    obtain ⟨k, hk, rfl⟩ := (overlayDependencies_eq_error_iff _).1 hdependencies
    simp [hk, eq_comm]
  | ok fromDependencies =>
    have hnone : (passwords (p.dependenciesOf role .inCloud)).find? (isAbsent secrets) = none := by
      refine Option.eq_none_iff_forall_ne_some.2 fun k hk => ?_
      have hfault : overlayDependencies p secrets (.singleton roleVariable role) (p.dependenciesOf role .inCloud) =
          .error (.secretMissing k) := (overlayDependencies_eq_error_iff _).2 ⟨k, hk, rfl⟩
      rw [hdependencies] at hfault
      cases hfault
    rw [hnone, Option.none_or, ← overlaySecrets_eq_error_iff (fromDependencies.merge s.inCloud.environment)]
    cases hsecrets : overlaySecrets secrets (fromDependencies.merge s.inCloud.environment) s.inCloud.secrets with
    | error g => simp only [hsecrets]
    | ok withSecrets => simp only [hsecrets, reduceCtorEq]

theorem exists_inCloud_iff (hs : p.services.get? role = some s) :
    (∃ vars, inCloud p role origins secrets = .ok vars) ↔ ∀ k ∈ neededSecrets p role s, k ∈ secrets.keys := by
  have hfind : (neededSecrets p role s).find? (isAbsent secrets) = none ↔
      ∀ k ∈ neededSecrets p role s, k ∈ secrets.keys := by
    simp only [List.find?_eq_none, isAbsent_iff, not_not]
  rw [← hfind]
  cases hresult : inCloud p role origins secrets with
  | error f =>
    obtain ⟨k, hk, -⟩ := (inCloud_eq_error_iff hs).1 hresult
    simp [hk]
  | ok vars =>
    refine iff_of_true ⟨vars, rfl⟩ (Option.eq_none_iff_forall_ne_some.2 fun k hk => ?_)
    have hfault : inCloud p role origins secrets = .error (.secretMissing k) := (inCloud_eq_error_iff hs).2 ⟨k, hk, rfl⟩
    rw [hresult] at hfault
    cases hfault

/-- what the dependencies define, where each of them has all that it needs -/
theorem deployed_of_layers {layers : List Variables}
    (h : List.Forall₂ (fun d layer => d.deployedVariables p secrets = .ok layer) l layers) :
    layers.map SortedMap.get? = l.map (deployed p secrets) := by
  induction h with
  | nil => rfl
  | cons hlayer _ ih => rw [List.map_cons, List.map_cons, ih, deployed, hlayer]

theorem get?_of_inCloud (hs : p.services.get? role = some s) (h : inCloud p role origins secrets = .ok vars)
    (k : String) : vars.get? k = highest (layersInCloud p role s origins secrets) k := by
  obtain ⟨s', layers, hs', hlayers, -, rfl⟩ := inCloud_eq_ok_iff.1 h
  cases hs.symm.trans hs'
  simp only [assembled, SortedMap.get?_merge, get?_insertAll_foundSecrets, get?_overlay, List.map_reverse,
    deployed_of_layers hlayers, layersInCloud, highest_append, highest_cons, highest_nil, Project.dependenciesOf,
    List.map_append, List.reverse_append, Option.or_assoc, Option.or_none]

/-! ### Secrets that are not needed -/

theorem overlayDependencies_congr (vars : Variables) (h : ∀ k ∈ passwords l, secrets.get? k = secrets'.get? k) :
    overlayDependencies p secrets vars l = overlayDependencies p secrets' vars l := by
  induction l generalizing vars with
  | nil => rfl
  | cons d l ih =>
    have hrest : ∀ k ∈ passwords l, secrets.get? k = secrets'.get? k := fun k hk => by
      refine h k ?_
      rw [passwords, List.filterMap_cons]
      split
      · exact hk
      · exact List.mem_cons_of_mem _ hk
    have hfirst : d.deployedVariables p secrets = d.deployedVariables p secrets' := by
      unfold Dependency.deployedVariables
      cases hpassword : d.passwordSecret? with
      | none => rfl
      | some e =>
        have hneeded : e.2 ∈ passwords (d :: l) := by simp [passwords, hpassword]
        simp only [h e.2 hneeded]
    simp only [overlayDependencies, hfirst, ih _ hrest]

theorem overlaySecrets_congr (vars : Variables) (h : ∀ k ∈ keys, secrets.get? k = secrets'.get? k) :
    overlaySecrets secrets vars keys = overlaySecrets secrets' vars keys := by
  induction keys generalizing vars with
  | nil => rfl
  | cons key keys ih =>
    obtain ⟨hfirst, hrest⟩ := List.forall_mem_cons.1 h
    simp only [overlaySecrets, hfirst, ih _ hrest]

/-- a service learns of no secret that it does not need -/
theorem inCloud_congr (hs : p.services.get? role = some s)
    (h : ∀ k ∈ neededSecrets p role s, secrets.get? k = secrets'.get? k) :
    inCloud p role origins secrets = inCloud p role origins secrets' := by
  obtain ⟨hpasswords, hdeclared⟩ := List.forall_mem_append.1 h
  have hservice : p.service role = .ok s := by rw [Project.service, hs]
  simp only [inCloud, hservice, overlayDependencies_congr _ hpasswords, overlaySecrets_congr _ hdeclared]

/-- **In the cloud the highest layer decides, and secrets have to be there.**
- A service that is there has an environment just if each secret that it needs is in the store.
- Otherwise the first of them that is absent is reported.
- In an environment, each name has the value that the highest layer gives it, and a name that no layer defines is not
  there.
- Stores that agree on the secrets that the service needs make no difference to it. -/
theorem inCloud_in_layers (hs : p.services.get? role = some s) :
    ((∃ vars, inCloud p role origins secrets = .ok vars) ↔ ∀ k ∈ neededSecrets p role s, k ∈ secrets.keys) ∧
    (∀ before k after, neededSecrets p role s = before ++ k :: after → (∀ j ∈ before, j ∈ secrets.keys) →
      k ∉ secrets.keys → inCloud p role origins secrets = .error (.secretMissing k)) ∧
    (∀ vars, inCloud p role origins secrets = .ok vars →
      ∀ k, vars.get? k = highest (layersInCloud p role s origins secrets) k) ∧
    ∀ secrets', (∀ k ∈ neededSecrets p role s, secrets.get? k = secrets'.get? k) →
      inCloud p role origins secrets = inCloud p role origins secrets' := by
  refine ⟨exists_inCloud_iff hs, ?_, fun vars h => get?_of_inCloud hs h, fun secrets' => inCloud_congr hs⟩
  intro before k after hneeded hbefore hk
  refine (inCloud_eq_error_iff hs).2 ⟨k, ?_, rfl⟩
  have hpresent : before.find? (isAbsent secrets) = none :=
    List.find?_eq_none.2 fun j hj habsent => isAbsent_iff.1 habsent (hbefore j hj)
  rw [hneeded, List.find?_append, hpresent, Option.none_or, List.find?_cons_of_pos (isAbsent_iff.2 hk)]

/-- The database's password is asked for first. What is set for the pages comes before it, and a secret that they do not
need does not reach them. -/
theorem overlapping_shop_in_cloud :
    inCloud overlappingShop "web" .empty .empty = .error (.secretMissing "db-password") ∧
    inCloud overlappingShop "web" .empty (.singleton "db-password" "hidden") = .error (.secretMissing "session-key") ∧
    ∃ vars, inCloud overlappingShop "web" .empty (.ofList [("db-password", "hidden"), ("session-key", "rusty")]) =
      .ok vars ∧
      vars.get? "PASSWORD" = some "guess" ∧ vars.get? "ROLE" = some "shop" ∧ vars.get? "session-key" = some "rusty" ∧
      vars.get? "db-password" = none ∧
      inCloud overlappingShop "web" .empty
        (.ofList [("db-password", "hidden"), ("other", "unseen"), ("session-key", "rusty")]) = .ok vars := by
  have hweb : (overlappingShop.services.get? "web").isSome = true := by decide +kernel
  obtain ⟨s, hs⟩ := Option.isSome_iff_exists.1 hweb
  have hneeded : neededSecrets overlappingShop "web" s = ["db-password", "session-key"] := by
    cases hs
    decide +kernel
  obtain ⟨-, hnothing, -, -⟩ := @inCloud_in_layers overlappingShop "web" s .empty .empty hs
  obtain ⟨-, hlocked, -, -⟩ := @inCloud_in_layers overlappingShop "web" s .empty (.singleton "db-password" "hidden") hs
  obtain ⟨hstocked, -, hlayers, hagree⟩ := @inCloud_in_layers overlappingShop "web" s .empty
    (.ofList [("db-password", "hidden"), ("session-key", "rusty")]) hs
  rw [hneeded] at hnothing hlocked hstocked hagree
  obtain ⟨vars, hvars⟩ := hstocked.2 (by decide +kernel)
  refine ⟨hnothing [] _ _ rfl (by simp) (by decide +kernel),
    hlocked ["db-password"] _ _ rfl (by decide +kernel) (by decide +kernel), vars, hvars, ?_, ?_, ?_, ?_,
    (hagree _ (by decide +kernel)).symm.trans hvars⟩
  all_goals
    rw [hlayers vars hvars]
    cases hs
    decide +kernel

end Environment

end Fleet
