/-
Origins: what the services of an application learn about each other.

A service learns the origins of the others under names that are made of theirs. Names are spelled in capitals there, so
names that differ in case alone come out as one.
- `mem_keys_ofProject_iff`: the services that have origins are those that listen.
- `internal_ne_of_ne`: no two of them have the same internal origin.
- `origins_are_known_iff`: a service learns all origins of the others, and nothing under its own name, just if no two of
  them are alike but for case.
- `web_is_taken_for_Web`: an application in which two are.
-/
import Fleet.Proofs.Endpoint.HostPort
import Fleet.Proofs.Lists
import Fleet.Proofs.Naming
import Fleet.Proofs.Project

namespace Fleet.Endpoints

open Naming

variable {p : Project} {m : Mode} {tier : Tier} {next : Port} {l : List (String × Service)} {e : Endpoints}
  {role other other' k v v' : String} {x x' : Endpoint}

/-! ## Services that listen -/

theorem mem_keys_ofProject_iff : role ∈ (ofProject p m).keys ↔
    ∃ s port, p.services.get? role = some s ∧ s.port m.tier = some port := by
  have hlisten : role ∈ (ofProject p m).keys ↔
      role ∈ (p.services.entries.filter fun e => (e.2.port m.tier).isSome).map Prod.fst := by
    rw [ofProject, SortedMap.mem_keys_ofList_iff]
    cases m.lifecycle with
    | onMachine => simp only [keys_onMachine]
    | inCloud =>
      simp only [List.mem_map, List.mem_filterMap, List.mem_filter, Option.map_eq_some_iff, Option.isSome_iff_exists]
      constructor
      · rintro ⟨_, ⟨entry, hentry, port, hport, rfl⟩, rfl⟩
        exact ⟨entry, ⟨hentry, port, hport⟩, rfl⟩
      · rintro ⟨entry, ⟨hentry, port, hport⟩, rfl⟩
        exact ⟨_, ⟨entry, hentry, port, hport, rfl⟩, rfl⟩
  rw [hlisten, List.mem_map]
  constructor
  · rintro ⟨⟨_, s⟩, hentry, rfl⟩
    obtain ⟨hs, hport⟩ := List.mem_filter.1 hentry
    obtain ⟨port, hport⟩ := Option.isSome_iff_exists.1 hport
    exact ⟨s, port, SortedMap.mem_entries_iff.1 hs, hport⟩
  · rintro ⟨s, port, hs, hport⟩
    exact ⟨(role, s), List.mem_filter.2 ⟨SortedMap.mem_entries_iff.2 hs, by simp [hport]⟩, rfl⟩

theorem internal_of_mem_onMachine (h : (role, x) ∈ onMachine tier next l) :
    x.internal = s!"http://{role}:{x.port.val}" := by
  induction l generalizing next with
  | nil => cases h
  | cons head l ih =>
    obtain ⟨name, s⟩ := head
    rw [onMachine] at h
    split at h
    · exact ih h
    · split at h <;>
      · rcases List.mem_cons.1 h with heq | h
        · cases heq
          rfl
        · exact ih h

/-- the name of a service stands in its internal origin, up to a colon or a dot -/
theorem exists_internal (h : (ofProject p m).get? role = some x) :
    ∃ c rest, (c = ':' ∨ c = '.') ∧ x.internal.toList = "http://".toList ++ (role.toList ++ c :: rest) := by
  have hmem := SortedMap.mem_of_get?_ofList h
  cases hlifecycle : m.lifecycle with
  | onMachine =>
    rw [hlifecycle] at hmem
    refine ⟨':', (toString x.port.val).toList, .inl rfl, ?_⟩
    rw [internal_of_mem_onMachine hmem]
    simp [toString]
  | inCloud =>
    rw [hlifecycle] at hmem
    obtain ⟨⟨_, s⟩, _, hentry⟩ := List.mem_filterMap.1 hmem
    obtain ⟨port, _, hpair⟩ := Option.map_eq_some_iff.1 hentry
    cases hpair
    refine ⟨'.', (p.name ++ ".local:" ++ toString port.val).toList, .inr rfl, ?_⟩
    simp [inCloud, toString]

/-- services with accepted names are reached in different places -/
theorem internal_ne_of_ne (hnames : ∀ name ∈ p.services.keys, isHyphenated false name = true)
    (hx : (ofProject p m).get? other = some x) (hx' : (ofProject p m).get? other' = some x') (hne : other ≠ other') :
    x.internal ≠ x'.internal := by
  intro hsame
  have hname (name : String) (y : Endpoint) (hy : (ofProject p m).get? name = some y) (c : Char)
      (hc : c = ':' ∨ c = '.') : c ∉ name.toList := by
    obtain ⟨s, _, hs, _⟩ := mem_keys_ofProject_iff.1 (SortedMap.mem_keys_iff.2 ⟨y, hy⟩)
    intro hin
    have hchar := mem_of_isHyphenated (hnames name (SortedMap.mem_keys_iff.2 ⟨s, hs⟩)) hin
    rcases hc with rfl | rfl <;> rcases hchar with hchar | hchar <;> cases hchar
  obtain ⟨c, rest, hc, hinternal⟩ := exists_internal hx
  obtain ⟨c', rest', hc', hinternal'⟩ := exists_internal hx'
  rw [hsame, hinternal', List.append_cancel_left_eq] at hinternal
  exact hne (String.toList_inj.1 (front_unique (hname _ _ hx' _ hc) (hname _ _ hx _ hc') hinternal).symm)

/-! ## Names of variables -/

/-- the variable of a service's internal origin -/
def internalName (role : String) : String := variableStem role ++ "_INTERNAL_ORIGIN"

/-- the variable of a service's external origin -/
def externalName (role : String) : String := variableStem role ++ "_EXTERNAL_ORIGIN"

theorem internalName_eq_iff : internalName other = internalName other' ↔ variableStem other = variableStem other' := by
  simp [internalName]

theorem externalName_eq_iff : externalName other = externalName other' ↔ variableStem other = variableStem other' := by
  simp [externalName]

theorem internalName_ne_externalName (other other' : String) : internalName other ≠ externalName other' := by
  intro h
  have hlists := congrArg String.toList h
  simp only [internalName, externalName, String.toList_append] at hlists
  have hends := (List.append_inj' hlists (by decide)).2
  revert hends
  decide

theorem mem_originVariables_iff : (k, v) ∈ originVariables other x ↔
    (k = internalName other ∧ v = x.internal) ∨ (k = externalName other ∧ x.external = some v) := by
  cases hexternal : x.external <;> simp [originVariables, internalName, externalName, hexternal, eq_comm]

/-- a name of a service's variable gives away the stem of its name -/
theorem variableStem_eq_of_name (h : (k, v) ∈ originVariables other x)
    (hk : k = internalName role ∨ k = externalName role) : variableStem other = variableStem role := by
  rcases mem_originVariables_iff.1 h with ⟨rfl, -⟩ | ⟨rfl, -⟩ <;> rcases hk with hk | hk
  · exact internalName_eq_iff.1 hk
  · exact absurd hk (internalName_ne_externalName _ _)
  · exact absurd hk.symm (internalName_ne_externalName _ _)
  · exact externalName_eq_iff.1 hk

theorem variableStem_eq_of_mem (h : (k, v) ∈ originVariables other x) (h' : (k, v') ∈ originVariables other' x') :
    variableStem other = variableStem other' :=
  variableStem_eq_of_name h ((mem_originVariables_iff.1 h').imp And.left And.left)

/-- what is written for one service under one name is one thing -/
theorem value_unique (h : (k, v) ∈ originVariables other x) (h' : (k, v') ∈ originVariables other x) : v = v' := by
  rcases mem_originVariables_iff.1 h with ⟨rfl, rfl⟩ | ⟨rfl, hv⟩ <;>
    rcases mem_originVariables_iff.1 h' with ⟨hname, hv'⟩ | ⟨hname, hv'⟩
  · exact hv'.symm
  · exact absurd hname (internalName_ne_externalName _ _)
  · exact absurd hname.symm (internalName_ne_externalName _ _)
  · exact Option.some.inj (hv.symm.trans hv')

/-! ## What a service learns -/

/-- the service is another one that listens, and this is its endpoint -/
def Other (e : Endpoints) (role other : String) (x : Endpoint) : Prop := other ≠ role ∧ e.get? other = some x

theorem mem_written_iff : (k, v) ∈ (e.entries.filter fun x => x.1 ≠ role).flatMap (fun x => originVariables x.1 x.2) ↔
    ∃ other x, Other e role other x ∧ (k, v) ∈ originVariables other x := by
  simp only [List.mem_flatMap, List.mem_filter, Prod.exists, SortedMap.mem_entries_iff, Other, decide_eq_true_eq,
    and_comm, ne_eq]

/-- nothing is learnt but origins of others -/
theorem of_get?_variablesFor (h : (e.variablesFor role).get? k = some v) :
    ∃ other x, Other e role other x ∧ (k, v) ∈ originVariables other x :=
  mem_written_iff.1 (SortedMap.mem_of_get?_ofList h)

/-- under the name of an origin, some origin is learnt -/
theorem exists_get?_variablesFor (h : Other e role other x) (hv : (k, v) ∈ originVariables other x) :
    ∃ v', (e.variablesFor role).get? k = some v' :=
  SortedMap.exists_get?_ofList (List.mem_map_of_mem (mem_written_iff.2 ⟨other, x, h, hv⟩))

/-- where stems tell the others apart, nothing is overwritten -/
theorem get?_variablesFor_of_apart
    (hapart : ∀ other other' x x', Other e role other x → Other e role other' x' →
      variableStem other = variableStem other' → other = other')
    (h : Other e role other x) (hv : (k, v) ∈ originVariables other x) : (e.variablesFor role).get? k = some v := by
  obtain ⟨v', hv'⟩ := exists_get?_variablesFor h hv
  obtain ⟨other', x', h', hwritten⟩ := of_get?_variablesFor hv'
  obtain rfl := hapart _ _ _ _ h h' (variableStem_eq_of_mem hv hwritten)
  cases h.2.symm.trans h'.2
  rw [hv', value_unique hv hwritten]

/-- the others that listen have different names, also when case does not count -/
def Apart (e : Endpoints) (role : String) : Prop :=
  ∀ other ∈ e.keys, ∀ other' ∈ e.keys, other ≠ role → other' ≠ role → other ≠ other' → ¬ AlikeButForCase other other'

/-- all origins of the others are learnt, each under the name that is made of its service's name, and nothing else -/
structure Told (e : Endpoints) (role : String) : Prop where
  internal : ∀ other x, Other e role other x → (e.variablesFor role).get? (internalName other) = some x.internal
  external : ∀ other x origin, Other e role other x → x.external = some origin →
    (e.variablesFor role).get? (externalName other) = some origin
  others : ∀ k ∈ (e.variablesFor role).keys, ∃ other x, Other e role other x ∧
    (k = internalName other ∨ k = externalName other ∧ x.external.isSome = true)

/-- nothing is written under one name for two of the others -/
def Separate (e : Endpoints) (role : String) : Prop :=
  ∀ other other' x x', Other e role other x → Other e role other' x' → other ≠ other' →
    ∀ k v v', (k, v) ∈ originVariables other x → (k, v') ∉ originVariables other' x'

/-- nothing is learnt under the service's own name -/
def OwnUnsaid (e : Endpoints) (role : String) : Prop :=
  internalName role ∉ (e.variablesFor role).keys ∧ externalName role ∉ (e.variablesFor role).keys

section Accepted

variable (hnames : ∀ name ∈ p.services.keys, isHyphenated false name = true)
include hnames

theorem isHyphenated_of_other (h : Other (ofProject p m) role other x) : isHyphenated false other = true := by
  obtain ⟨s, _, hs, _⟩ := mem_keys_ofProject_iff.1 (SortedMap.mem_keys_iff.2 ⟨x, h.2⟩)
  exact hnames other (SortedMap.mem_keys_iff.2 ⟨s, hs⟩)

theorem eq_of_apart (hapart : (ofProject p m).Apart role) (h : Other (ofProject p m) role other x)
    (h' : Other (ofProject p m) role other' x') (hstem : variableStem other = variableStem other') :
    other = other' := by
  by_contra hne
  refine hapart other (SortedMap.mem_keys_iff.2 ⟨x, h.2⟩) other' (SortedMap.mem_keys_iff.2 ⟨x', h'.2⟩) h.1 h'.1 hne ?_
  exact (variableStem_eq_iff (isHyphenated_of_other hnames h) (isHyphenated_of_other hnames h')).1 hstem

/-- of two others that are alike but for case, one is not told -/
theorem told_iff : (ofProject p m).Told role ↔ (ofProject p m).Apart role := by
  constructor
  · intro htold other hother other' hother' hrole hrole' hne halike
    obtain ⟨x, hx⟩ := SortedMap.mem_keys_iff.1 hother
    obtain ⟨x', hx'⟩ := SortedMap.mem_keys_iff.1 hother'
    have hstem := (variableStem_eq_iff (isHyphenated_of_other hnames ⟨hrole, hx⟩)
      (isHyphenated_of_other hnames ⟨hrole', hx'⟩)).2 halike
    have hinternal := htold.internal other x ⟨hrole, hx⟩
    rw [internalName_eq_iff.2 hstem, htold.internal other' x' ⟨hrole', hx'⟩] at hinternal
    exact internal_ne_of_ne hnames hx hx' hne (Option.some.inj hinternal).symm
  · intro hapart
    have hget {k v other : String} {x : Endpoint} (h : Other (ofProject p m) role other x)
        (hv : (k, v) ∈ originVariables other x) : ((ofProject p m).variablesFor role).get? k = some v :=
      get?_variablesFor_of_apart (fun _ _ _ _ => eq_of_apart hnames hapart) h hv
    refine ⟨fun other x h => ?_, fun other x origin h hexternal => ?_, fun k hk => ?_⟩
    · exact hget h (mem_originVariables_iff.2 (.inl ⟨rfl, rfl⟩))
    · exact hget h (mem_originVariables_iff.2 (.inr ⟨rfl, hexternal⟩))
    · obtain ⟨v, hv⟩ := SortedMap.mem_keys_iff.1 hk
      obtain ⟨other, x, h, hwritten⟩ := of_get?_variablesFor hv
      refine ⟨other, x, h, (mem_originVariables_iff.1 hwritten).imp And.left fun hexternal => ⟨hexternal.1, ?_⟩⟩
      rw [hexternal.2, Option.isSome_some]

theorem separate_iff : (ofProject p m).Separate role ↔ (ofProject p m).Apart role := by
  constructor
  · intro hseparate other hother other' hother' hrole hrole' hne halike
    obtain ⟨x, hx⟩ := SortedMap.mem_keys_iff.1 hother
    obtain ⟨x', hx'⟩ := SortedMap.mem_keys_iff.1 hother'
    have hstem := (variableStem_eq_iff (isHyphenated_of_other hnames ⟨hrole, hx⟩)
      (isHyphenated_of_other hnames ⟨hrole', hx'⟩)).2 halike
    refine hseparate other other' x x' ⟨hrole, hx⟩ ⟨hrole', hx'⟩ hne (internalName other) x.internal x'.internal
      (mem_originVariables_iff.2 (.inl ⟨rfl, rfl⟩)) (mem_originVariables_iff.2 (.inl ⟨?_, rfl⟩))
    exact internalName_eq_iff.2 hstem
  · intro hapart other other' x x' h h' hne k v v' hwritten hwritten'
    exact hne (eq_of_apart hnames hapart h h' (variableStem_eq_of_mem hwritten hwritten'))

theorem ownUnsaid_iff (hrole : isHyphenated false role = true) : (ofProject p m).OwnUnsaid role ↔
    ∀ other ∈ (ofProject p m).keys, other ≠ role → ¬ AlikeButForCase other role := by
  constructor
  · rintro ⟨hinternal, -⟩ other hother hne halike
    obtain ⟨x, hx⟩ := SortedMap.mem_keys_iff.1 hother
    have hstem := (variableStem_eq_iff (isHyphenated_of_other hnames ⟨hne, hx⟩) hrole).2 halike
    refine hinternal (SortedMap.mem_keys_iff.2 ?_)
    exact exists_get?_variablesFor ⟨hne, hx⟩
      (mem_originVariables_iff.2 (.inl ⟨(internalName_eq_iff.2 hstem).symm, rfl⟩))
  · intro hapart
    have hunsaid (k : String) (hk : k = internalName role ∨ k = externalName role) :
        k ∉ ((ofProject p m).variablesFor role).keys := by
      intro hin
      obtain ⟨v, hv⟩ := SortedMap.mem_keys_iff.1 hin
      obtain ⟨other, x, h, hwritten⟩ := of_get?_variablesFor hv
      refine hapart other (SortedMap.mem_keys_iff.2 ⟨x, h.2⟩) h.1 ?_
      exact (variableStem_eq_iff (isHyphenated_of_other hnames h) hrole).1 (variableStem_eq_of_name hwritten hk)
    exact ⟨hunsaid _ (.inl rfl), hunsaid _ (.inr rfl)⟩

/-- **When a service learns the origins of the others**, in an application whose roles have accepted names, in every
mode.
- The services that have origins are those that listen.
- Everything is learnt, and nothing else, just if no two of the others that listen are alike but for case.
- Just then, nothing is overwritten.
- Nothing is learnt under the service's own name just if none of the others that listen is like it but for case. -/
theorem origins_are_known_iff (hrole : isHyphenated false role = true) :
    (∀ other, other ∈ (ofProject p m).keys ↔ ∃ s port, p.services.get? other = some s ∧ s.port m.tier = some port) ∧
    ((ofProject p m).Told role ↔ (ofProject p m).Apart role) ∧
    ((ofProject p m).Separate role ↔ (ofProject p m).Apart role) ∧
    ((ofProject p m).OwnUnsaid role ↔ ∀ other ∈ (ofProject p m).keys, other ≠ role → ¬ AlikeButForCase other role) :=
  ⟨fun _ => mem_keys_ofProject_iff, told_iff hnames, separate_iff hnames, ownUnsaid_iff hnames hrole⟩

end Accepted

/-- the store of the shop learns the origins of the other two that listen -/
theorem store_knows_the_others : (∀ name ∈ frontShop.services.keys, isHyphenated false name = true) ∧
    isHyphenated false "store" = true ∧ (ofProject frontShop .localDevelopment).Told "store" ∧
    (ofProject frontShop .localDevelopment).Separate "store" ∧
    (ofProject frontShop .localDevelopment).OwnUnsaid "store" ∧
    ((ofProject frontShop .localDevelopment).variablesFor "store").get? "API_EXTERNAL_ORIGIN" =
    some "http://localhost:3000" ∧ ((ofProject frontShop .localDevelopment).variablesFor "store").keys =
      ["API_EXTERNAL_ORIGIN", "API_INTERNAL_ORIGIN", "JOBS_INTERNAL_ORIGIN"] := by
  have hnames : ∀ name ∈ frontShop.services.keys, isHyphenated false name = true := by decide +kernel
  have hrole : isHyphenated false "store" = true := by decide +kernel
  have hapart : (ofProject frontShop .localDevelopment).Apart "store" := by unfold Apart; decide +kernel
  obtain ⟨-, htold, hseparate, hown⟩ := origins_are_known_iff (m := .localDevelopment) hnames hrole
  exact ⟨hnames, hrole, htold.2 hapart, hseparate.2 hapart, hown.2 (by decide +kernel), by decide +kernel,
    by decide +kernel⟩

/-! ## A shop with a service for pages that are new, and one for pages that are old -/

/-- the files of a shop with services called `Web` and `web` -/
def twinFiles : List (String × String) := [
  ("./application.yml", "\n".intercalate [
    "name: shop",
    "services:",
    "  Web:",
    "    location: new",
    "  api:",
    "    location: api",
    "  web:",
    "    location: old"]),
  ("./new/service.yml", "\n".intercalate ["development:", "  port: 81"]),
  ("./api/service.yml", "\n".intercalate ["development:", "  port: 9090"]),
  ("./old/service.yml", "\n".intercalate ["development:", "  port: 82"])]

def twinShop : Project where
  dir := "."
  application := {
    name := "shop"
    services := .ofList [("Web", { location := some "new" }), ("api", { location := some "api" }),
      ("web", { location := some "old" })] }
  services := .ofList [("Web", { developmentPort := some ⟨81, by decide⟩ }),
    ("api", { developmentPort := some ⟨9090, by decide⟩ }), ("web", { developmentPort := some ⟨82, by decide⟩ })]

open Dialogue in
/-- the new pages are taken for the old ones: the other service learns of the old ones alone, and the new ones learn
about themselves what is true of the old ones -/
theorem web_is_taken_for_Web : ¬ ∀ (dir : String) (reads : List (Exchange Machine.Request Machine.Request.Answer))
    (p : Project) (m : Mode) (role : String), (Project.load dir).Play reads (.ok p) → role ∈ p.roles →
      (ofProject p m).Told role ∧ (ofProject p m).Separate role ∧ (ofProject p m).OwnUnsaid role := by
  intro h
  have hread := play_run (Project.holding twinFiles) (Project.load ".") {}
  have hloaded : ((Project.load ".").run (Project.holding twinFiles) {}).1 = .ok twinShop := by decide +kernel
  rw [hloaded] at hread
  obtain ⟨htold, -⟩ := h _ _ twinShop .localDevelopment "api" hread (by decide +kernel)
  have hnew : (ofProject twinShop .localDevelopment).get? "Web" =
      some ⟨⟨81, by decide⟩, "http://Web:81", none, none⟩ := by decide +kernel
  have hlearnt := htold.internal "Web" _ ⟨by decide, hnew⟩
  have hold : ((ofProject twinShop .localDevelopment).variablesFor "api").get? (internalName "Web") =
      some "http://web:82" := by
    decide +kernel
  rw [hold] at hlearnt
  exact absurd hlearnt (by decide)

end Fleet.Endpoints
