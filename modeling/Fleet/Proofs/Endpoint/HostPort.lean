/-
Host ports of services on a machine.

Host ports are handed out while the services are gone through, from a counter that stops at the last port.
- `exposed_onMachine`: the services with a host port are the public ones that listen, in their order, and each has the
  port that its position among them gives it.
- `host_ports_are_counted_up`: so no two of them share a host port just if there are at most as many as there are ports
  from the first one on.
-/
import Fleet.Endpoint
import Fleet.Proofs.SortedMap

namespace Fleet

/-- the public services of these that listen, with their ports -/
def exposedOf (tier : Tier) (l : List (String × Service)) : List (String × Port) :=
  l.filterMap fun e => if e.2.reach = .everyone then (e.2.port tier).map fun port => (e.1, port) else none

/-- the public services that listen, in ascending role order, with their ports -/
def Project.exposed (p : Project) (tier : Tier) : List (String × Port) := exposedOf tier p.services.entries

namespace Endpoints

variable {p : Project} {tier : Tier} {mount : Bool} {next port : Port} {l : List (String × Service)} {role : String}
  {x : Endpoint} {k : Nat}

/-! ## Counting -/

/-- the port that is `k` behind, or the last one -/
def portBehind (next : Port) (k : Nat) : Port := ⟨min (next.val + k) 65535, by omega⟩

theorem val_nextPort (next : Port) : (nextPort next).val = min (next.val + 1) 65535 := by
  rw [nextPort]
  split
  · exact (Nat.min_eq_left (by omega)).symm
  · omega

theorem portBehind_zero (next : Port) : portBehind next 0 = next := Fin.ext (Nat.min_eq_left (by omega))

theorem portBehind_nextPort (next : Port) (k : Nat) : portBehind (nextPort next) k = portBehind next (k + 1) := by
  have hbehind : min ((nextPort next).val + k) 65535 = min (next.val + (k + 1)) 65535 := by
    rw [val_nextPort]
    omega
  exact Fin.ext hbehind

/-- the endpoint of the public service in this position -/
def exposedEndpoint (next : Port) (k : Nat) (e : String × Port) : Endpoint :=
  ⟨e.2, s!"http://{e.1}:{e.2.val}", some s!"http://localhost:{(portBehind next k).val}", some (portBehind next k)⟩

theorem exposedEndpoint_nextPort (next : Port) (k : Nat) (e : String × Port) :
    exposedEndpoint (nextPort next) k e = exposedEndpoint next (k + 1) e := by
  rw [exposedEndpoint, exposedEndpoint, portBehind_nextPort]

/-! ## Going through the services -/

/-- **The services with a host port are the public ones that listen**, and each has the port of its position. -/
theorem exposed_onMachine (tier : Tier) (next : Port) (l : List (String × Service)) :
    (onMachine tier next l).filter (fun e => e.2.hostPort.isSome) =
      (exposedOf tier l).mapIdx fun k e => (e.1, exposedEndpoint next k e) := by
  induction l generalizing next with
  | nil => rfl
  | cons head l ih =>
    obtain ⟨role, s⟩ := head
    rw [onMachine, exposedOf, List.filterMap_cons]
    cases hport : s.port tier with
    | none =>
      simp only [Option.map_none, ite_self]
      exact ih next
    | some port =>
      cases hreach : s.reach with
      | worker => simpa [exposedOf] using ih next
      | everyone =>
        simp only [if_true, Option.map_some, List.mapIdx_cons, ← exposedEndpoint_nextPort]
        rw [List.filter_cons_of_pos rfl, ih]
        simp only [exposedEndpoint, portBehind_zero, exposedOf]

/-- the endpoints are those of the services that listen -/
theorem keys_onMachine (tier : Tier) (next : Port) (l : List (String × Service)) :
    (onMachine tier next l).map Prod.fst = (l.filter fun e => (e.2.port tier).isSome).map Prod.fst := by
  induction l generalizing next with
  | nil => rfl
  | cons head l ih =>
    obtain ⟨role, s⟩ := head
    rw [onMachine]
    cases hport : s.port tier with
    | none => rw [List.filter_cons_of_neg (by simp [hport]), ih]
    | some port =>
      rw [List.filter_cons_of_pos (by simp [hport])]
      cases s.reach <;> simp only [List.map_cons, ih]

/-- nothing is lost when the endpoints become a map -/
theorem get?_ofProject_onMachine_iff :
    (ofProject p ⟨.onMachine, tier, mount⟩).get? role = some x ↔
      (role, x) ∈ onMachine tier firstHostPort p.services.entries := by
  have hnodup : ((onMachine tier firstHostPort p.services.entries).map Prod.fst).Nodup :=
    keys_onMachine tier firstHostPort _ ▸ (SortedMap.nodup_keys p.services).sublist (List.filter_sublist.map _)
  rw [ofProject, SortedMap.get?_ofList, SortedMap.lookupEntry_reverse hnodup]
  exact ⟨SortedMap.mem_entries_of_lookupEntry, SortedMap.lookupEntry_of_mem hnodup⟩

/-- a service has a host port just if it has a position among the public ones that listen -/
theorem exists_hostPort_iff :
    ((ofProject p ⟨.onMachine, tier, mount⟩).get? role = some x ∧ x.hostPort.isSome = true) ↔
      ∃ k port, (p.exposed tier)[k]? = some (role, port) ∧ x = exposedEndpoint firstHostPort k (role, port) := by
  have hfilter : ((ofProject p ⟨.onMachine, tier, mount⟩).get? role = some x ∧ x.hostPort.isSome = true) ↔
      (role, x) ∈ (p.exposed tier).mapIdx fun k e => (e.1, exposedEndpoint firstHostPort k e) := by
    rw [get?_ofProject_onMachine_iff, Project.exposed, ← exposed_onMachine, List.mem_filter]
  rw [hfilter, List.mem_mapIdx]
  constructor
  · rintro ⟨k, hk, heq⟩
    obtain ⟨rfl, rfl⟩ := Prod.mk.inj heq
    exact ⟨k, _, List.getElem?_eq_getElem hk, rfl⟩
  · rintro ⟨k, port, hposition, rfl⟩
    obtain ⟨hk, heq⟩ := List.getElem?_eq_some_iff.1 hposition
    exact ⟨k, hk, by rw [heq]⟩

theorem keys_exposedOf_sublist (tier : Tier) (l : List (String × Service)) :
    ((exposedOf tier l).map Prod.fst).Sublist (l.map Prod.fst) := by
  induction l with
  | nil => exact List.Sublist.refl _
  | cons head l ih =>
    rw [exposedOf, List.filterMap_cons]
    split
    · exact ih.cons _
    · rename_i e he
      split at he
      · obtain ⟨_, _, rfl⟩ := Option.map_eq_some_iff.1 he
        exact ih.cons_cons _
      · cases he

theorem ascending_exposed (p : Project) (tier : Tier) : ((p.exposed tier).map Prod.fst).Pairwise (· < ·) :=
  p.services.ascending_keys.sublist (keys_exposedOf_sublist tier _)

theorem mem_exposed_iff : (role, port) ∈ p.exposed tier ↔
    ∃ s, p.services.get? role = some s ∧ s.reach = .everyone ∧ s.port tier = some port := by
  simp only [Project.exposed, exposedOf, List.mem_filterMap, ← SortedMap.mem_entries_iff]
  constructor
  · rintro ⟨⟨_, s⟩, hs, h⟩
    split at h
    · rename_i hreach
      obtain ⟨_, hport, hpair⟩ := Option.map_eq_some_iff.1 h
      cases hpair
      exact ⟨s, hs, hreach, hport⟩
    · cases h
  · rintro ⟨s, hs, hreach, hport⟩
    exact ⟨(role, s), hs, by rw [if_pos hreach, hport, Option.map_some]⟩

/-! ## Published ports -/

/-- **A service is published just if it has a position among the public ones that listen**, which gives it its host
port. -/
theorem portMapping_eq_some_iff {text : String} :
    (ofProject p ⟨.onMachine, tier, mount⟩).portMapping role = some text ↔
      ∃ k port, (p.exposed tier)[k]? = some (role, port) ∧ text = s!"{min (3000 + k) 65535}:{port.val}" := by
  simp only [portMapping, Option.bind_eq_some_iff, Option.map_eq_some_iff]
  constructor
  · rintro ⟨x, hget, host, hhost, rfl⟩
    obtain ⟨k, port, hposition, rfl⟩ := exists_hostPort_iff.1 ⟨hget, by rw [hhost, Option.isSome_some]⟩
    cases hhost
    exact ⟨k, port, hposition, rfl⟩
  · rintro ⟨k, port, hposition, rfl⟩
    obtain ⟨hget, -⟩ := exists_hostPort_iff.2 ⟨k, port, hposition, rfl⟩
    exact ⟨_, hget, _, rfl, rfl⟩

/-- services that are published have different host ports -/
def HostPortsDiffer (e : Endpoints) : Prop :=
  ∀ role role' x x' host, role ≠ role' → e.get? role = some x → e.get? role' = some x' → x.hostPort = some host →
    x'.hostPort ≠ some host

/-- the counter stops in position 62535, and whoever comes behind shares the last port -/
theorem hostPortsDiffer_iff :
    (ofProject p ⟨.onMachine, tier, mount⟩).HostPortsDiffer ↔ (p.exposed tier).length ≤ 62536 := by
  constructor
  · intro hdiffer
    by_contra hmany
    have hlast : 62535 < (p.exposed tier).length := by omega
    have hbehind : 62536 < (p.exposed tier).length := by omega
    have hlt : (p.exposed tier)[62535].1 < (p.exposed tier)[62536].1 :=
      List.pairwise_iff_getElem.1 (List.pairwise_map.1 (ascending_exposed p tier)) _ _ hlast hbehind (by decide)
    have hget (k : Nat) (hk : k < (p.exposed tier).length) :
        (ofProject p ⟨.onMachine, tier, mount⟩).get? (p.exposed tier)[k].1 =
          some (exposedEndpoint firstHostPort k (p.exposed tier)[k]) :=
      (exists_hostPort_iff.2 ⟨k, _, List.getElem?_eq_getElem hk, rfl⟩).1
    have hcounted : portBehind firstHostPort 62536 = portBehind firstHostPort 62535 := Fin.ext (by decide)
    refine hdiffer _ _ _ _ _ (fun hsame => ?_) (hget _ hlast) (hget _ hbehind) rfl (congrArg some hcounted)
    rw [hsame] at hlt
    exact String.lt_irrefl _ hlt
  · intro hfew role role' x x' host hne hget hget' hhost hhost'
    obtain ⟨k, port, hposition, rfl⟩ := exists_hostPort_iff.1 ⟨hget, by rw [hhost, Option.isSome_some]⟩
    obtain ⟨k', port', hposition', rfl⟩ := exists_hostPort_iff.1 ⟨hget', by rw [hhost', Option.isSome_some]⟩
    obtain ⟨hk, -⟩ := List.getElem?_eq_some_iff.1 hposition
    obtain ⟨hk', -⟩ := List.getElem?_eq_some_iff.1 hposition'
    have hports : min (3000 + k) 65535 = min (3000 + k') 65535 :=
      congrArg Fin.val (Option.some.inj (hhost.trans hhost'.symm))
    obtain rfl : k = k' := by omega
    rw [hposition] at hposition'
    cases hposition'
    exact hne rfl

theorem portMapping_inCloud (p : Project) (tier : Tier) (mount : Bool) (role : String) :
    (ofProject p ⟨.inCloud, tier, mount⟩).portMapping role = none := by
  cases hget : (ofProject p ⟨.inCloud, tier, mount⟩).get? role with
  | none => rw [portMapping, hget, Option.bind_none]
  | some x =>
    obtain ⟨⟨_, s⟩, _, h⟩ := List.mem_filterMap.1 (SortedMap.mem_of_get?_ofList hget)
    obtain ⟨port, _, hpair⟩ := Option.map_eq_some_iff.1 h
    cases hpair
    rw [portMapping, hget]
    rfl

/-- **Host ports are counted up from 3000**, on a machine, in every tier.
- They are for the public services that listen, in ascending role order.
- The one in position `k` is published from host port 3000 + `k` to its own port, or from the last port if there is no
  such one; others are not published and take no position.
- Its external origin has the same host port.
- Host ports differ just if at most 62536 public services listen.
- In the cloud nothing is published. -/
theorem host_ports_are_counted_up (p : Project) (tier : Tier) (mount : Bool) :
    ((p.exposed tier).map Prod.fst).Pairwise (· < ·) ∧
    (∀ role port, (role, port) ∈ p.exposed tier ↔
      ∃ s, p.services.get? role = some s ∧ s.reach = .everyone ∧ s.port tier = some port) ∧
    (∀ role text, (ofProject p ⟨.onMachine, tier, mount⟩).portMapping role = some text ↔
      ∃ k port, (p.exposed tier)[k]? = some (role, port) ∧ text = s!"{min (3000 + k) 65535}:{port.val}") ∧
    (∀ k role port, (p.exposed tier)[k]? = some (role, port) →
      ∃ x host, (ofProject p ⟨.onMachine, tier, mount⟩).get? role = some x ∧ x.hostPort = some host ∧
        host.val = min (3000 + k) 65535 ∧ x.external = some s!"http://localhost:{min (3000 + k) 65535}") ∧
    ((ofProject p ⟨.onMachine, tier, mount⟩).HostPortsDiffer ↔ (p.exposed tier).length ≤ 62536) ∧
    ∀ role, (ofProject p ⟨.inCloud, tier, mount⟩).portMapping role = none := by
  refine ⟨ascending_exposed p tier, fun role port => mem_exposed_iff, fun role text => portMapping_eq_some_iff, ?_,
    hostPortsDiffer_iff, portMapping_inCloud p tier mount⟩
  intro k role port hposition
  obtain ⟨hget, -⟩ := exists_hostPort_iff.2 ⟨k, port, hposition, rfl⟩
  exact ⟨_, _, hget, rfl, rfl, rfl⟩

/-- a shop with two public services that listen, one that does not, and one that is not public -/
def frontShop : Project where
  dir := "."
  application := {
    name := "shop"
    services := .ofList [("api", { location := some "api" }), ("jobs", { location := some "jobs" }),
      ("pages", { location := some "pages" }), ("store", { location := some "store" })] }
  services := .ofList [
    ("api", { reach := .everyone, developmentPort := some ⟨8080, by decide⟩ }),
    ("jobs", { developmentPort := some ⟨9000, by decide⟩ }),
    ("pages", { reach := .everyone, productionPort := some ⟨8000, by decide⟩ }),
    ("store", { reach := .everyone, developmentPort := some ⟨8080, by decide⟩ })]

/-- neither the pages, which do not listen while they are developed, nor the jobs take a host port -/
theorem store_follows_api : frontShop.exposed .development =
    [("api", ⟨8080, by decide⟩), ("store", ⟨8080, by decide⟩)] ∧
    (ofProject frontShop .localDevelopment).portMapping "store" = some "3001:8080" ∧
    (ofProject frontShop .localDevelopment).portMapping "jobs" = none ∧
    (∃ x, (ofProject frontShop .localDevelopment).get? "store" = some x ∧ x.external = some "http://localhost:3001") ∧
    (ofProject frontShop .localDevelopment).HostPortsDiffer := by
  have hexposed : frontShop.exposed .development = [("api", ⟨8080, by decide⟩), ("store", ⟨8080, by decide⟩)] := by
    decide +kernel
  obtain ⟨-, -, hmapping, horigin, hdiffer, -⟩ := host_ports_are_counted_up frontShop .development true
  rw [hexposed] at hmapping horigin hdiffer
  refine ⟨hexposed, (hmapping "store" _).2 ⟨1, _, rfl, by decide +kernel⟩, ?_, ?_, hdiffer.2 (by decide)⟩
  · refine Option.eq_none_iff_forall_ne_some.2 fun text htext => ?_
    obtain ⟨k, port, hposition, -⟩ := (hmapping "jobs" text).1 htext
    have hmem := List.mem_of_getElem? hposition
    simp at hmem
  · obtain ⟨x, _, hget, -, -, hexternal⟩ := horigin 1 "store" _ rfl
    exact ⟨x, hget, hexternal⟩

end Endpoints

end Fleet
