/-
Bringing a composition up is all or nothing.

- `startAll_cases`: components are started one after the other until one of them fails; then everything started so far
  is taken down again.
- `up_cases`: before there is a network, listed containers that have the name of a component are stopped and removed
  (`clearing`), and nothing else happens (`sweep_cases`).
- `up_all_or_nothing`: a run ends before there is a network and has started nothing, or it has started every component,
  or it has taken down all that it started, with the fault of the component that failed.
-/
import Fleet.Proofs.Local.Stack
import Fleet.Rehearsal

namespace Fleet.Stack

open Dialogue

variable {p : Project} {c : Composition} {network name : String} {s s' : Stack} {order names : List String}
  {es : List Asked} {r : Except LocalFault Stack}

/-! ## What a run leaves behind -/

/-- how a component is started on a network, if the composition has it -/
def launch? (c : Composition) (network name : String) : Option Launch :=
  (c.services.get? name).map fun spec => (spec.runName name, prepared network name spec, some network)

/-- the containers of these components were started, in this order, and nothing was stopped -/
structure Started (c : Composition) (network : String) (names : List String) (es : List Asked) : Prop where
  launched : (launches es).map some = names.map (launch? c network)
  quiet : ∀ e ∈ es, e.1.BringsUp

/-- one of the components failed to start, and all those before it were taken down again -/
def RolledBack (c : Composition) (network : String) (order : List String) (f : LocalFault) (es : List Asked) : Prop :=
  ∃ before name after work own down, order = before ++ name :: after ∧ es = work ++ own ++ down ∧
    Started c network before work ∧ StartFailure c name own f ∧ Started c network [] own ∧
    TakenDown network ((launches work).map Prod.fst).reverse down

/-- leftovers were looked for and removed; at most, making the network failed -/
def Unbegun (network : String) (es : List Asked) : Prop :=
  ∀ e ∈ es, e.1.Sweeps ∨ ∃ f, e = ⟨.call (.createNetwork network), .error f⟩

theorem Started.append {names' : List String} {es' : List Asked} (h : Started c network names es)
    (h' : Started c network names' es') : Started c network (names ++ names') (es ++ es') := by
  refine ⟨by rw [launches_append, List.map_append, List.map_append, h.launched, h'.launched], fun e he => ?_⟩
  rcases List.mem_append.1 he with he | he
  · exact h.quiet e he
  · exact h'.quiet e he

theorem started_of_start {container : String} (h : (s.start p c name).Play es (.ok (container, s'))) :
    Started c s.network [name] es ∧ s'.network = s.network ∧
      s'.started = ((launches es).map Prod.fst).reverse ++ s.started := by
  obtain ⟨spec, hspec, rfl, rfl, hlaunches⟩ := start_ok h
  refine ⟨⟨?_, h.asked (start_asksOnly _ _ _ _)⟩, rfl, ?_⟩
  · simp only [hlaunches, List.map_cons, List.map_nil, launch?, hspec, Option.map_some]
  · rw [hlaunches]
    rfl

theorem started_of_failure {f : LocalFault} (h : (s.start p c name).Play es (.error f)) :
    StartFailure c name es f ∧ Started c s.network [] es := by
  obtain ⟨hfailure, hlaunches⟩ := start_error h
  exact ⟨hfailure, by rw [hlaunches]; rfl, h.asked (start_asksOnly _ _ _ _)⟩

/-- **Components are started in order, up to one that fails; then those before it are taken down**, and those that were
running already. -/
theorem startAll_cases (h : (startAll p c order s).Play es r) :
    (∃ s', r = .ok s' ∧ s'.network = s.network ∧ s'.started = ((launches es).map Prod.fst).reverse ++ s.started ∧
      Started c s.network order es) ∨
    ∃ f before name after work own down, r = .error f ∧ order = before ++ name :: after ∧ es = work ++ own ++ down ∧
      Started c s.network before work ∧ StartFailure c name own f ∧ Started c s.network [] own ∧
      TakenDown s.network (((launches work).map Prod.fst).reverse ++ s.started) down := by
  induction order generalizing s es with
  | nil =>
    obtain ⟨rfl, rfl⟩ := play_done_iff.1 h
    exact .inl ⟨s, rfl, rfl, rfl, rfl, by simp⟩
  | cons name order ih =>
    obtain ⟨result, es₁, es₂, rfl, hstart, hgo⟩ := play_attempt_bind_iff.1 h
    cases result with
    | ok launched =>
      obtain ⟨container, t⟩ := launched
      obtain ⟨hfirst, hnetwork, hstarted⟩ := started_of_start hstart
      obtain ⟨s', rfl, hnetwork', hstarted', hrest⟩ | ⟨f, before, name', after, work, own, down, rfl, rfl, rfl, hbefore,
        hfailure, hown, hdown⟩ := ih hgo
      · refine .inl ⟨s', rfl, hnetwork'.trans hnetwork, ?_, hfirst.append (hnetwork ▸ hrest)⟩
        rw [hstarted', hstarted, launches_append, List.map_append, List.reverse_append, List.append_assoc]
      · rw [hnetwork] at hbefore hown hdown
        rw [hstarted] at hdown
        refine .inr ⟨f, name :: before, name', after, es₁ ++ work, own, down, rfl, rfl, by simp, hfirst.append hbefore,
          hfailure, hown, ?_⟩
        rwa [launches_append, List.map_append, List.reverse_append, List.append_assoc]
    | error f =>
      obtain ⟨hfailure, hown⟩ := started_of_failure hstart
      obtain ⟨down, _, rfl, hdown, hend⟩ := play_teardown_bind hgo
      obtain ⟨rfl, rfl⟩ := play_fail_iff.1 hend
      exact .inr ⟨f, [], name, order, [], es₁, down, rfl, rfl, by simp, ⟨rfl, by simp⟩, hfailure, hown, hdown⟩

/-! ## Before there is a network -/

theorem removeStale_asksOnly (names : List String) (l : List ContainerRecord) :
    (removeStale names l).AsksOnly Ask.Sweeps := by
  induction l with
  | nil => trivial
  | cons r l ih =>
    unfold removeStale
    split
    · refine asksOnly_bind (callLocal_asksOnly trivial) fun _ => ?_
      exact asksOnly_bind (callLocal_asksOnly trivial) fun _ => ih
    · exact ih

/-- what clearing listed containers of these names away exchanges: each of them is stopped and then removed -/
def clearing (names : List String) (listed : List ContainerRecord) : List Asked :=
  (listed.filter fun r => names.contains r.name).flatMap fun r =>
    [⟨.call (.stop r.name), .ok ()⟩, ⟨.call (.remove r.name), .ok ()⟩]

theorem removeStale_ok {l : List ContainerRecord} (h : (removeStale names l).Play es (.ok ())) :
    es = clearing names l := by
  induction l generalizing es with
  | nil => exact (play_done_iff.1 h).1
  | cons r l ih =>
    unfold removeStale at h
    unfold clearing at ih ⊢
    split at h
    · rename_i hnamed
      obtain ⟨_, _, rfl, ⟨_, _, _, hr⟩ | ⟨_, rfl, hremove⟩⟩ := play_callLocal_bind_iff.1 h
      · cases hr
      obtain ⟨_, _, rfl, ⟨_, _, _, hr⟩ | ⟨_, rfl, hrest⟩⟩ := play_callLocal_bind_iff.1 hremove
      · cases hr
      rw [ih hrest, List.filter_cons, if_pos hnamed, List.flatMap_cons]
      rfl
    · rename_i hother
      rw [ih h, List.filter_cons, if_neg hother]

/-- leftovers are cleared away, then the network is made, and only then components are started -/
theorem up_cases (h : (up p network c order).Play es r) :
    ∃ listing rest, es = ⟨.call .listContainers, listing⟩ :: rest ∧
    ((∃ f, listing = .error f ∧ rest = [] ∧ r = .error (.fault f)) ∨ ∃ existing, listing = .ok existing ∧
      ((∃ f, r = .error f ∧ (removeStale (runNames c) existing).Play rest (.error f)) ∨
        ∃ made es', rest = clearing (runNames c) existing ++ ⟨.call (.createNetwork network), made⟩ :: es' ∧
          ((∃ f, made = .error f ∧ es' = [] ∧ r = .error (.fault f)) ∨
            made = .ok () ∧ (startAll p c order { network }).Play es' r))) := by
  obtain ⟨listing, rest, rfl, ⟨f, rfl, rfl, rfl⟩ | ⟨existing, rfl, hlisted⟩⟩ := play_callLocal_bind_iff.1 h
  · exact ⟨_, _, rfl, .inl ⟨f, rfl, rfl, rfl⟩⟩
  obtain ⟨f, rfl, hstale⟩ | ⟨_, es₁, es₂, rfl, hstale, hcleared⟩ := play_bind_iff.1 hlisted
  · exact ⟨_, _, rfl, .inr ⟨existing, rfl, .inl ⟨f, rfl, hstale⟩⟩⟩
  obtain rfl := removeStale_ok hstale
  obtain ⟨made, es', rfl, ⟨f, rfl, rfl, rfl⟩ | ⟨_, rfl, hstart⟩⟩ := play_callLocal_bind_iff.1 hcleared
  · exact ⟨_, _, rfl, .inr ⟨existing, rfl, .inr ⟨_, _, rfl, .inl ⟨f, rfl, rfl, rfl⟩⟩⟩⟩
  · exact ⟨_, _, rfl, .inr ⟨existing, rfl, .inr ⟨_, _, rfl, .inr ⟨rfl, hstart⟩⟩⟩⟩

theorem clearing_sweeps (names : List String) (l : List ContainerRecord) : ∀ e ∈ clearing names l, e.1.Sweeps := by
  intro e he
  obtain ⟨r, _, he⟩ := List.mem_flatMap.1 he
  simp only [List.mem_cons, List.not_mem_nil, or_false] at he
  rcases he with rfl | rfl <;> trivial

/-- before the network is made, nothing but a sweep happens -/
theorem sweep_cases (h : (up p network c order).Play es r) : (∃ f, r = .error f ∧ Unbegun network es) ∨
    ∃ swept es', es = swept ++ ⟨.call (.createNetwork network), .ok ()⟩ :: es' ∧ (∀ e ∈ swept, e.1.Sweeps) ∧
      (startAll p c order { network }).Play es' r := by
  have hlist (listing : Except Fault (List ContainerRecord)) {es : List Asked} (h : ∀ e ∈ es, e.1.Sweeps) :
      ∀ e ∈ (⟨.call .listContainers, listing⟩ : Asked) :: es, e.1.Sweeps := List.forall_mem_cons.2 ⟨trivial, h⟩
  obtain ⟨listing, rest, rfl, ⟨f, rfl, rfl, rfl⟩ | ⟨existing, rfl, ⟨f, rfl, hstale⟩ | ⟨made, es', rfl, hmade⟩⟩⟩ :=
    up_cases h
  · exact .inl ⟨_, rfl, fun e he => .inl (hlist _ (by simp) e he)⟩
  · exact .inl ⟨f, rfl, fun e he => .inl (hlist _ (hstale.asked (removeStale_asksOnly _ _)) e he)⟩
  have hswept := hlist (.ok existing) (clearing_sweeps (runNames c) existing)
  obtain ⟨f, rfl, rfl, rfl⟩ | ⟨rfl, hstart⟩ := hmade
  · refine .inl ⟨_, rfl, fun e he => ?_⟩
    rw [← List.cons_append, List.mem_append, List.mem_singleton] at he
    rcases he with he | rfl
    · exact .inl (hswept e he)
    · exact .inr ⟨f, rfl⟩
  · exact .inr ⟨_, es', by rw [← List.cons_append], hswept, hstart⟩

theorem Unbegun.not_mem_calls (h : Unbegun network es) {q : Call} (hsweep : ¬ Ask.Sweeps (.call q))
    (hmake : q ≠ .createNetwork network) : q ∉ calls es := by
  intro hin
  obtain ⟨x, he⟩ := mem_calls.1 hin
  rcases h _ he with hq | ⟨f, hq⟩
  · exact hsweep hq
  · cases hq
    exact hmake rfl

theorem Unbegun.launches_eq_nil (h : Unbegun network es) : launches es = [] := by
  refine List.eq_nil_iff_forall_not_mem.2 fun ⟨name, spec, net⟩ hl => ?_
  obtain ⟨_, he⟩ := mem_launches.1 hl
  exact h.not_mem_calls (q := .start name spec net) id nofun (mem_calls.2 ⟨_, he⟩)

/-! ## All or nothing -/

/-- **Bringing a composition up is all or nothing.**
- If it ends before there is a network, nothing was started, and no network was made or removed.
- If it succeeds, the components of the order were started on the network, in that order, and nothing was stopped or
  removed since the network was made.
- If it fails later, what it reports is the fault of the first component that could not be started. The containers
  started before it were stopped, latest first, each once, and removed just if that worked; the network went last. -/
theorem up_all_or_nothing (h : (up p network c order).Play es r) :
    (∃ f, r = .error f ∧ Unbegun network es ∧ launches es = [] ∧ (∀ n, .removeNetwork n ∉ calls es) ∧
      ∀ name spec net, .start name spec net ∉ calls es) ∨
    ∃ swept es', es = swept ++ ⟨.call (.createNetwork network), .ok ()⟩ :: es' ∧ (∀ e ∈ swept, e.1.Sweeps) ∧
      ((∃ s, r = .ok s ∧ Started c network order es' ∧ s.started = ((launches es').map Prod.fst).reverse) ∨
        ∃ f, r = .error f ∧ RolledBack c network order f es' ∧
          ∃ init last, es = init ++ [⟨.call (.removeNetwork network), last⟩] ∧ ∀ n, .removeNetwork n ∉ calls init) := by
  obtain ⟨f, rfl, hunbegun⟩ | ⟨swept, es', rfl, hswept, hstart⟩ := sweep_cases h
  · refine .inl ⟨f, rfl, hunbegun, hunbegun.launches_eq_nil, fun n => hunbegun.not_mem_calls id nofun,
      fun _ _ _ => hunbegun.not_mem_calls id nofun⟩
  · refine .inr ⟨swept, es', rfl, hswept, ?_⟩
    obtain ⟨s, rfl, _, hlatest, hstarted⟩ | ⟨f, before, name, after, work, own, down, rfl, rfl, rfl, hwork,
      hfailure, hown, hdown⟩ := startAll_cases hstart
    · exact .inl ⟨s, rfl, hstarted, by rw [hlatest, List.append_nil]⟩
    · rw [List.append_nil] at hdown
      refine .inr ⟨f, rfl, ⟨before, name, after, work, own, down, rfl, rfl, hwork, hfailure, hown, hdown⟩, ?_⟩
      obtain ⟨stopping, last, hstopped, rfl⟩ := hdown
      refine ⟨swept ++ ⟨.call (.createNetwork network), .ok ()⟩ :: (work ++ own ++ stopping), last,
        by simp, fun n => ?_⟩
      have hmade : Call.removeNetwork n ∉ calls [⟨.call (.createNetwork network), .ok ()⟩] := by
        simp [calls, Asked.call?]
      rw [List.append_cons, calls_append, calls_append, calls_append, calls_append]
      simp only [List.mem_append, not_or]
      exact ⟨⟨not_mem_calls hswept id, hmade⟩, ⟨not_mem_calls hwork.quiet id, not_mem_calls hown.quiet id⟩,
        not_mem_calls hstopped.asked id⟩

/-! ## A shop whose pages cannot be started -/

def shopContainers : Composition :=
  .mergeAll [.single "database" { image := some "mysql:8" },
    .single "web" { image := some "nginx:1.13", name := some "shop-web", dependsOn := ["database"] }]

/-- the port of the pages is taken, and the database cannot be stopped -/
def shopTrouble : Rehearsal.Script where
  failures := [⟨"run shop-web", .tool, "port is taken"⟩, ⟨"stop database", .tool, "no answer"⟩]

def shopRun : Action LocalFault Stack :=
  up { dir := "/shop", application := {}, services := .empty } "shop" shopContainers ["database", "web"]

/-- the database is stopped again, and what is reported is the fault of the pages -/
theorem shop_is_rolled_back : ∃ es, shopRun.Play es (.error (.fault (.tool .docker "port is taken"))) ∧
    (launches es).map Prod.fst = ["database"] ∧ ∃ es', es' <:+ es ∧
      RolledBack shopContainers "shop" ["database", "web"] (.fault (.tool .docker "port is taken")) es' := by
  have hresult : (shopRun.run (Rehearsal.answer shopTrouble) {}).1 = .error (.fault (.tool .docker "port is taken")) :=
    rfl
  have hlaunches : (launches (shopRun.transcript (Rehearsal.answer shopTrouble) {})).map Prod.fst = ["database"] := rfl
  have hplay := hresult ▸ play_run (Rehearsal.answer shopTrouble) shopRun {}
  refine ⟨_, hplay, hlaunches, ?_⟩
  obtain ⟨_, _, _, hnone, _⟩ | ⟨swept, es', hes, _, ⟨_, hr, _⟩ | ⟨_, hr, hback, _⟩⟩ := up_all_or_nothing hplay
  · rw [hnone] at hlaunches
    cases hlaunches
  · cases hr
  · cases hr
    exact ⟨es', ⟨_, by rw [hes, List.append_cons]⟩, hback⟩

end Fleet.Stack
