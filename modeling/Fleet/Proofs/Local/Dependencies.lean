/-
Components are started after those they depend on, which are running then.

A bring-up in a starting order stops and removes nothing between making the network and starting the last component, so
what was started on the way is running (`Running`).
- `launch_of_start`: the start of one component starts no container but that of the component, and that one once.
- `launches_before`: when a component's container is started, the components before it have been, and nothing else.
- `dependencies_are_running`: all that the component depends on is running by then; a bring-up that succeeds has started
  every component once.
-/
import Fleet.Proofs.Local.BringUp
import Fleet.Proofs.StartOrder.Order

namespace Fleet

open Dialogue

/-- what starts no container -/
def Ask.StartsNothing : Ask → Prop
  | .call (.start _ _ _) => False
  | _ => True

theorem Ask.Prepares.startsNothing {q : Ask} (h : q.Prepares) : q.StartsNothing := by
  unfold Ask.StartsNothing
  split
  · exact h
  · trivial

namespace Stack

variable {p : Project} {c : Composition} {network name target container : String} {s : Stack} {order done : List String}
  {spec : Container} {net : Option String} {es before after work : List Asked} {r : Except LocalFault Stack}
  {a : Ask.Answer (.call (.start container spec net))}

/-- the container of a component was started, and nothing was stopped or removed since -/
def Running (c : Composition) (network name : String) (es : List Asked) : Prop :=
  ∃ earlier container spec net id later, launch? c network name = some (container, spec, net) ∧
    es = earlier ++ ⟨.call (.start container spec net), .ok id⟩ :: later ∧
    ∀ other, .stop other ∉ calls later ∧ .remove other ∉ calls later

/-! ## The call that starts a component -/

/-- the exchange of one start: nothing is started, and then at most the component's own container -/
theorem start_exchange {x : Except LocalFault (String × Stack)} (h : (s.start p c name).Play es x) :
    ∃ quiet rest, es = quiet ++ rest ∧ (∀ e ∈ quiet, e.1.StartsNothing) ∧
      (rest = [] ∨ ∃ launched a said, launch? c s.network name = some launched ∧ (∀ e ∈ said, e.1.StartsNothing) ∧
        rest = ⟨.call (.start launched.1 launched.2.1 launched.2.2), a⟩ :: said) := by
  cases hspec : c.services.get? name with
  | none =>
    obtain ⟨interrupted, rest, rfl, hgo⟩ := play_cancelled_bind_iff.1 h
    simp only [hspec] at hgo
    refine ⟨[⟨.cancelled, interrupted⟩], rest, rfl, by simp [Ask.StartsNothing], .inl ?_⟩
    cases interrupted with
    | true => exact (play_fail_iff.1 hgo).1
    | false => exact (play_fail_iff.1 hgo).1
  | some spec =>
    obtain ⟨rfl, _⟩ | ⟨own, rest, rfl, hown, hend⟩ := play_start_found hspec h
    · exact ⟨[⟨.cancelled, true⟩], [], rfl, by simp [Ask.StartsNothing], .inl rfl⟩
    refine ⟨⟨.cancelled, false⟩ :: own, rest, rfl, ?_, ?_⟩
    · exact List.forall_mem_cons.2 ⟨trivial, fun e he => (hown e he).startsNothing⟩
    obtain ⟨_, _, rfl, _⟩ | ⟨_, a, said, rfl, hsaid⟩ := hend
    · exact .inl rfl
    refine .inr ⟨_, a, said, by rw [launch?, hspec]; rfl, ?_, rfl⟩
    obtain ⟨_, _, rfl, _⟩ | ⟨_, _, rfl, _⟩ := hsaid
    · simp
    · simp [Ask.StartsNothing]

/-- **Starting a component starts its own container, with nothing started before.** -/
theorem launch_of_start {x : Except LocalFault (String × Stack)} (h : (s.start p c name).Play es x)
    (hcut : es = before ++ ⟨.call (.start container spec net), a⟩ :: after) :
    launch? c s.network name = some (container, spec, net) ∧ Started c s.network [] before := by
  have hasked := h.asked (start_asksOnly s p c name)
  obtain ⟨quiet, rest, rfl, hquiet, hrest⟩ := start_exchange h
  rcases cut_append hcut with ⟨more, rfl, -⟩ | ⟨more, rfl, hrest'⟩
  · exact (hquiet ⟨.call (.start container spec net), a⟩ (by simp)).elim
  obtain rfl | ⟨launched, a', said, hlaunch, hsaid, rfl⟩ := hrest
  · simp at hrest'
  cases more with
  | nil =>
    obtain ⟨hask, -⟩ := List.cons.inj hrest'
    cases hask
    rw [List.append_nil]
    exact ⟨hlaunch, by rw [launches_eq_nil hquiet fun _ _ _ h => h]; rfl,
      fun e he => hasked e (List.mem_append_left _ he)⟩
  | cons e more =>
    obtain ⟨-, rfl⟩ := List.cons.inj hrest'
    exact (hsaid ⟨.call (.start container spec net), a⟩ (by simp)).elim

/-- **When a component's container is started, the components before it have been, in their order**, and nothing was
stopped. -/
theorem launches_before (h : (startAll p c order s).Play es r)
    (hcut : es = before ++ ⟨.call (.start container spec net), a⟩ :: after) :
    ∃ done name rest, order = done ++ name :: rest ∧ launch? c s.network name = some (container, spec, net) ∧
      Started c s.network done before := by
  induction order generalizing s es before with
  | nil =>
    rw [(play_done_iff.1 h).1] at hcut
    simp at hcut
  | cons name order ih =>
    obtain ⟨result, es₁, es₂, rfl, hstart, hgo⟩ := play_attempt_bind_iff.1 h
    rcases cut_append hcut with ⟨more, rfl, -⟩ | ⟨more, rfl, hrest⟩
    · obtain ⟨hlaunch, hnone⟩ := launch_of_start hstart rfl
      exact ⟨[], name, order, rfl, hlaunch, hnone⟩
    cases result with
    | ok launched =>
      obtain ⟨container', t⟩ := launched
      obtain ⟨hfirst, hnetwork, _⟩ := started_of_start hstart
      obtain ⟨done, name', rest, rfl, hlaunch, hdone⟩ := ih hgo hrest
      rw [hnetwork] at hlaunch hdone
      exact ⟨name :: done, name', rest, rfl, hlaunch, hfirst.append hdone⟩
    | error f =>
      -- after a failure everything is taken down, and nothing is started
      obtain ⟨down, _, rfl, ⟨stopping, last, hstopped, rfl⟩, hend⟩ := play_teardown_bind hgo
      rw [(play_fail_iff.1 hend).1, List.append_nil] at hrest
      have hin : (⟨.call (.start container spec net), a⟩ : Asked) ∈
          stopping ++ [⟨.call (.removeNetwork s.network), last⟩] := by simp [hrest]
      rcases List.mem_append.1 hin with hin | hin
      · exact (hstopped.asked _ hin).elim
      · simp at hin

/-! ## What is running -/

/-- what was started while nothing was stopped is running -/
theorem Started.running (h : Started c network done work) (hname : name ∈ done) : Running c network name work := by
  have hin : launch? c network name ∈ (launches work).map some := by
    rw [h.launched]
    exact List.mem_map_of_mem hname
  obtain ⟨⟨container, spec, net⟩, hlaunched, hlaunch⟩ := List.mem_map.1 hin
  obtain ⟨id, hcall⟩ := mem_launches.1 hlaunched
  obtain ⟨earlier, later, rfl⟩ := List.append_of_mem hcall
  have hquiet : ∀ e ∈ later, e.1.BringsUp := fun e he =>
    h.quiet e (List.mem_append_right _ (List.mem_cons_of_mem _ he))
  exact ⟨earlier, container, spec, net, id, later, hlaunch.symm, rfl, fun other =>
    ⟨not_mem_calls hquiet fun h => h, not_mem_calls hquiet fun h => h⟩⟩

theorem Running.prepend (earlier : List Asked) (h : Running c network name es) :
    Running c network name (earlier ++ es) := by
  obtain ⟨earlier', container, spec, net, id, later, hlaunch, rfl, hquiet⟩ := h
  exact ⟨earlier ++ earlier', container, spec, net, id, later, hlaunch, by simp, hquiet⟩

/-- **In a starting order, all that a component depends on is running when it is started.** The containers that were
started until then are those of the components before it, in their order. If the bring-up succeeds, every component was
started once. -/
theorem dependencies_are_running (horder : c.startOrder = .ok order) (h : (up p network c order).Play es r) :
    (∀ before container spec net a after, es = before ++ ⟨.call (.start container spec net), a⟩ :: after →
      ∃ done name rest, order = done ++ name :: rest ∧ launch? c network name = some (container, spec, net) ∧
        (launches before).map some = done.map (launch? c network) ∧
        ∀ target, c.DependsOn name target → target ∈ done ∧ Running c network target before) ∧
    (∀ s, r = .ok s → order.Perm c.services.keys ∧ order.Nodup ∧
      (launches es).map some = order.map (launch? c network)) := by
  have hisOrder := (Composition.isOrder_of_startOrder horder).2
  obtain ⟨f, rfl, hunbegun⟩ | ⟨swept, es', rfl, hswept, hstart⟩ := sweep_cases h
  · refine ⟨fun before container spec net a after hcut => ?_, fun s hs => by cases hs⟩
    have hcall : .start container spec net ∈ calls es := mem_calls.2 ⟨a, by simp [hcut]⟩
    exact absurd hcall (hunbegun.not_mem_calls id nofun)
  have hmade : launches [⟨.call (.createNetwork network), .ok ()⟩] = [] := rfl
  have hbegun : launches (swept ++ [⟨.call (.createNetwork network), .ok ()⟩]) = [] := by
    rw [launches_append, launches_eq_nil hswept fun _ _ _ h => h, hmade, List.append_nil]
  refine ⟨fun before container spec net a after hcut => ?_, fun s hs => ?_⟩
  · rw [List.append_cons] at hcut
    rcases cut_append hcut with ⟨more, heq, -⟩ | ⟨work, rfl, hwork⟩
    · have hin : (⟨.call (.start container spec net), a⟩ : Asked) ∈
          swept ++ [⟨.call (.createNetwork network), .ok ()⟩] := by simp [heq]
      rcases List.mem_append.1 hin with hin | hin
      · exact (hswept _ hin).elim
      · simp at hin
    obtain ⟨done, name, rest, rfl, hlaunch, hdone⟩ := launches_before hstart hwork
    refine ⟨done, name, rest, rfl, hlaunch, ?_, fun target hdepends => ?_⟩
    · rw [launches_append, hbegun, List.nil_append, hdone.launched]
    · have htarget : target ∈ done :=
        mem_of_pair_sublist hisOrder.nodup (hisOrder.after name target hdepends)
      exact ⟨htarget, (hdone.running htarget).prepend _⟩
  · subst hs
    obtain ⟨_, _, _, _, hstarted⟩ | ⟨_, _, _, _, _, _, _, hr, _⟩ := startAll_cases hstart
    · refine ⟨hisOrder.perm, hisOrder.nodup, ?_⟩
      rw [List.append_cons, launches_append, hbegun, List.nil_append, hstarted.launched]
    · cases hr

/-- the pages, which cannot be started, find the database running; without the trouble both are started once -/
theorem shop_pages_find_their_database :
    (∃ before spec net a after, shopRun.transcript (Rehearsal.answer shopTrouble) {} =
      before ++ ⟨.call (.start "shop-web" spec net), a⟩ :: after ∧ Running shopContainers "shop" "database" before) ∧
    (launches (shopRun.transcript (Rehearsal.answer {}) {})).map some =
      ["database", "web"].map (launch? shopContainers "shop") := by
  have horder : shopContainers.startOrder = .ok ["database", "web"] := by decide +kernel
  constructor
  · have hplay := play_run (Rehearsal.answer shopTrouble) shopRun {}
    have hcut : ∃ before spec net a after, shopRun.transcript (Rehearsal.answer shopTrouble) {} =
        before ++ ⟨.call (.start "shop-web" spec net), a⟩ :: after :=
      ⟨(shopRun.transcript (Rehearsal.answer shopTrouble) {}).take 8, _, _, _, _, rfl⟩
    obtain ⟨before, spec, net, a, after, hcut⟩ := hcut
    obtain ⟨done, name, rest, hname, hlaunch, _, hrunning⟩ :=
      (dependencies_are_running horder hplay).1 before "shop-web" spec net a after hcut
    have hin : name ∈ ["database", "web"] := by simp [hname]
    rcases List.mem_pair.1 hin with rfl | rfl
    · have hother : (launch? shopContainers "shop" "database").map Prod.fst = some "database" := rfl
      simp [hlaunch] at hother
    · exact ⟨before, spec, net, a, after, hcut, (hrunning "database" ⟨_, rfl, by simp⟩).2⟩
  · have hresult : (shopRun.run (Rehearsal.answer {}) {}).1 =
        .ok { network := "shop", started := ["shop-web", "database"] } := rfl
    have hplay := hresult ▸ play_run (Rehearsal.answer {}) shopRun {}
    exact ((dependencies_are_running horder hplay).2 _ rfl).2.2

end Stack

end Fleet
