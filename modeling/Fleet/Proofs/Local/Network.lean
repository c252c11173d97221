/-
One network for everything that runs together.

- `startAll_onNetwork`, `up_onNetwork`, `teardown_onNetwork`: a stack makes, joins and removes no network but its own,
  and builds images under its name only.
- `network_of_up`: a stack that is up is on the network that was made for it.
- `all_onNetwork`: so do the tests of a project, on the network that is called like the project.
-/
import Fleet.Proofs.Local.TestRun

namespace Fleet

open Dialogue

/-- what may be asked while containers run on this network: it is the only one that is made, joined and removed, and
images are tagged with its name -/
def Ask.OnNetwork (network : String) : Ask → Prop
  | .call (.createNetwork name) | .call (.removeNetwork name) => name = network
  | .call (.start _ _ joined) => joined = some network
  | .call (.build _ _ tag) => ∃ component : String, tag = s!"{network}-{component}"
  | .call (.pull _) | .call (.imageExists _) | .call (.wait _) | .call (.stop _) | .call (.remove _)
  | .call .listContainers | .cancelled | .note _ => True
  | _ => False

theorem Ask.Sweeps.onNetwork {q : Ask} (h : q.Sweeps) (network : String) : q.OnNetwork network := by
  unfold Ask.Sweeps at h
  split at h
  case h_4 => exact h.elim
  all_goals trivial

namespace Stack

variable {p : Project} {c : Composition} {network : String} {s : Stack} {es : List Asked}

theorem note_onNetwork {ε : Type} (line network : String) :
    (Action.note line : Action ε Unit).AsksOnly (Ask.OnNetwork network) := ⟨trivial, fun _ => trivial⟩

theorem prepareImage_onNetwork (s : Stack) (p : Project) (name : String) (spec : Container) :
    (s.prepareImage p name spec).AsksOnly (Ask.OnNetwork s.network) := by
  unfold prepareImage
  split
  · exact asksOnly_bind (callLocal_asksOnly ⟨name, rfl⟩) fun _ => trivial
  · refine asksOnly_bind (callLocal_asksOnly trivial) fun present => ?_
    split
    · trivial
    · exact asksOnly_bind (callLocal_asksOnly trivial) fun _ => trivial
  · trivial

theorem start_onNetwork (s : Stack) (p : Project) (c : Composition) (name : String) :
    (s.start p c name).AsksOnly (Ask.OnNetwork s.network) := by
  refine asksOnly_bind ⟨trivial, fun _ => trivial⟩ fun interrupted => ?_
  cases interrupted with
  | true => trivial
  | false =>
    cases c.services.get? name with
    | none => trivial
    | some spec =>
      refine asksOnly_bind (prepareImage_onNetwork s p name spec) fun spec => ?_
      refine asksOnly_bind (callLocal_asksOnly rfl) fun _ => ?_
      exact asksOnly_bind (note_onNetwork _ _) fun _ => trivial

theorem stopAll_onNetwork (network : String) (first : Option Fault) (names : List String) :
    (stopAll first names).AsksOnly (Ask.OnNetwork network) := by
  induction names generalizing first with
  | nil => trivial
  | cons name names ih =>
    have hstop : (stopOne name).AsksOnly (Ask.OnNetwork network) :=
      asksOnly_bind (asksOnly_call trivial) fun _ => asksOnly_call trivial
    refine asksOnly_bind (asksOnly_attempt hstop) fun stopped => ?_
    cases stopped with
    | ok => exact asksOnly_bind (note_onNetwork _ _) fun _ => ih _
    | error f => exact ih _

theorem teardown_onNetwork (s : Stack) : s.teardown.AsksOnly (Ask.OnNetwork s.network) := by
  refine asksOnly_bind (stopAll_onNetwork _ _ _) fun first => ?_
  refine asksOnly_bind (asksOnly_attempt (asksOnly_call rfl)) fun removed => ?_
  cases removed <;> trivial

theorem teardown_bind_onNetwork {α : Type} (s : Stack) {next : Option Fault → Action LocalFault α}
    (h : ∀ problem, (next problem).AsksOnly (Ask.OnNetwork s.network)) :
    ((widenLocal s.teardown).bind next).AsksOnly (Ask.OnNetwork s.network) :=
  asksOnly_bind (asksOnly_mapFailure (teardown_onNetwork s)) h

/-- **Starting components one after the other** stays on the network of the stack. -/
theorem startAll_onNetwork (s : Stack) (p : Project) (c : Composition) (order : List String) :
    (startAll p c order s).AsksOnly (Ask.OnNetwork s.network) := by
  induction order generalizing s with
  | nil => trivial
  | cons name order ih =>
    refine asksOnly_bind_of_play (asksOnly_attempt (start_onNetwork s p c name)) fun result es hstart => ?_
    obtain ⟨_, heq, hstart⟩ := play_attempt_iff.1 hstart
    cases heq
    cases result with
    | ok launched =>
      obtain ⟨container, t⟩ := launched
      obtain ⟨_, _, _, rfl, _⟩ := start_ok hstart
      exact ih { s with started := container :: s.started }
    | error f => exact teardown_bind_onNetwork s fun _ => trivial

theorem up_onNetwork (p : Project) (network : String) (c : Composition) (order : List String) :
    (up p network c order).AsksOnly (Ask.OnNetwork network) := by
  refine asksOnly_bind (callLocal_asksOnly trivial) fun existing => ?_
  refine asksOnly_bind ((removeStale_asksOnly _ existing).mono fun q hq => hq.onNetwork network) fun _ => ?_
  exact asksOnly_bind (callLocal_asksOnly rfl) fun _ => startAll_onNetwork { network } p c order

/-- what is up is on the network that it was brought up on, and that network was made for it -/
theorem network_of_up {order : List String} (h : (up p network c order).Play es (.ok s)) :
    s.network = network ∧ .createNetwork network ∈ calls es := by
  obtain ⟨_, hr, _⟩ | ⟨swept, rest, rfl, _, hstart⟩ := sweep_cases h
  · cases hr
  obtain ⟨_, hs, hnetwork, _⟩ | ⟨_, _, _, _, _, _, _, hr, _⟩ := startAll_cases hstart
  · cases hs
    exact ⟨hnetwork, mem_calls.2 ⟨.ok (), by simp⟩⟩
  · cases hr

end Stack

namespace TestRun

variable {network : String}

theorem finish_onNetwork (p : Project) (c : Composition) (role : String) (s : Stack) :
    (finish p c role s).AsksOnly (Ask.OnNetwork s.network) := by
  refine asksOnly_bind_of_play (asksOnly_attempt (Stack.start_onNetwork s p c role)) fun started es hstart => ?_
  obtain ⟨_, heq, hstart⟩ := play_attempt_iff.1 hstart
  cases heq
  cases started with
  | ok launched =>
    obtain ⟨container, t⟩ := launched
    obtain ⟨_, _, _, rfl, _⟩ := Stack.start_ok hstart
    refine asksOnly_bind (asksOnly_attempt (Stack.callLocal_asksOnly trivial)) fun code => ?_
    refine Stack.teardown_bind_onNetwork { s with started := container :: s.started } fun problem => ?_
    cases code <;> cases problem <;> trivial
  | error f => exact Stack.teardown_bind_onNetwork s fun problem => by cases problem <;> trivial

theorem suite_onNetwork (p : Project) (network : String) (c : Composition) (role : String) :
    (suite p network c role).AsksOnly (Ask.OnNetwork network) := by
  unfold suite
  split
  · trivial
  · refine asksOnly_bind_of_play (Stack.up_onNetwork p network c _) fun s es hup => ?_
    exact (Stack.network_of_up hup).1 ▸ finish_onNetwork p c role s

theorem visit_onNetwork (compiler : Compiler) (network role : String) :
    (visit compiler network role).AsksOnly (Ask.OnNetwork network) := by
  refine asksOnly_bind ⟨trivial, fun _ => trivial⟩ fun interrupted => ?_
  cases interrupted with
  | true => trivial
  | false =>
    cases compiler.container role with
    | error f => trivial
    | ok spec =>
      dsimp only
      split
      · trivial
      · refine asksOnly_bind (Stack.note_onNetwork _ _) fun _ => ?_
        exact asksOnly_bind (suite_onNetwork _ network _ role) fun _ => trivial

theorem testRoles_onNetwork (compiler : Compiler) (network : String) (report : TestReport) (roles : List String) :
    (testRoles compiler network report roles).AsksOnly (Ask.OnNetwork network) := by
  induction roles generalizing report with
  | nil => trivial
  | cons role roles ih =>
    rw [testRoles_cons]
    exact asksOnly_bind (visit_onNetwork compiler network role) fun _ => ih _

/-- **The tests of a project** stay on the network that is called like it. -/
theorem all_onNetwork (compiler : Compiler) :
    (all compiler).AsksOnly (Ask.OnNetwork (Naming.projectName compiler.project.dir)) :=
  testRoles_onNetwork compiler _ [] _

end TestRun

end Fleet
