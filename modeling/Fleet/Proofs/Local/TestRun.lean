/-
Test runs leave nothing running, and their report says what happened.

- `suite_settled`: the tests of one role are settled, however they end, and their result is the exit code.
- `testRoles_visits`: a run visits one role after the other, up to one that fails.
- `roles_are_settled`: each visit of a run is settled. The report has one entry for each role, in ascending order: a
  role without a command is skipped, and with one its exit code decides.
-/
import Fleet.Local.TestRun
import Fleet.Proofs.Compose.Graph
import Fleet.Proofs.Local.Settled

namespace Fleet

open Dialogue

def Asked.exit? : Asked → Option (String × Int)
  | ⟨.call (.wait name), .ok code⟩ => some (name, code)
  | _ => none

/-- the containers whose end was waited for, with their exit codes -/
def exits (es : List Asked) : List (String × Int) := es.filterMap Asked.exit?

@[simp] theorem exits_append (es₁ es₂ : List Asked) : exits (es₁ ++ es₂) = exits es₁ ++ exits es₂ :=
  List.filterMap_append

theorem exits_eq_nil {es : List Asked} (h : ∀ name, .wait name ∉ calls es) : exits es = [] := by
  refine List.filterMap_eq_nil_iff.2 fun e he => ?_
  unfold Asked.exit?
  split
  · exact absurd (mem_calls.2 ⟨_, he⟩) (h _)
  · rfl

theorem exits_of_takenDown {network : String} {names : List String} {es : List Asked}
    (h : Stack.TakenDown network names es) : exits es = [] := by
  obtain ⟨stopping, last, hstopped, rfl⟩ := h
  rw [exits_append, exits_eq_nil fun _ => not_mem_calls hstopped.asked id]
  rfl

namespace TestRun

variable {p : Project} {c : Composition} {network role : String} {s : Stack} {es : List Asked}
  {r : Except LocalFault Int}

/-! ## The tests of one role -/

/-- a role's container is started and waited for; then it is taken down with everything that was running -/
theorem finish_cases (h : (finish p c role s).Play es r) :
    ∃ work down, es = work ++ down ∧ (∀ n, .createNetwork n ∉ calls work) ∧
      Stack.TakenDown s.network (((launches work).map Prod.fst).reverse ++ s.started) down ∧
      ∀ code, r = .ok code → ∃ spec, c.services.get? role = some spec ∧
        exits (work ++ down) = [(spec.runName role, code)] := by
  obtain ⟨started, starting, es₂, rfl, hstart, hgo⟩ := play_attempt_bind_iff.1 h
  have hstarting := hstart.asked (Stack.start_asksOnly _ _ _ _)
  have hmake (n : String) : Call.createNetwork n ∉ calls starting := not_mem_calls hstarting id
  have hexits : exits starting = [] := exits_eq_nil fun _ => not_mem_calls hstarting id
  cases started with
  | ok launched =>
    obtain ⟨container, t⟩ := launched
    obtain ⟨spec, hspec, rfl, rfl, hlaunches⟩ := Stack.start_ok hstart
    obtain ⟨waited, waiting, es₃, rfl, hwait, hend⟩ := play_attempt_bind_iff.1 hgo
    obtain ⟨a, rfl, rfl⟩ := Stack.play_callLocal_iff.1 hwait
    obtain ⟨down, rest, rfl, hdown, hlast⟩ := Stack.play_teardown_bind hend
    -- only where the wait and the taking down both went well is there a code
    have hrest : rest = [] ∧ ∀ code, r = .ok code → a = .ok code := by
      cases a with
      | error f =>
        obtain ⟨rfl, rfl⟩ := play_fail_iff.1 hlast
        exact ⟨rfl, fun code h => by cases h⟩
      | ok code =>
        cases hfault : (faults down).head? with
        | some f =>
          simp only [hfault, Except.mapError] at hlast
          obtain ⟨rfl, rfl⟩ := play_fail_iff.1 hlast
          exact ⟨rfl, fun code h => by cases h⟩
        | none =>
          simp only [hfault, Except.mapError] at hlast
          obtain ⟨rfl, rfl⟩ := play_done_iff.1 hlast
          exact ⟨rfl, fun n h => by cases h; rfl⟩
    obtain ⟨rfl, hcode⟩ := hrest
    refine ⟨starting ++ [⟨.call (.wait (spec.runName role)), a⟩], down, by simp, fun n => ?_, ?_, fun code hr => ?_⟩
    · rw [calls_append, List.mem_append, not_or]
      exact ⟨hmake n, by simp [calls, Asked.call?]⟩
    · rw [launches_append, hlaunches]
      exact hdown
    · obtain rfl := hcode code hr
      refine ⟨spec, hspec, ?_⟩
      rw [exits_append, exits_append, hexits, exits_of_takenDown hdown]
      rfl
  | error f =>
    obtain ⟨_, hlaunches⟩ := Stack.start_error hstart
    obtain ⟨_, _, hnever⟩ | ⟨code, waiting, es₃, rfl, hdone, hend⟩ := play_bind_iff.1 hgo
    · cases hnever
    obtain ⟨rfl, heq⟩ := play_done_iff.1 hdone
    cases heq
    obtain ⟨down, rest, rfl, hdown, hlast⟩ := Stack.play_teardown_bind hend
    obtain ⟨rfl, rfl⟩ := play_fail_iff.1 hlast
    exact ⟨starting, down, by simp, hmake, by rwa [hlaunches], fun code h => by cases h⟩

/-- **The tests of one role are settled, however they end**; when they end with a result, it is the exit code of the
role's container, the only one that was waited for. -/
theorem suite_settled (h : (suite p network c role).Play es r) : Settled es ∧ ∀ code, r = .ok code →
    ∃ spec, c.services.get? role = some spec ∧ exits es = [(spec.runName role, code)] := by
  unfold suite at h
  split at h
  · obtain ⟨rfl, rfl⟩ := play_fail_iff.1 h
    exact ⟨Settled.nil, nofun⟩
  rename_i order _
  obtain ⟨f, rfl, hup⟩ | ⟨s, es₁, es₂, rfl, hup, hfinish⟩ := play_bind_iff.1 h
  · exact ⟨Stack.settled_of_up_error hup, nofun⟩
  · obtain ⟨_, hr, _⟩ | ⟨swept, es', rfl, hswept, hstart⟩ := Stack.sweep_cases hup
    · cases hr
    obtain ⟨s', hs, hnetwork, hstarted, hwork⟩ | ⟨_, _, _, _, _, _, _, hr, _⟩ := Stack.startAll_cases hstart
    swap
    · cases hr
    cases hs
    obtain ⟨own, down, rfl, hmake, hdown, hcode⟩ := finish_cases hfinish
    rw [hnetwork] at hdown
    constructor
    · have hsettled : Settled ((es' ++ own) ++ down) := by
        refine Stack.settled_of_takenDown (fun n => ?_) (fun l hl => ?_) hdown
        · rw [calls_append, List.mem_append, not_or]
          exact ⟨not_mem_calls hwork.quiet id, hmake n⟩
        · rw [hstarted, List.append_nil, ← List.reverse_append, ← List.map_append, ← launches_append, List.mem_reverse]
          exact List.mem_map_of_mem hl
      simpa using Stack.settled_of_made hswept hsettled hdown
    · intro code hr
      obtain ⟨spec, hspec, hexits⟩ := hcode code hr
      refine ⟨spec, hspec, ?_⟩
      have hmade : exits [⟨.call (.createNetwork network), .ok ()⟩] = [] := rfl
      rw [List.append_cons, exits_append, exits_append, exits_append, hexits, hmade,
        exits_eq_nil fun _ => not_mem_calls hswept id, exits_eq_nil fun _ => not_mem_calls hwork.quiet id]
      rfl

/-! ## One role after the other -/

/-- the turn of one role: it is skipped if its container runs no command -/
def visit (compiler : Compiler) (network role : String) : Action LocalFault TestOutcome :=
  Action.cancelled.bind fun
    | true => .fail (.interruptedTest role)
    | false =>
      match compiler.container role with
      | .error f => .fail (.fault f)
      | .ok spec =>
        if spec.command.isNone then .done .skipped
        else
          (Action.note s!"  Testing {role}...").bind fun _ =>
            (suite compiler.project network (compiler.graphOf [(role, spec)]) role).bind fun code =>
              .done (.ofExitCode code)

variable {compiler : Compiler} {roles : List String} {report : TestReport} {x : Except LocalFault TestReport}

theorem testRoles_cons (compiler : Compiler) (network : String) (report : TestReport) (role : String)
    (rest : List String) : testRoles compiler network report (role :: rest) =
      (visit compiler network role).bind fun outcome =>
      testRoles compiler network ((role, outcome) :: report) rest := by
  have hlook (k : Bool → Action LocalFault TestOutcome) (f : TestOutcome → Action LocalFault TestReport) :
      (Action.cancelled.bind k).bind f = Action.cancelled.bind fun x => (k x).bind f := bind_assoc _ _ _
  rw [testRoles, visit, hlook]
  congr 1
  funext interrupted
  cases interrupted with
  | true => rfl
  | false =>
    cases hspec : compiler.container role with
    | error f => simp only [Compiler.service, hspec, bind_fail]
    | ok spec =>
      obtain ⟨own, hown, _, hmerged⟩ := Compiler.exists_service hspec
      have hfound := Compiler.get?_graphOf_last compiler [] role spec
      rw [List.nil_append] at hfound
      simp only [hown, hmerged, hfound, Option.bind_some]
      split
      · rfl
      · simp only [bind_assoc, bind_done]

/-- what the outcome of a role says about what was exchanged: without a command nothing was called; otherwise one
container was waited for, and its exit code decides -/
inductive Verdict (spec : Container) (role : String) (es : List Asked) : TestOutcome → Prop
  | skipped (hcommand : spec.command = none) (hquiet : calls es = []) : Verdict spec role es .skipped
  | passed (hcommand : spec.command ≠ none) (hexits : exits es = [(spec.runName role, 0)]) :
    Verdict spec role es .passed
  | failed (code : Int) (hcommand : spec.command ≠ none) (hexits : exits es = [(spec.runName role, code)])
    (hcode : code ≠ 0) : Verdict spec role es (.failed code)

theorem verdict_ofExitCode {spec : Container} {code : Int} (hcommand : spec.command ≠ none)
    (hexits : exits es = [(spec.runName role, code)]) : Verdict spec role es (.ofExitCode code) := by
  unfold TestOutcome.ofExitCode
  split
  · rename_i hzero
    exact .passed hcommand (hzero ▸ hexits)
  · rename_i hne
    exact .failed code hcommand hexits hne

/-- a turn leaves nothing running, and its outcome says what happened -/
theorem visit_cases {r : Except LocalFault TestOutcome} (h : (visit compiler network role).Play es r) : Settled es ∧
    ∀ outcome, r = .ok outcome → ∃ spec, compiler.container role = .ok spec ∧ Verdict spec role es outcome := by
  have hlooked {interrupted : Bool} {rest : List Asked} (hrest : Settled rest) :
      Settled (⟨.cancelled, interrupted⟩ :: rest) :=
    Settled.cons_iff.2 ⟨trivial, hrest⟩
  have hnoted {rest : List Asked} (hrest : Settled rest) : Settled (⟨.note s!"  Testing {role}...", ()⟩ :: rest) :=
    Settled.cons_iff.2 ⟨trivial, hrest⟩
  obtain ⟨interrupted, rest, rfl, hgo⟩ := play_cancelled_bind_iff.1 h
  cases interrupted with
  | true =>
    obtain ⟨rfl, rfl⟩ := play_fail_iff.1 hgo
    exact ⟨hlooked Settled.nil, nofun⟩
  | false =>
    cases hspec : compiler.container role with
    | error f =>
      simp only [hspec] at hgo
      obtain ⟨rfl, rfl⟩ := play_fail_iff.1 hgo
      exact ⟨hlooked Settled.nil, nofun⟩
    | ok spec =>
      simp only [hspec] at hgo
      split at hgo
      · rename_i hcommand
        obtain ⟨rfl, rfl⟩ := play_done_iff.1 hgo
        refine ⟨hlooked Settled.nil, fun outcome hr => ?_⟩
        cases hr
        exact ⟨spec, rfl, .skipped (Option.isNone_iff_eq_none.1 hcommand) rfl⟩
      · rename_i hcommand
        obtain ⟨tests, rfl, htested⟩ := play_note_bind_iff.1 hgo
        obtain ⟨f, rfl, hsuite⟩ | ⟨code, es₁, es₂, rfl, hsuite, hend⟩ := play_bind_iff.1 htested
        · exact ⟨hlooked (hnoted (suite_settled hsuite).1), nofun⟩
        · obtain ⟨rfl, rfl⟩ := play_done_iff.1 hend
          obtain ⟨hsettled, hcode⟩ := suite_settled hsuite
          rw [List.append_nil]
          refine ⟨hlooked (hnoted hsettled), fun outcome hr => ?_⟩
          cases hr
          obtain ⟨spec', hspec', hexits⟩ := hcode code rfl
          have hfound := Compiler.get?_graphOf_last compiler [] role spec
          rw [List.nil_append, hspec'] at hfound
          obtain rfl : spec' = spec := by injection hfound
          have hgiven : spec'.command ≠ none := fun h => hcommand (by rw [h]; rfl)
          exact ⟨spec', rfl, verdict_ofExitCode hgiven hexits⟩

/-- one role's turn in a run: what was exchanged, and how its tests ended -/
structure Visit where
  role : String
  asked : List Asked
  outcome : TestOutcome

/-- the turn was a turn of that role, it left nothing running, and its outcome says what happened -/
structure Visit.Sound (compiler : Compiler) (network : String) (v : Visit) : Prop where
  play : (visit compiler network v.role).Play v.asked (.ok v.outcome)
  settled : Settled v.asked
  verdict : ∃ spec, compiler.container v.role = .ok spec ∧ Verdict spec v.role v.asked v.outcome

/-- a container ended with another exit code than zero -/
def Visit.isBad (v : Visit) : Bool := (exits v.asked).any fun e => e.2 ≠ 0

theorem Visit.Sound.isFailure {v : Visit} (h : v.Sound compiler network) : v.outcome.isFailure = v.isBad := by
  obtain ⟨role, asked, outcome⟩ := v
  obtain ⟨spec, -, hverdict⟩ := h.verdict
  unfold isBad
  cases hverdict with
  | skipped _ hquiet =>
    rw [exits_eq_nil fun name hin => by rw [hquiet] at hin; cases hin]
    rfl
  | passed _ hexits =>
    rw [hexits]
    rfl
  | failed code _ hexits hcode =>
    rw [hexits]
    simp [TestOutcome.isFailure, hcode]

/-- roles are visited one after the other, until a visit fails -/
theorem testRoles_visits (h : (testRoles compiler network report roles).Play es x) : ∃ visits : List Visit,
    (∀ v ∈ visits, v.Sound compiler network) ∧
    ((x = .ok (report.reverse ++ visits.map fun v => (v.role, v.outcome)) ∧ visits.map Visit.role = roles ∧
        es = visits.flatMap Visit.asked) ∨
      ∃ f role after own, x = .error f ∧ roles = visits.map Visit.role ++ role :: after ∧
        es = visits.flatMap Visit.asked ++ own ∧ Settled own ∧ (visit compiler network role).Play own (.error f)) := by
  induction roles generalizing report es with
  | nil =>
    obtain ⟨rfl, rfl⟩ := play_done_iff.1 h
    exact ⟨[], by simp, .inl ⟨by simp, rfl, rfl⟩⟩
  | cons role roles ih =>
    rw [testRoles_cons] at h
    obtain ⟨f, rfl, hvisit⟩ | ⟨outcome, own, rest, rfl, hvisit, hrest⟩ := play_bind_iff.1 h
    · exact ⟨[], by simp, .inr ⟨f, role, roles, es, rfl, rfl, rfl, (visit_cases hvisit).1, hvisit⟩⟩
    · obtain ⟨hsettled, hverdict⟩ := visit_cases hvisit
      have hfirst : Visit.Sound compiler network ⟨role, own, outcome⟩ := ⟨hvisit, hsettled, hverdict outcome rfl⟩
      obtain ⟨visits, hsound, ⟨rfl, rfl, rfl⟩ | ⟨f, last, after, failing, rfl, rfl, rfl, hfailing⟩⟩ := ih hrest
      · refine ⟨⟨role, own, outcome⟩ :: visits, List.forall_mem_cons.2 ⟨hfirst, hsound⟩, .inl ⟨?_, rfl, rfl⟩⟩
        rw [List.reverse_cons, List.append_assoc]
        rfl
      · refine ⟨⟨role, own, outcome⟩ :: visits, List.forall_mem_cons.2 ⟨hfirst, hsound⟩, .inr ?_⟩
        exact ⟨f, last, after, failing, rfl, rfl, by simp, hfailing⟩

/-! ## All roles -/

/-- **The roles of a project are tested one after the other, in ascending order, and each leaves nothing running.**
- If the run ends with a report, it has one entry for each role: skipped without any call if its container has no
  command, and otherwise passed just if the one container that was waited for ended with zero. The report has a problem
  just if some container ended otherwise, and then it names the roles of these.
- If it fails, then with one role, whose turn leaves nothing running either. -/
theorem roles_are_settled (h : (all compiler).Play es x) :
    compiler.project.roles.Pairwise (· < ·) ∧ ∃ visits : List Visit,
      (∀ v ∈ visits, v.Sound compiler (Naming.projectName compiler.project.dir)) ∧
      ((∃ report, x = .ok report ∧ visits.map Visit.role = compiler.project.roles ∧ es = visits.flatMap Visit.asked ∧
          report = visits.map (fun v => (v.role, v.outcome)) ∧
          report.problem? = if visits.any Visit.isBad then
            some (TestReport.failureText ((visits.filter Visit.isBad).map Visit.role)) else none) ∨
        ∃ f role after own, x = .error f ∧ compiler.project.roles = visits.map Visit.role ++ role :: after ∧
          es = visits.flatMap Visit.asked ++ own ∧ Settled own ∧
          (visit compiler (Naming.projectName compiler.project.dir) role).Play own (.error f)) := by
  refine ⟨compiler.project.ascending_roles, ?_⟩
  obtain ⟨visits, hsound, ⟨rfl, hroles, hes⟩ | hfailed⟩ := testRoles_visits h
  · refine ⟨visits, hsound, .inl ⟨_, rfl, hroles, hes, rfl, ?_⟩⟩
    have hfailures : TestReport.failures (visits.map fun v => (v.role, v.outcome)) =
        (visits.filter Visit.isBad).map Visit.role := by
      rw [TestReport.failures, List.filter_map, List.map_map]
      congr 1
      exact List.filter_congr fun v hv => (hsound v hv).isFailure
    have hempty : ((visits.filter Visit.isBad).map Visit.role).isEmpty = !visits.any Visit.isBad := by
      rw [List.isEmpty_map, Bool.eq_iff_iff]
      simp [List.isEmpty_iff, List.filter_eq_nil_iff]
    rw [List.reverse_nil, List.nil_append, TestReport.problem?, hfailures, hempty]
    cases visits.any Visit.isBad <;> rfl
  · exact ⟨visits, hsound, .inr hfailed⟩

/-! ## A shop whose pages fail their tests -/

/-- an image without tests, and pages that are tested behind a store of sessions -/
def shopTests : Compiler where
  project := {
    dir := "/shop"
    application := {
      name := "shop"
      services := .ofList [("database", { image := some "mysql:8" }), ("web", { location := some "web" })] }
    services := .ofList [("database", {}),
      ("web", {
        scripts := { test := some "make test" },
        onMachine := { dependencies := [{ name := "redis", version := "7" }] } })] }
  mode := .localTest
  lookup := fun _ => none

/-- the tests of the pages end with two -/
def shopTestEnds : Rehearsal.Script where
  exitCodes := .singleton "web" 2

/-- the pages are reported, and everything that was started is stopped again -/
theorem shop_tests_are_settled : ∃ es, (all shopTests).Play es (.ok [("database", .skipped), ("web", .failed 2)]) ∧
    (launches es).map Prod.fst = ["redis7", "web"] ∧ TestReport.problem? [("database", .skipped), ("web", .failed 2)] =
      some (TestReport.failureText ["web"]) ∧ ∃ visits : List Visit, es = visits.flatMap Visit.asked ∧
        ∀ v ∈ visits, v.Sound shopTests "shop" := by
  have hresult : ((all shopTests).run (Rehearsal.answer shopTestEnds) {}).1 =
      .ok [("database", .skipped), ("web", .failed 2)] := by decide +kernel
  have hlaunches : (launches ((all shopTests).transcript (Rehearsal.answer shopTestEnds) {})).map Prod.fst =
      ["redis7", "web"] := by decide +kernel
  have hplay := hresult ▸ play_run (Rehearsal.answer shopTestEnds) (all shopTests) {}
  refine ⟨_, hplay, hlaunches, rfl, ?_⟩
  obtain ⟨_, visits, hsound, ⟨_, _, _, hes, _⟩ | ⟨_, _, _, _, hr, _⟩⟩ := roles_are_settled hplay
  · exact ⟨visits, hes, hsound⟩
  · cases hr

end TestRun

end Fleet
