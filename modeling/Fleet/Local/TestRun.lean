/-
The tests of an application's services, run one after the other.

A service with a test command is started behind everything it needs, and its exit code decides. Whatever
happens, its containers are stopped before the next service is tested.
-/
import Fleet.Compose
import Fleet.Local.Stack
import Fleet.StartOrder
import Fleet.Text.Lines

namespace Fleet

inductive TestOutcome where
  | passed
  | failed (exitCode : Int)
  | skipped
  deriving DecidableEq, Repr

namespace TestOutcome

def ofExitCode (code : Int) : TestOutcome := if code = 0 then .passed else .failed code

def text : TestOutcome → String
  | .passed => "passed"
  | .failed code => s!"failed (exit code {code})"
  | .skipped => "no test script"

def isFailure : TestOutcome → Bool
  | .failed _ => true
  | .passed | .skipped => false

end TestOutcome

/-- outcomes by role, in the order of testing -/
abbrev TestReport := List (String × TestOutcome)

namespace TestReport

/-- the roles whose tests failed -/
def failures (r : TestReport) : List String := (r.filter fun e => e.2.isFailure).map Prod.fst

/-- what is said of a report with failures -/
def failureText (roles : List String) : String := "tests failed for " ++ Text.join ", " roles

/-- the text of the failure, if any test failed -/
def problem? (r : TestReport) : Option String :=
  if r.failures.isEmpty then none else some (failureText r.failures)

end TestReport

namespace TestRun

/-- start the role, wait for its end and stop everything again; a fault of the role comes before one of the
stopping -/
def finish (p : Project) (c : Composition) (role : String) (s : Stack) : Action LocalFault Int :=
  (s.start p c role).attempt.bind fun started =>
    let (after, code) : Stack × Action LocalFault (Except LocalFault Int) := match started with
      | .ok (container, s) => (s, (Stack.callLocal (.wait container)).attempt)
      | .error f => (s, .done (.error f))
    code.bind fun code =>
      (Stack.widenLocal after.teardown).bind fun problem =>
        match code, problem with
        | .error f, _ => .fail f
        | .ok _, some f => .fail (.fault f)
        | .ok n, none => .done n

/-- the exit code of one role's tests -/
def suite (p : Project) (network : String) (c : Composition) (role : String) : Action LocalFault Int :=
  match c.startOrder with
  | .error f => .fail (.fault f)
  | .ok order =>
    (Stack.up p network c (order.filter (· ≠ role))).bind (finish p c role)

/-- the tests of these roles; `report` is in reverse -/
def testRoles (compiler : Compiler) (network : String) (report : TestReport) :
    List String → Action LocalFault TestReport
  | [] => .done report.reverse
  | role :: rest =>
    Action.cancelled.bind fun
      | true => .fail (.interruptedTest role)
      | false =>
        match compiler.service role with
        | .error f => .fail (.fault f)
        | .ok own =>
          let c := compiler.dependencies.merge own
          if ((c.services.get? role).bind Container.command).isNone then
            testRoles compiler network ((role, .skipped) :: report) rest
          else
            (Action.note s!"  Testing {role}...").bind fun _ =>
              (suite compiler.project network c role).bind fun code =>
                testRoles compiler network ((role, .ofExitCode code) :: report) rest

/-- the tests of all roles, in ascending order -/
def all (compiler : Compiler) : Action LocalFault TestReport :=
  testRoles compiler (Naming.projectName compiler.project.dir) [] compiler.project.roles

end TestRun

end Fleet
