/-
What the commands do, as programs for the machine.

Each command loads the project first. Compose files are written before anything is started, and programs are
looked for before anything is called.
-/
import Fleet.CommandLine.Invocation
import Fleet.Compose
import Fleet.ComposeFile.Text
import Fleet.Deploy.Pipeline
import Fleet.Local.TestRun
import Fleet.Table
import Fleet.Tooling.Toolset

namespace Fleet.CommandLine

open Machine

/-- why a command fails -/
inductive CommandFault where
  | fault (f : Fault)
  | notLoaded (dir : String) (f : Fault)
  | notCompiled (mode : Mode) (f : Fault)
  | ended (f : LocalFault)
  | testsFailed (text : String)
  | deploying (f : StageFault)
  deriving DecidableEq, Repr

def CommandFault.message : CommandFault → String
  | .fault f => f.message
  | .notLoaded dir f => s!"cannot load application in {dir}: {f.message}"
  | .notCompiled mode f => s!"cannot compile {mode.label} graph: {f.message}"
  | .ended f => f.message
  | .testsFailed text => text
  | .deploying f => f.message

abbrev Run (α : Type) := Program CommandFault α

/-! ## Steps -/

def plainly {α : Type} (p : Program Fault α) : Run α := p.mapFailure .fault

def print (text : String) : Run Unit := .ask (.print text) .done

/-- lines on standard output -/
def printLines (lines : List String) : Run Unit := print (String.join (lines.map fun l => l ++ "\n"))

/-- lines on standard error -/
def noteLines : List String → Run Unit
  | [] => .done ()
  | line :: rest => .ask (.note line) fun _ => noteLines rest

def load (dir : String) : Run Project := (Project.load dir).mapFailure (.notLoaded dir)

/-- the whole application in one mode -/
def compile (p : Project) (mode : Mode) (environment : String → Option String) : Run Composition :=
  match (Compiler.mk p mode environment).application with
  | .ok c => .done c
  | .error f => .fail (.notCompiled mode f)

/-- write a mode's compose file, for its path -/
def writeCompose (s : Settings) (p : Project) (mode : Mode) (c : Composition) : Run String :=
  plainly (c.store (s.composePath p.dir mode))

/-- the tools of a local run, which calls the container engine only -/
def localTools (s : Settings) : Run Toolset :=
  (plainly (Docker.locate s.dockerProgram)).bind fun docker =>
    .done ⟨docker, ⟨s.terraformProgram⟩, ⟨s.awsProgram, docker⟩⟩

/-- all tools, in the order in which they are looked for -/
def deployTools (s : Settings) : Run Toolset :=
  (plainly (Docker.locate s.dockerProgram)).bind fun docker =>
    (plainly (Terraform.locate s.terraformProgram)).bind fun terraform =>
      (plainly (Aws.locate s.awsProgram docker)).bind fun aws => .done ⟨docker, terraform, aws⟩

/-! ## Compose and plan -/

def compose (s : Settings) (appDir : String) (mode : Mode) (environment : String → Option String) :
    Run Unit :=
  (load appDir).bind fun p =>
    (compile p mode environment).bind fun c =>
      (writeCompose s p mode c).bind fun path =>
        printLines [s!"Wrote {c.services.size} component(s) to {path}"]

/-- one component of a plan: its name, its origin and what it waits for -/
def planLines (c : Composition) (name : String) : List String :=
  let more := match c.services.get? name with
    | none => []
    | some spec =>
      ("      " ++ spec.sourceLabel) ::
        if spec.dependsOn.isEmpty then [] else ["      after: " ++ Text.join ", " spec.dependsOn]
  ("  + " ++ name) :: more

def planText (p : Project) (mode : Mode) (c : Composition) (order : List String) : List String :=
  let title := s!"Startup plan for {p.name} ({mode.label})"
  [title, Table.rule title.length, ""] ++ order.flatMap (planLines c) ++
    ["", s!"  {order.length} component(s) will be started."]

def plan (appDir : String) (mode : Mode) (environment : String → Option String) : Run Unit :=
  (load appDir).bind fun p =>
    (compile p mode environment).bind fun c =>
      (plainly (.ofExcept c.startOrder)).bind fun order => printLines (planText p mode c order)

/-! ## Local runs -/

/-- the listed containers that belong to a composition, as rows -/
def containerLines (c : Composition) (listed : List ContainerRecord) : List String :=
  let ours := listed.filter fun r => c.services.values.any fun spec => spec.name = some r.name
  if ours.isEmpty then [] else "" :: Table.entryLines (ours.map fun r => (r.name, r.status))

/-- show the running containers; that they cannot be listed does no harm -/
def showContainers (t : Toolset) (c : Composition) : Run Unit :=
  t.docker.listContainers.attempt.bind fun
    | .ok listed => noteLines (containerLines c listed)
    | .error _ => .done ()

/-- wait for an interrupt, then stop everything -/
def serve (t : Toolset) (s : Stack) : Run Unit :=
  (noteLines ["", "  Press Ctrl+C to stop all containers..."]).bind fun _ =>
    .ask .awaitInterrupt fun _ =>
      (noteLines ["", "  Stopping containers..."]).bind fun _ =>
        ((t.play s.teardown).mapFailure Empty.elim).bind fun
          | some f => .fail (.fault f)
          | none => noteLines ["  All containers stopped."]

def run (s : Settings) (appDir : String) (mode : Mode) (detach : Bool)
    (environment : String → Option String) : Run Unit :=
  (load appDir).bind fun p =>
    (compile p mode environment).bind fun c =>
      (writeCompose s p mode c).bind fun _ =>
        (plainly (.ofExcept c.startOrder)).bind fun order =>
          (localTools s).bind fun tools =>
            let network := Naming.projectName p.dir
            ((tools.play (Stack.up p network c order)).mapFailure .ended).bind fun stack =>
              .ask .elapsed fun time =>
                (noteLines ["",
                  s!"  Started {stack.started.length} container(s) on network {network} in {time}"]).bind
                  fun _ =>
                    (showContainers tools c).bind fun _ =>
                      if detach then
                        noteLines ["", "  Running detached. The next run replaces these containers."]
                      else serve tools stack

/-- a test report as rows -/
def reportLines (r : TestReport) : List String :=
  "" :: Table.entryLines (r.map fun e => (e.1, e.2.text))

def test (s : Settings) (appDir : String) (mode : Mode) (environment : String → Option String) :
    Run Unit :=
  (load appDir).bind fun p =>
    (compile p mode environment).bind fun c =>
      (writeCompose s p mode c).bind fun _ =>
        (localTools s).bind fun tools =>
          ((tools.play (TestRun.all ⟨p, mode, environment⟩)).mapFailure .ended).bind fun report =>
            (noteLines (reportLines report)).bind fun _ =>
              match TestReport.problem? report with
              | some text => .fail (.testsFailed text)
              | none => .done ()

/-! ## Deploys and cleaning -/

/-- a deploy as it starts -/
def newDeploy (s : Settings) (p : Project) (autoApprove : Bool) : Deploy where
  project := p
  account := .ofProject p s.profile
  infraDir := s.infraPath p.dir
  autoApprove
  concurrency := s.concurrency

def deploy (s : Settings) (appDir : String) (autoApprove : Bool) : Run Unit :=
  (load appDir).bind fun p =>
    (deployTools s).bind fun tools =>
      let d := newDeploy s p autoApprove
      (printLines [s!"Deploying {p.name} to account {d.account.id}"]).bind fun _ =>
        ((tools.play d.run).mapFailure Empty.elim).bind fun
          | (_, .error f) => .fail (.deploying f)
          | (_, .ok ()) => printLines ["Deploy complete."]

def clean (s : Settings) : Run Unit :=
  (plainly (Docker.locate s.dockerProgram)).bind fun docker =>
    (plainly docker.listImages).bind fun before =>
      (plainly docker.prune).bind fun _ =>
        (plainly docker.listImages).bind fun after =>
          printLines
            [s!"Removed {before.length - after.length} dangling image(s) and unused volumes."]

/-- what was asked for; secrets of local runs come from the environment -/
def Invocation.perform (environment : String → Option String) (i : Invocation) : Run Unit :=
  match i.order with
  | .compose mode noMount => compose i.settings i.appDir (mode.mode noMount) environment
  | .plan mode => plan i.appDir (mode.mode false) environment
  | .run mode noMount detach => run i.settings i.appDir (mode.mode noMount) detach environment
  | .test noMount => test i.settings i.appDir (LocalMode.mode .test noMount) environment
  | .deploy autoApprove => deploy i.settings i.appDir autoApprove
  | .clean => clean i.settings

end Fleet.CommandLine
