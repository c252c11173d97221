/-
The deploy pipeline: stages that run one after the other.

`Pipeline.run` is the same for any stages. It looks at the token before each stage, announces the stage, runs
its body from what the last one left, and stops at the first that fails. `Deploy.standard` are the nine stages
of a deploy; what a stage learns is kept only if the stage succeeds.
-/
import Fleet.Deploy.Context
import Fleet.Deploy.Publish
import Fleet.Drift

namespace Fleet

inductive Stage where
  | validate
  | provisionAccount
  | pushImages
  | readPriorState
  | generateFiles
  | diffCheck
  | retrieveSecrets
  | initialiseState
  | apply
  deriving DecidableEq, Repr

namespace Stage

def all : List Stage := [.validate, .provisionAccount, .pushImages, .readPriorState, .generateFiles,
  .diffCheck, .retrieveSecrets, .initialiseState, .apply]

def name : Stage → String
  | .validate => "validate"
  | .provisionAccount => "provision-account"
  | .pushImages => "push-images"
  | .readPriorState => "read-prior-infra-state"
  | .generateFiles => "generate-infra-files"
  | .diffCheck => "diff-check-infra-files"
  | .retrieveSecrets => "retrieve-secrets"
  | .initialiseState => "init-remote-state"
  | .apply => "apply"

/-- what is announced when the stage starts -/
def progress : Stage → String
  | .validate => "Validating application configuration"
  | .provisionAccount => "Setting up the cloud account"
  | .pushImages => "Publishing images"
  | .readPriorState => "Retrieving previous infrastructure files"
  | .generateFiles => "Generating infrastructure files"
  | .diffCheck => "Checking infrastructure files for changes"
  | .retrieveSecrets => "Retrieving secrets"
  | .initialiseState => "Initializing remote state"
  | .apply => "Applying infrastructure changes"

end Stage

/-- a fault and the stage it happened in -/
structure StageFault where
  stage : Stage
  fault : Fault
  deriving DecidableEq, Repr

def StageFault.message (f : StageFault) : String := s!"{f.stage.name} failed: {f.fault.message}"

namespace Pipeline

/-- a stage's body: it leaves a context behind whether it succeeds or not -/
abbrev Body (σ : Type) := σ → Action Empty (σ × Except Fault Unit)

/-- a body that leaves its context unchanged if it fails -/
def Body.ofStep {σ : Type} (f : σ → Action Fault σ) : Body σ := fun s =>
  (f s).attempt.bind fun
    | .ok t => .done (t, .ok ())
    | .error e => .done (s, .error e)

/-- run the stages in order, up to the first that fails or finds the token cancelled -/
def run {σ : Type} : List (Stage × Body σ) → σ → Action Empty (σ × Except StageFault Unit)
  | [], s => .done (s, .ok ())
  | (stage, body) :: rest, s =>
    Action.cancelled.bind fun
      | true => .done (s, .error ⟨stage, .cancelled⟩)
      | false =>
        (Action.say (stage.progress ++ "...\n")).bind fun _ =>
          (body s).bind fun
            | (s, .ok ()) => run rest s
            | (s, .error f) => .done (s, .error ⟨stage, f⟩)

end Pipeline

namespace Deploy

/-! ## Stages -/

def validate (d : Deploy) : Action Fault Deploy :=
  (Dialogue.ofExcept d.project.checkDeployable).bind fun _ => .done d

def provisionAccount (d : Deploy) : Action Fault Deploy :=
  (Action.call (.ensureAccount d.account)).bind fun _ => .done d

/-- one line for each published image -/
def announce : List (String × String) → Action Fault Unit
  | [] => .done ()
  | (name, reference) :: rest =>
    (Action.say s!"  {name}: {reference}\n").bind fun _ => announce rest

def pushImages (d : Deploy) : Action Fault Deploy :=
  (Action.call (.registryLogin d.account)).bind fun registry =>
    (Dialogue.ofExcept d.project.imageJobs).bind fun jobs =>
      (publish ⟨d.account, registry⟩ jobs d.concurrency).bind fun images =>
        (announce images.entries).bind fun _ => .done { d with images := some images }

def readPriorState (d : Deploy) : Action Fault Deploy :=
  (Action.call (.readDefinition d.infraDir)).bind fun previous => .done { d with previous }

def generateFiles (d : Deploy) : Action Fault Deploy :=
  (Dialogue.ofExcept d.imagesOr).bind fun images =>
    (Dialogue.ofExcept (Infrastructure.ofProject d.project d.account images)).bind fun i =>
      (Action.call (.writeDefinition d.infraDir i)).bind fun text =>
        .done { d with generated := some text }

def driftPrompt : String := "The infrastructure files changed. Do you want to continue?"

/-- show the drift; changes go on only if they are approved -/
def settleDrift (d : Deploy) (drift : Drift) : Action Fault Deploy :=
  match drift with
  | .noPrior => (Action.say "  no previous infrastructure files\n").bind fun _ => .done d
  | .unchanged _ => (Action.say "  infrastructure files unchanged\n").bind fun _ => .done d
  | .changed diff _ _ =>
    (Action.say (diff ++ "\n")).bind fun _ =>
      if d.autoApprove then .done d
      else
        (Action.call (.confirm driftPrompt)).bind fun accepted =>
          if accepted then .done d else .fail (.driftDeclined (drift.summary?.getD ""))

def diffCheck (d : Deploy) : Action Fault Deploy :=
  match d.generated with
  | none => .fail (.unresolved "infrastructure files" .notGenerated)
  | some generated => d.settleDrift (.compare d.previous generated)

def retrieveSecrets (d : Deploy) : Action Fault Deploy :=
  (Action.call (.readSecrets d.account)).bind fun secrets => .done { d with secrets := some secrets }

def initialiseState (d : Deploy) : Action Fault Deploy :=
  (Action.call (.initialise d.infraDir d.account)).bind fun _ => .done d

def apply (d : Deploy) : Action Fault Deploy :=
  (Dialogue.ofExcept d.varFlags).bind fun flags =>
    (Action.call (.apply d.infraDir flags d.autoApprove)).bind fun _ => .done d

/-- what a stage of a deploy does -/
def step : Stage → Deploy → Action Fault Deploy
  | .validate => validate
  | .provisionAccount => provisionAccount
  | .pushImages => pushImages
  | .readPriorState => readPriorState
  | .generateFiles => generateFiles
  | .diffCheck => diffCheck
  | .retrieveSecrets => retrieveSecrets
  | .initialiseState => initialiseState
  | .apply => apply

/-- the stages of a deploy, in order -/
def standard : List (Stage × Pipeline.Body Deploy) :=
  Stage.all.map fun s => (s, Pipeline.Body.ofStep (step s))

/-- a whole deploy -/
def run (d : Deploy) : Action Empty (Deploy × Except StageFault Unit) := Pipeline.run standard d

end Deploy

end Fleet
