/-
What the program is asked to do.

Some options are understood in front of the command as well as behind it. What is said behind the command
wins; after arguments come variables of the environment, then defaults.
-/
import Fleet.CommandLine.Arguments
import Fleet.Mode
import Fleet.Settings

namespace Fleet.CommandLine

/-- the modes that can be asked for -/
inductive LocalMode where
  | dev | test | prod
  deriving DecidableEq, Repr

def LocalMode.ofName? : String → Option LocalMode
  | "dev" => some .dev
  | "test" => some .test
  | "prod" => some .prod
  | _ => none

/-- the mode to compile for; mounting can only be turned off -/
def LocalMode.mode (m : LocalMode) (noMount : Bool) : Mode :=
  let mode := match m with
    | .dev => Mode.localDevelopment
    | .test => Mode.localTest
    | .prod => Mode.localProduction
  if noMount then { mode with mount := false } else mode

inductive Order where
  | compose (mode : LocalMode) (noMount : Bool)
  | plan (mode : LocalMode)
  | run (mode : LocalMode) (noMount detach : Bool)
  | test (noMount : Bool)
  | deploy (autoApprove : Bool)
  | clean
  deriving DecidableEq, Repr

structure Invocation where
  appDir : String
  settings : Settings
  order : Order
  deriving DecidableEq, Repr

/-! ## Options -/

def anyText : Kind := .value fun _ => none

/-- a path is not empty -/
def pathText : Kind := .value fun v => if v = "" then some .badValue else none

def modeName : Kind := .value fun v => if (LocalMode.ofName? v).isSome then none else some .badValue

/-- a number of machine size, perhaps with a plus sign -/
def readSize? (v : String) : Option Nat :=
  let digits := match v.toList with
    | '+' :: rest => rest
    | cs => cs
  (Text.readNat? 10 digits).filter (· < Nat.pow 2 64)

def sizeText : Kind := .value fun v => if (readSize? v).isSome then none else some .badNumber

def appDirOpt : Opt := { name := "app-dir", kind := pathText, variableName := some "STRATUS_APP_DIR" }

def dockerOpt : Opt :=
  { name := "docker-bin", kind := anyText, variableName := some "STRATUS_DOCKER_BIN" }

def terraformOpt : Opt :=
  { name := "terraform-bin", kind := anyText, variableName := some "STRATUS_TERRAFORM_BIN" }

def awsOpt : Opt := { name := "aws-bin", kind := anyText, variableName := some "STRATUS_AWS_BIN" }

def modeOpt : Opt := { name := "mode", kind := modeName }

def noMountOpt : Opt := { name := "no-mount", kind := .flag }

def detachOpt : Opt := { name := "detach", kind := .flag, short := some 'd' }

def autoApproveOpt : Opt := { name := "auto-approve", kind := .flag }

def profileOpt : Opt :=
  { name := "profile", kind := anyText, variableName := some "STRATUS_AWS_PROFILE" }

def concurrencyOpt : Opt :=
  { name := "push-concurrency", kind := sizeText, variableName := some "STRATUS_PUSH_CONCURRENCY" }

/-- options of all commands -/
def sharedOpts : List Opt := [appDirOpt, dockerOpt, terraformOpt, awsOpt]

def commandOpts : String → List Opt
  | "compose" => [modeOpt, noMountOpt]
  | "plan" => [modeOpt]
  | "run" => [modeOpt, noMountOpt, detachOpt]
  | "test" => [noMountOpt]
  | "deploy" => [autoApproveOpt, profileOpt, concurrencyOpt]
  | _ => []

def commandNames : List String := ["compose", "plan", "run", "test", "deploy", "clean"]

def helpCommand : String := "help"

def topLevel : Level :=
  { opts := sharedOpts, commands := helpCommand :: commandNames, showsVersion := true }

def commandLevel (name : String) : Level := { opts := commandOpts name ++ sharedOpts }

/-! ## Values -/

/-- what was said about options, by precedence -/
structure Said where
  behind : Given
  inFront : Given
  environment : Given

def Said.value? (s : Said) (o : Opt) : Option String :=
  (s.behind.get? o.name).or ((s.inFront.get? o.name).or (s.environment.get? o.name))

def Said.value (s : Said) (o : Opt) (absent : String) : String := (s.value? o).getD absent

def Said.isSet (s : Said) (o : Opt) : Bool := s.behind.contains o.name

def Said.mode (s : Said) : LocalMode := ((s.value? modeOpt).bind LocalMode.ofName?).getD .dev

/-- at least one image is published at a time -/
def Said.concurrency (s : Said) : Nat :=
  max 1 (((s.value? concurrencyOpt).bind readSize?).getD Deploy.defaultConcurrency)

def Said.settings (s : Said) : Settings :=
  let defaults : Settings := {}
  { defaults with
    dockerProgram := s.value dockerOpt defaults.dockerProgram
    terraformProgram := s.value terraformOpt defaults.terraformProgram
    awsProgram := s.value awsOpt defaults.awsProgram
    profile := s.value profileOpt defaults.profile
    concurrency := s.concurrency }

def Said.order (s : Said) : String → Order
  | "compose" => .compose s.mode (s.isSet noMountOpt)
  | "plan" => .plan s.mode
  | "run" => .run s.mode (s.isSet noMountOpt) (s.isSet detachOpt)
  | "test" => .test (s.isSet noMountOpt)
  | "deploy" => .deploy (s.isSet autoApproveOpt)
  | _ => .clean

def defaultAppDir : String := "."

def Said.invocation (s : Said) (command : String) : Invocation :=
  ⟨s.value appDirOpt defaultAppDir, s.settings, s.order command⟩

/-! ## Reading -/

/-- help is shown for the program, or for one command -/
def helpRefusal : List String → Refusal
  | [] => .helpAsked
  | [name] => if topLevel.commands.contains name then .helpAsked else .unknownCommand
  | _ => .unknownCommand

/-- a command and its arguments, behind what was read in front of it -/
def readCommand (environment : String → Option String) (front : Reading) (name : String)
    (args : List String) : Except Refusal Invocation := do
  if name = helpCommand then .error (helpRefusal args)
  else
    let (r, _) ← readLevel (commandLevel name) {} args
    let (behind, environmentBehind) ← finishLevel environment (commandLevel name) r
    let (inFront, _) ← finishLevel environment topLevel front
    .ok (Said.invocation ⟨behind, inFront, environmentBehind⟩ name)

/-- what the arguments, without the program's own name, ask for -/
def Invocation.read (environment : String → Option String) (args : List String) :
    Except Refusal Invocation := do
  let (front, command) ← readLevel topLevel {} args
  match command with
  | some (name, rest) => readCommand environment front name rest
  | none =>
    let (given, fromEnvironment) ← finishLevel environment topLevel front
    .error (if given.isEmpty && fromEnvironment.isEmpty then .nothingAsked else .noCommand)

end Fleet.CommandLine
