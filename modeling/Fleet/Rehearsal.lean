/-
Rehearsals: actions played against collaborators that follow a script.

The script says which calls fail and how, at which call the token is cancelled, and what the others answer.
Every call is recorded as one line of text. Calls themselves do not look at the token.
-/
import Fleet.Collaborator
import Fleet.Text.Lines

namespace Fleet

/-! ## Calls as text -/

/-- whose call it is -/
def Call.tool : Call → Tool
  | .pull _ | .imageExists _ | .build _ _ _ | .start _ _ _ | .wait _ | .stop _ | .remove _
  | .createNetwork _ | .removeNetwork _ | .push _ | .tag _ _ | .listImages | .listContainers
  | .prune => .docker
  | .readDefinition _ | .writeDefinition _ _ | .initialise _ _ | .apply _ _ _ => .terraform
  | .ensureAccount _ | .ensureRepository _ _ | .registryLogin _ | .readSecrets _ => .aws
  | .confirm _ => .terminal

/-- the words of a call -/
def Call.words : Call → List String
  | .pull image => ["pull", image]
  | .imageExists image => ["image_exists", image]
  | .build context dockerfile name => ["build", context, dockerfile, name]
  | .start name spec network => ["run", name, spec.image.getD "-", network.getD "-"]
  | .wait name => ["wait", name]
  | .stop name => ["stop", name]
  | .remove name => ["rm", name]
  | .createNetwork name => ["network", "create", name]
  | .removeNetwork name => ["network", "rm", name]
  | .push image => ["push", image]
  | .tag source target => ["tag", source, target]
  | .listImages => ["list_images"]
  | .listContainers => ["list_containers"]
  | .prune => ["prune"]
  | .readDefinition dir => ["read_definition", dir]
  | .writeDefinition dir _ => ["write_definition", dir]
  | .initialise dir account => ["init", dir, account.profile]
  | .apply dir flags autoApprove =>
    ["apply", dir, if autoApprove then "true" else "false", Text.join " " flags]
  | .ensureAccount account => ["ensure_account", account.stateBucket]
  | .ensureRepository _ name => ["ensure_repository", name]
  | .registryLogin _ => ["registry_login"]
  | .readSecrets account => ["read_secrets", account.secretId]
  | .confirm prompt => ["confirm", prompt]

def Call.line (c : Call) : String := Text.join " " c.words

namespace Rehearsal

/-! ## Scripts -/

/-- how a scripted call fails -/
inductive FailureKind where
  | cancelled
  | secret
  | resolution
  | tool
  deriving DecidableEq, Repr

/-- calls that contain a text fail -/
structure ScriptedFailure where
  part : String
  kind : FailureKind
  text : String
  deriving DecidableEq, Repr

def ScriptedFailure.fault (f : ScriptedFailure) (t : Tool) : Fault :=
  match f.kind with
  | .cancelled => .cancelled
  | .secret => .secretMissing f.text
  | .resolution => .unresolved t.name (.reported f.text)
  | .tool => .tool t f.text

structure Script where
  failures : List ScriptedFailure := []
  /-- the token is cancelled by a call that contains this text -/
  cancelOn : Option String := none
  missingImages : List String := []
  /-- names of containers that are there before -/
  existing : List String := []
  exitCodes : SortedMap Int := .empty
  previous : Option String := none
  secrets : Secrets := .empty
  accepts : Bool := false

/-- what a call that does not fail is answered -/
def Script.respond (s : Script) : (c : Call) → c.Answer
  | .pull _ | .build _ _ _ | .stop _ | .remove _ | .createNetwork _ | .removeNetwork _ | .push _
  | .tag _ _ | .prune | .initialise _ _ | .apply _ _ _ | .ensureAccount _
  | .ensureRepository _ _ => ()
  | .imageExists image => !s.missingImages.contains image
  | .confirm _ => s.accepts
  | .start name _ _ => "id-" ++ name
  | .writeDefinition _ i => i.render
  | .registryLogin account => account.registry
  | .wait name => (s.exitCodes.get? name).getD 0
  | .listImages => []
  | .listContainers => s.existing.map fun name => ⟨name, "", ""⟩
  | .readDefinition _ => s.previous
  | .readSecrets _ => s.secrets

/-! ## Playing -/

/-- what has happened so far -/
structure Scene where
  isCancelled : Bool := false
  /-- latest first -/
  calls : List String := []
  /-- latest first -/
  said : List String := []

/-- the first scripted failure of a call -/
def Script.failure? (s : Script) (line : String) : Option ScriptedFailure :=
  s.failures.find? fun f => Text.contains line f.part

def Script.cancels (s : Script) (line : String) : Bool := s.cancelOn.any fun part => Text.contains line part

def call (s : Script) (c : Call) (scene : Scene) : Except Fault c.Answer × Scene :=
  let after := { scene with
    isCancelled := scene.isCancelled || s.cancels c.line
    calls := c.line :: scene.calls }
  match s.failure? c.line with
  | some f => (.error (f.fault c.tool), after)
  | none => (.ok (s.respond c), after)

def answer (s : Script) : (q : Ask) → Scene → q.Answer × Scene
  | .call c, scene => call s c scene
  | .cancelled, scene => (scene.isCancelled, scene)
  | .say text, scene => ((), { scene with said := text :: scene.said })
  | .note _, scene => ((), scene)
  | .turn _, scene => (0, scene)

def play {ε α : Type} (s : Script) (scene : Scene) (a : Action ε α) : Except ε α × Scene :=
  a.run (answer s) scene

def Scene.output (s : Scene) : String := String.join s.said.reverse

/-- the calls made on `s` but not yet on `before` -/
def Scene.callsSince (s before : Scene) : List String :=
  (s.calls.take (s.calls.length - before.calls.length)).reverse

end Rehearsal

end Fleet
