/-
Compositions compiled from a project: its dependencies, each service with what it alone depends on, and
the whole application.
-/
import Fleet.Environment

namespace Fleet

/-- what a compilation works from -/
structure Compiler where
  project : Project
  mode : Mode
  /-- values of local secrets -/
  lookup : String → Option String

namespace Compiler

def mountPoint : String := "/mnt"

def endpoints (c : Compiler) : Endpoints := .ofProject c.project c.mode

def shared (c : Compiler) : List Dependency := c.project.sharedDependencies c.mode.lifecycle

def owned (c : Compiler) (role : String) : List Dependency :=
  c.project.privateDependencies role c.mode.lifecycle

/-- the containers a role waits for, each once -/
def dependsOn (c : Compiler) (role : String) : List String :=
  Route.distinct (((c.shared ++ c.owned role).filter Dependency.isContainerised).map
    Dependency.containerName)

/-- what a local container of a service runs, where it is told to run anything -/
def command (c : Compiler) (s : Service) : Option String :=
  match c.mode.tier with
  | .development => s.startup.command
  | .test => s.scripts.test
  | .production => none

/-- the container's origin: a build with its links, or an image -/
def localOrigin (c : Compiler) (role : String) (source : Source) (s : Service) : Origin → Container
  | .image reference => { image := some reference }
  | .location _ =>
    let context := (source.buildContext c.project.dir).getD c.project.dir
    { build := some ⟨context, c.mode.dockerfile⟩
      command := c.command s
      volumes := if c.mode.mount then [context ++ ":" ++ mountPoint] else []
      links := ((c.owned role).filter Dependency.isContainerised).map fun d =>
        d.containerName ++ ":" ++ d.name }

/-- the source of a role -/
def source (c : Compiler) (role : String) : Except Fault Source :=
  match c.project.source? role with
  | some s => .ok s
  | none => .error (.unresolved role .noSuchService)

def localContainer (c : Compiler) (role : String) : Except Fault Container := do
  let source ← c.source role
  let s ← c.project.service role
  let origin ← source.origin role
  let environment ← Environment.onMachine c.project role c.mode c.endpoints c.lookup
  .ok { c.localOrigin role source s origin with
    name := some role
    ports := s.onMachine.ports ++ (c.endpoints.portMapping role).toList
    environment
    dependsOn := c.dependsOn role }

def deployContainer (c : Compiler) (role : String) : Except Fault Container := do
  let source ← c.source role
  match ← source.origin role with
  | .image reference => .ok { image := some reference }
  | .location _ =>
    .ok { build := some ⟨(source.buildContext c.project.dir).getD c.project.dir,
            Mode.deploy.dockerfile⟩ }

def container (c : Compiler) (role : String) : Except Fault Container :=
  match c.mode.lifecycle with
  | .onMachine => c.localContainer role
  | .inCloud => c.deployContainer role

/-! ## Compositions -/

/-- what all services share -/
def dependencies (c : Compiler) : Composition :=
  .mergeAll (c.shared.map fun d => d.composition c.project)

/-- a service behind what it alone depends on -/
def service (c : Compiler) (role : String) : Except Fault Composition :=
  match c.container role with
  | .error f => .error f
  | .ok spec =>
    .ok (.mergeAll (((c.owned role).map fun d => d.composition c.project) ++ [.single role spec]))

/-- the services of these roles, in order -/
def servicesOf (c : Compiler) (roles : List String) : Except Fault (List Composition) := roles.mapM c.service

def services (c : Compiler) : Except Fault Composition :=
  (c.servicesOf c.project.roles).map .mergeAll

def application (c : Compiler) : Except Fault Composition :=
  c.services.map fun s => c.dependencies.merge s

end Compiler

end Fleet
