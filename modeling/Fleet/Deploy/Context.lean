/-
What a deploy knows: what it was started with, and what its stages have found so far.
-/
import Fleet.Deploy.ImageJob
import Fleet.Environment

namespace Fleet

structure Deploy where
  project : Project
  account : Account
  infraDir : String
  autoApprove : Bool
  concurrency : Nat := 4
  secrets : Option Secrets := none
  images : Option Images := none
  previous : Option String := none
  generated : Option String := none

namespace Deploy

/-- how many images are published at once, unless it is said -/
def defaultConcurrency : Nat := 4

def secretsOr (d : Deploy) : Except Fault Secrets :=
  match d.secrets with
  | some s => .ok s
  | none => .error (.unresolved "secrets" .notReady)

def imagesOr (d : Deploy) : Except Fault Images :=
  match d.images with
  | some i => .ok i
  | none => .error (.unresolved "images" .notReady)

/-! ## Values for the infrastructure's variables -/

/-- the two flags that give a variable its value -/
def flag (name value : String) : List String := ["-var", s!"{name}={value}"]

/-- the environments of these roles, encoded -/
def serviceEnvironments (p : Project) (secrets : Secrets) (roles : List String) :
    Except Fault (List (String × String)) :=
  roles.mapM fun role => (Environment.inCloud p role (.ofProject p .deploy) secrets).map fun vars =>
    (Infrastructure.envVariable role, Environment.encode vars)

/-- names and values: secrets, images, environments of services and of dependencies, the profile -/
def assignments (d : Deploy) : Except Fault (List (String × String)) :=
  match d.secretsOr with
  | .error f => .error f
  | .ok secrets =>
    match d.imagesOr with
    | .error f => .error f
    | .ok images =>
      (serviceEnvironments d.project secrets d.project.roles).map fun services =>
        secrets.entries ++
        images.entries.map (fun e => (Infrastructure.imageVariable e.1, e.2)) ++
        services ++
        d.project.cloudDependencies.map (fun x =>
          (Infrastructure.envVariable x.name, Environment.encode (x.moduleVariables d.project))) ++
        [(Infrastructure.profileVariable, d.account.profile)]

def varFlags (d : Deploy) : Except Fault (List String) :=
  d.assignments.map fun l => l.flatMap fun e => flag e.1 e.2

end Deploy

namespace Project

/-- the services of these roles are configured for a deploy -/
def checkServices (p : Project) : List String → Except Fault Unit
  | [] => .ok ()
  | role :: rest =>
    match p.service role with
    | .error f => .error f
    | .ok s =>
      match s.checkDeployable role with
      | .error f => .error f
      | .ok () => checkServices p rest

def checkDependencies : List Dependency → Except Fault Unit
  | [] => .ok ()
  | d :: rest =>
    match d.check with
    | .error f => .error f
    | .ok () => checkDependencies rest

/-- everything a deploy needs is configured: names, the site, services, dependencies, in this order -/
def checkDeployable (p : Project) : Except Fault Unit := do
  p.application.checkNames
  p.application.site.check
  p.checkServices p.roles
  checkDependencies p.cloudDependencies

end Project

end Fleet
