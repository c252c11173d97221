/-
Where services are reached: from each other and from outside.

On a machine the public services get host ports in ascending role order. A service learns the origins of
all others, never its own.
-/
import Fleet.Project

namespace Fleet

structure Endpoint where
  port : Port
  /-- how other services reach it -/
  internal : String
  /-- how it is reached from outside -/
  external : Option String
  hostPort : Option Port
  deriving DecidableEq

abbrev Endpoints := SortedMap Endpoint

namespace Endpoints

def firstHostPort : Port := 3000

/-- the next port, or the last one again -/
def nextPort (p : Port) : Port := if h : p.val + 1 < 65536 then ⟨p.val + 1, h⟩ else p

/-- the endpoints of services that run on a machine, host ports counted up from `next` -/
def onMachine (tier : Tier) (next : Port) : List (String × Service) → List (String × Endpoint)
  | [] => []
  | (role, s) :: rest =>
    match s.port tier with
    | none => onMachine tier next rest
    | some port =>
      let internal := s!"http://{role}:{port.val}"
      match s.reach with
      | .everyone =>
        (role, ⟨port, internal, some s!"http://localhost:{next.val}", some next⟩) ::
          onMachine tier (nextPort next) rest
      | .worker => (role, ⟨port, internal, none, none⟩) :: onMachine tier next rest

/-- the endpoint of a deployed service -/
def inCloud (appName : String) (role : String) (s : Service) (port : Port) : Endpoint where
  port
  internal := s!"http://{role}.{appName}.local:{port.val}"
  external :=
    match s.reach, s.inCloud.url with
    | .everyone, some url => if url = "" then none else some s!"https://{url}"
    | _, _ => none
  hostPort := none

def ofProject (p : Project) (m : Mode) : Endpoints :=
  .ofList <| match m.lifecycle with
    | .onMachine => onMachine m.tier firstHostPort p.services.entries
    | .inCloud => p.services.entries.filterMap fun (role, s) =>
        (s.port m.tier).map fun port => (role, inCloud p.name role s port)

/-- the published port of a role -/
def portMapping (e : Endpoints) (role : String) : Option String :=
  (e.get? role).bind fun x => x.hostPort.map fun host => s!"{host.val}:{x.port.val}"

/-- the variables about one service -/
def originVariables (role : String) (x : Endpoint) : List (String × String) :=
  let stem := Naming.variableStem role
  (stem ++ "_INTERNAL_ORIGIN", x.internal) ::
    (x.external.map fun e => (stem ++ "_EXTERNAL_ORIGIN", e)).toList

/-- the origins of all services but one -/
def variablesFor (e : Endpoints) (role : String) : Variables :=
  .ofList <| (e.entries.filter fun x => x.1 ≠ role).flatMap fun x => originVariables x.1 x.2

end Endpoints

end Fleet
