/-
The configuration of one service: how it starts, what it says and hears, its ports, and what it needs
on a machine and in the cloud.
-/
import Fleet.Dependency.Descriptor
import Fleet.Fault
import Fleet.Mode

namespace Fleet

abbrev Port := Fin 65536

/-- whether a service is reachable from outside -/
inductive Reach where
  | everyone
  | worker
  deriving DecidableEq, Repr

structure Startup where
  command : Option String := none
  onlineText : Option String := none
  deriving DecidableEq

structure Messages where
  sends : List String := []
  receives : List String := []
  deriving DecidableEq

structure Scripts where
  run : Option String := none
  test : Option String := none
  deriving DecidableEq

/-- variables for every tier and for each one -/
structure TieredVariables where
  base : Variables := .empty
  development : Variables := .empty
  test : Variables := .empty
  production : Variables := .empty
  deriving DecidableEq

structure LocalNeeds where
  dependencies : List Descriptor := []
  environment : TieredVariables := {}
  secrets : List String := []
  ports : List String := []
  deriving DecidableEq

structure CloudNeeds where
  dependencies : List Descriptor := []
  environment : Variables := .empty
  secrets : List String := []
  url : Option String := none
  cpu : Option String := none
  memory : Option String := none
  healthCheck : Option String := none
  deriving DecidableEq

structure Service where
  reach : Reach := .worker
  description : String := ""
  startup : Startup := {}
  messages : Messages := {}
  developmentPort : Option Port := none
  scripts : Scripts := {}
  productionPort : Option Port := none
  onMachine : LocalNeeds := {}
  inCloud : CloudNeeds := {}
  deriving DecidableEq

instance : Inhabited Service := ⟨{}⟩

/-- the tier's variables over those of every tier -/
def TieredVariables.forTier (v : TieredVariables) (tier : Tier) : Variables :=
  v.base.merge <| match tier with
    | .development => v.development
    | .test => v.test
    | .production => v.production

namespace Service

def dependencies (s : Service) : Lifecycle → List Descriptor
  | .onMachine => s.onMachine.dependencies
  | .inCloud => s.inCloud.dependencies

/-- the port a service listens on -/
def port (s : Service) : Tier → Option Port
  | .development | .test => s.developmentPort
  | .production => s.productionPort

/-- set and not empty -/
def isGiven (o : Option String) : Bool := o.any (· ≠ "")

/-- the fields a deploy needs, the first missing one being reported -/
def checkDeployable (s : Service) (role : String) : Except Fault Unit :=
  let missing (field : String) : Except Fault Unit := .error (.missing (.service role) field)
  if !isGiven s.inCloud.cpu then missing "remote.cpu"
  else if !isGiven s.inCloud.memory then missing "remote.memory"
  else if s.reach = .worker then .ok ()
  else if s.productionPort = none then missing "production.port"
  else if !isGiven s.inCloud.url then missing "remote.url"
  else .ok ()

end Service

end Fleet
