/-
The environment of a service, compiled in layers: later layers win.

The role's own name comes first, then what its dependencies contribute, then what is configured for it, then
secrets, and last the origins of the other services. A deployed environment fails at the first secret
that is not in the store; a local one leaves such secrets out.
-/
import Fleet.Dependency.Behaviour
import Fleet.Endpoint
import Fleet.Json.Reader

namespace Fleet

namespace Environment

def roleVariable : String := "ROLE"

/-- one map after another over the present one -/
def overlay (vars : Variables) (layers : List Variables) : Variables := layers.foldl .merge vars

/-- the secrets that are found, in order -/
def foundSecrets (lookup : String → Option String) (keys : List String) : List (String × String) :=
  keys.filterMap fun k => (lookup k).map fun v => (k, v)

/-- the environment of a role on a machine -/
def onMachine (p : Project) (role : String) (m : Mode) (e : Endpoints)
    (lookup : String → Option String) : Except Fault Variables :=
  match p.service role with
  | .error f => .error f
  | .ok s =>
    let base := SortedMap.singleton roleVariable role
    let fromDependencies :=
      overlay base ((p.dependenciesOf role m.lifecycle).map fun d => d.serviceVariables p)
    let configured := fromDependencies.merge (s.onMachine.environment.forTier m.tier)
    let withSecrets := configured.insertAll (foundSecrets lookup s.onMachine.secrets)
    .ok (withSecrets.merge (e.variablesFor role))

/-- the variables of dependencies, one after the other, over the present ones -/
def overlayDependencies (p : Project) (secrets : Secrets) (vars : Variables) :
    List Dependency → Except Fault Variables
  | [] => .ok vars
  | d :: rest =>
    match d.deployedVariables p secrets with
    | .error f => .error f
    | .ok more => overlayDependencies p secrets (vars.merge more) rest

/-- declared secrets over the present variables; each one has to be in the store -/
def overlaySecrets (secrets : Secrets) (vars : Variables) : List String → Except Fault Variables
  | [] => .ok vars
  | k :: rest =>
    match secrets.get? k with
    | some v => overlaySecrets secrets (vars.insert k v) rest
    | none => .error (.secretMissing k)

/-- the environment of a deployed role -/
def inCloud (p : Project) (role : String) (e : Endpoints) (secrets : Secrets) :
    Except Fault Variables :=
  match p.service role with
  | .error f => .error f
  | .ok s =>
    let base := SortedMap.singleton roleVariable role
    match overlayDependencies p secrets base (p.dependenciesOf role .inCloud) with
    | .error f => .error f
    | .ok fromDependencies =>
      match overlaySecrets secrets (fromDependencies.merge s.inCloud.environment) s.inCloud.secrets with
      | .error f => .error f
      | .ok withSecrets => .ok (withSecrets.merge (e.variablesFor role))

/-! ## As one text -/

/-- name and value as a record -/
def pairJson (e : String × String) : Json := .record [("name", .text e.1), ("value", .text e.2)]

/-- a JSON string that spells the JSON list of all pairs -/
def encode (vars : Variables) : String :=
  (Json.text (Json.array (vars.entries.map pairJson)).compact).compact

/-- the pair's name and value: a record with both once, or a list of the two -/
def readPair : Json → Option (String × String)
  | .array [.string (some name), .string (some value)] => some (name, value)
  | .object members => do
    -- member names have to spell texts
    if members.any (fun m => m.1.isNone) then none
    else
      let of (field : String) : List Json :=
        (members.filter fun m => m.1 = some field).map Prod.snd
      match of "name", of "value" with
      | [.string (some name)], [.string (some value)] => some (name, value)
      | _, _ => none
  | _ => none

def readPairs : List Json → Option (List (String × String))
  | [] => some []
  | j :: rest =>
    match readPair j with
    | some p => (readPairs rest).map (p :: ·)
    | none => none

/-- the variables that a text encodes; of equal names the last pair counts -/
def decode (text : String) : Except Fault Variables :=
  let pairs : Option (List (String × String)) :=
    match Json.parse text with
    | some (.string (some inner)) =>
      match Json.parse inner with
      | some (.array items) => readPairs items
      | _ => none
    | _ => none
  match pairs with
  | some l => .ok (.ofList l)
  | none => .error .json

end Environment

end Fleet
