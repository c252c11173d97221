/-
A project: an application's definition together with the configuration of each of its services.

`Project.load` reads both from a directory. A service with a location is configured by the file in that
directory, one with an image by the defaults. Names and origins are checked before any service is read.
-/
import Fleet.Application
import Fleet.Machine.Request
import Fleet.Manifest.Reader
import Fleet.Service

namespace Fleet

/-- values of secrets by name -/
abbrev Secrets := SortedMap String

structure Project where
  dir : String
  application : Application
  services : SortedMap Service
  deriving DecidableEq

namespace Project

def applicationFile : String := "application.yml"

def serviceFile : String := "service.yml"

def name (p : Project) : String := p.application.name

def roles (p : Project) : List String := p.application.roles

def source? (p : Project) (role : String) : Option Source := p.application.services.get? role

/-- a role's configuration -/
def service (p : Project) (role : String) : Except Fault Service :=
  match p.services.get? role with
  | some s => .ok s
  | none => .error (.unresolved role .noSuchService)

/-! ## Dependencies in scope -/

/-- what a role itself depends on, without what the application already declares under the same name -/
def ownDependencies (p : Project) (role : String) (l : Lifecycle) : List Descriptor :=
  match p.services.get? role with
  | none => []
  | some s =>
    let shadowing := (p.application.dependencies l).map Descriptor.name
    (s.dependencies l).filter fun d => !shadowing.contains d.name

/-! ## Loading -/

open Machine

/-- read a YAML file -/
def readYaml {α : Type} (decoder : Yaml.Decoder α) (path : String) : Program Fault α :=
  (Program.readFile path).bind fun text =>
    match Yaml.decode decoder text with
    | some a => .done a
    | none => .fail (.yaml path)

/-- the configuration of one role -/
def loadService (dir role : String) (source : Source) : Program Fault Service :=
  match source.origin role with
  | .error e => .fail e
  | .ok (.image _) => .done default
  | .ok (.location _) =>
    readYaml Manifest.service (Path.join ((source.buildContext dir).getD dir) serviceFile)

/-- the configurations of the roles, one after the other -/
def loadServices (dir : String) (loaded : SortedMap Service) :
    List (String × Source) → Program Fault (SortedMap Service)
  | [] => .done loaded
  | (role, source) :: rest =>
    (loadService dir role source).bind fun s => loadServices dir (loaded.insert role s) rest

def load (dir : String) : Program Fault Project :=
  (readYaml Manifest.application (Path.join dir applicationFile)).bind fun application =>
    (Dialogue.ofExcept application.checkNames).bind fun _ =>
      (loadServices dir .empty application.services.entries).bind fun services =>
        .done ⟨dir, application, services⟩

end Project

end Fleet
