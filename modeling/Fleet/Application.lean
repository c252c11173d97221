/-
The definition of an application: its name, the services it is made of and where each comes from, and
what it needs on a machine and in the cloud.

`Application.checkNames` is the check made on every definition that is read; `CloudSite.check` is made
before a deploy. Both report the first violated requirement.
-/
import Fleet.Dependency.Descriptor
import Fleet.Fault
import Fleet.Mode
import Fleet.Naming
import Fleet.Text.Blank

namespace Fleet

/-- how a message is called outside and inside a service -/
structure MessageNames where
  publicName : String := ""
  internalName : String := ""
  deriving DecidableEq

/-- where a service comes from, as declared -/
structure Source where
  location : Option String := none
  image : Option String := none
  messageNames : List MessageNames := []
  deriving DecidableEq

/-- where a service comes from -/
inductive Origin where
  | location (path : String)
  | image (reference : String)
  deriving DecidableEq, Repr

namespace Source

/-- exactly one of location and image, and that one not empty -/
def origin (s : Source) (role : String) : Except Fault Origin :=
  match s.location, s.image with
  | some l, none => if l = "" then missing else .ok (.location l)
  | none, some i => if i = "" then missing else .ok (.image i)
  | some _, some _ => .error (.invalid .application .twoOrigins s!"services.{role}")
  | none, none => missing
where
  missing : Except Fault Origin := .error (.invalid .application .noOrigin s!"services.{role}")

/-- the directory a located service is built from -/
def buildContext (s : Source) (appDir : String) : Option String :=
  s.location.map fun l => Path.join appDir (Path.withoutDotSlash l)

end Source

/-- where an application is deployed to -/
structure CloudSite where
  dependencies : List Descriptor := []
  url : String := ""
  accountId : String := ""
  region : String := ""
  certificate : String := ""
  deriving DecidableEq

/-- the first of the named values that is blank -/
def firstBlank : List (String × String) → Option String
  | [] => none
  | (field, value) :: rest => if Text.isAllBlank value then some field else firstBlank rest

/-- every field of the site is filled in -/
def CloudSite.check (site : CloudSite) : Except Fault Unit :=
  match firstBlank [("remote.url", site.url), ("remote.account-id", site.accountId),
      ("remote.region", site.region), ("remote.ssl-certificate-arn", site.certificate)] with
  | some field => .error (.missing .application field)
  | none => .ok ()

structure Application where
  name : String := ""
  version : String := ""
  description : String := ""
  services : SortedMap Source := .empty
  localDependencies : List Descriptor := []
  site : CloudSite := {}
  deriving DecidableEq

namespace Application

/-- the roles that services play, in ascending order -/
def roles (a : Application) : List String := a.services.keys

def dependencies (a : Application) : Lifecycle → List Descriptor
  | .onMachine => a.localDependencies
  | .inCloud => a.site.dependencies

/-- each role in turn: its name, then its origin -/
def checkRoles : List (String × Source) → Except Fault Unit
  | [] => .ok ()
  | (role, source) :: rest =>
    if !Naming.isHyphenated false role then
      .error (.invalid .application .badRole s!"services.{role}")
    else match source.origin role with
      | .error e => .error e
      | .ok _ => checkRoles rest

/-- the application's name, then every role -/
def checkNames (a : Application) : Except Fault Unit :=
  if !Naming.isHyphenated true a.name then
    .error (.invalid .application (.badApplicationName a.name) "name")
  else checkRoles a.services.entries

end Application

end Fleet
