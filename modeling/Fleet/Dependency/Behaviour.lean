/-
What a dependency contributes: its container, the variables that services receive, and what a deploy needs
to know about it.
-/
import Fleet.Container
import Fleet.Dependency.Kind
import Fleet.Routing

namespace Fleet

namespace Dependency

def restartPolicy : String := "on-failure"

def routesVariable : String := "SERVICE_ROUTES"

/-! ## Generic containers -/

def isSlash (c : Char) : Bool := c = '/'

/-- the volume that keeps a path's contents -/
def volumeName (d : Descriptor) (path : String) : String :=
  let inner := ((path.toList.dropWhile isSlash).reverse.dropWhile isSlash).reverse
  d.name ++ "__" ++ String.ofList (inner.map fun c => if c.isAlphanum || c = '-' then c else '_')

def genericContainer (d : Descriptor) : Container where
  image := some d.display
  name := some d.containerName
  ports := d.settings.ports
  volumes := d.settings.persist.map fun path => s!"{volumeName d path}:{path}"
  environment := d.settings.containerEnv
  restart := some restartPolicy

/-! ## Containers -/

def busContainer (p : Project) (d : Dependency) (repository : String) : Container :=
  let image := s!"{repository}:{d.version}"
  match d.lifecycle with
  | .inCloud => { image := some image }
  | .onMachine =>
    { image := some image
      name := some d.containerName
      environment := .ofList [("ROLE", d.name), (routesVariable, p.routingTable)]
      restart := some restartPolicy }

/-- the container that the dependency runs in, if it runs in one -/
def container? (p : Project) (d : Dependency) : Option Container :=
  match d.kind with
  | .messageBus repository => some (busContainer p d repository)
  | .managedDatabase => none
  | .generic => some (genericContainer d.descriptor)

/-- the dependency alone as a composition -/
def composition (p : Project) (d : Dependency) : Composition :=
  match d.container? p with
  | none => .empty
  | some c =>
    { Composition.single d.containerName c with
      volumes := if d.kind = .generic then d.descriptor.settings.persist.map (volumeName d.descriptor)
        else [] }

/-! ## Variables of the services that use it -/

/-- a setting of the managed database, empty where it is not set -/
def databaseField (d : Descriptor) (pick : DatabaseSettings → Option String) : String :=
  (d.settings.database.bind pick).getD ""

/-- a variable, where both its name and its value are set -/
def pairOf : Option String → Option String → List (String × String)
  | some name, some value => [(name, value)]
  | _, _ => []

def databaseVariables (d : Descriptor) : Variables :=
  let host := databaseField d DatabaseSettings.dbName ++ ".rds.local"
  let more := match d.settings.database with
    | none => []
    | some s => pairOf s.consumerNames.dbName s.dbName ++ pairOf s.consumerNames.username s.username
  SortedMap.ofList ((Naming.variableStem d.name, host) :: more)

/-- the variables through which a service finds the dependency -/
def serviceVariables (p : Project) (d : Dependency) : Variables :=
  match d.kind with
  | .messageBus _ =>
    let host := match d.lifecycle with
      | .onMachine => d.containerName
      | .inCloud => s!"{d.name}.{p.name}.local"
    .singleton (Naming.variableStem d.name ++ "_HOST") host
  | .managedDatabase => databaseVariables d.descriptor
  | .generic =>
    let vars := d.descriptor.settings.consumerEnv
    match d.lifecycle with
    | .onMachine => vars.insert (Naming.variableStem d.name) d.containerName
    | .inCloud => vars

/-- the password variable of a managed database and the secret that holds its value -/
def passwordSecret? (d : Dependency) : Option (String × String) :=
  match d.kind, d.descriptor.settings.database with
  | .managedDatabase, some s =>
    match s.consumerNames.password, s.passwordSecret with
    | some name, some secret => some (name, secret)
    | _, _ => none
  | _, _ => none

/-- the variables of a deployed service, a database's password among them -/
def deployedVariables (p : Project) (secrets : Secrets) (d : Dependency) : Except Fault Variables :=
  let vars := d.serviceVariables p
  match d.passwordSecret? with
  | none => .ok vars
  | some (name, secret) =>
    match secrets.get? secret with
    | some value => .ok (vars.insert name value)
    | none => .error (.secretMissing secret)

/-! ## What a deploy needs to know -/

/-- settings of the dependency's infrastructure module -/
def moduleSettings (p : Project) (d : Dependency) : Variables :=
  match d.kind with
  | .messageBus _ => .ofList [("version", d.version), ("dnsName", p.application.site.url)]
  | .managedDatabase => .ofList [("engine", d.name), ("version", d.version)]
  | .generic => .empty

/-- the variables given to the dependency's own infrastructure -/
def moduleVariables (p : Project) (d : Dependency) : Variables :=
  match d.kind with
  | .messageBus _ => .singleton routesVariable p.routingTable
  | .managedDatabase =>
    let field := databaseField d.descriptor
    .ofList [
      ("allocated_storage", field DatabaseSettings.allocatedStorage),
      ("instance_class", field DatabaseSettings.instanceClass),
      ("storage_type", field DatabaseSettings.storageType),
      ("db_name", field DatabaseSettings.dbName),
      ("username", field DatabaseSettings.username),
      ("password_secret_name", field DatabaseSettings.passwordSecret),
      ("engine", d.name),
      ("engine_version", d.version)]
  | .generic => .empty

/-- the settings that a managed database needs, in the order in which they are checked -/
def requiredSettings (s : DatabaseSettings) : List (String × String) := [
  ("rds.allocated-storage", s.allocatedStorage.getD ""),
  ("rds.instance-class", s.instanceClass.getD ""),
  ("rds.storage-type", s.storageType.getD ""),
  ("rds.db-name", s.dbName.getD ""),
  ("rds.username", s.username.getD ""),
  ("rds.password-secret-name", s.passwordSecret.getD ""),
  ("rds.service-env-var-names.db-name", s.consumerNames.dbName.getD ""),
  ("rds.service-env-var-names.username", s.consumerNames.username.getD ""),
  ("rds.service-env-var-names.password", s.consumerNames.password.getD "")]

def checkDatabase (subject : Subject) (s : Option DatabaseSettings) : Except Fault Unit :=
  match s with
  | none => .error (.missing subject "rds")
  | some s =>
    match firstBlank (requiredSettings s) with
    | some field => .error (.missing subject field)
    | none =>
      if s.dbName.all (Naming.isHyphenated false) then .ok ()
      else .error (.invalid subject .badDatabaseName "rds.db-name")

/-- everything that a deploy needs is declared -/
def check (d : Dependency) : Except Fault Unit :=
  let subject : Subject := .dependency d.name d.version
  if Text.isAllBlank d.name then .error (.missing subject "name")
  else if Text.isAllBlank d.version then .error (.missing subject "version")
  else match d.kind with
    | .managedDatabase => checkDatabase subject d.descriptor.settings.database
    | .messageBus _ | .generic => .ok ()

end Dependency

namespace Project

/-- what all roles depend on -/
def sharedDependencies (p : Project) (l : Lifecycle) : List Dependency :=
  (p.application.dependencies l).map fun d => ⟨d, l⟩

/-- what a role depends on for itself -/
def privateDependencies (p : Project) (role : String) (l : Lifecycle) : List Dependency :=
  (p.ownDependencies role l).map fun d => ⟨d, l⟩

/-- everything a role depends on, what is shared first -/
def dependenciesOf (p : Project) (role : String) (l : Lifecycle) : List Dependency :=
  p.sharedDependencies l ++ p.privateDependencies role l

/-- the dependencies whose names have not come before -/
def firstOfEachName (seen : List String) : List Dependency → List Dependency
  | [] => []
  | d :: rest =>
    if seen.contains d.name then firstOfEachName seen rest
    else d :: firstOfEachName (d.name :: seen) rest

/-- what a deploy has to provide: each name once, as it is declared first -/
def cloudDependencies (p : Project) : List Dependency :=
  firstOfEachName []
    (p.sharedDependencies .inCloud ++ p.roles.flatMap fun r => p.privateDependencies r .inCloud)

end Project

end Fleet
