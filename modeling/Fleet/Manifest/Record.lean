/-
Manifests and what is compiled from them as JSON records, in the field names of the files.

Fields that hold nothing are left out where the files leave them out, and are null elsewhere.
-/
import Fleet.Application
import Fleet.ComposeFile
import Fleet.Json.Value
import Fleet.Service

namespace Fleet

namespace Json

/-- a member that is left out where there is no value -/
def optionalMember {α : Type} (name : String) (f : α → Json) (value : Option α) :
    List (String × Json) :=
  value.toList.map fun a => (name, f a)

/-- a member that is left out where the list is empty -/
def listMember {α : Type} (name : String) (f : α → Json) (items : List α) : List (String × Json) :=
  if items.isEmpty then [] else [(name, .array (items.map f))]

/-- a member that is left out where the map is empty -/
def mapMember {α : Type} (name : String) (f : α → Json) (m : SortedMap α) : List (String × Json) :=
  if m.isEmpty then [] else [(name, .ofMap f m)]

end Json

namespace Manifest

open Json

def textOrNull : Option String → Json := orNull text

/-- a map of texts as an object -/
def variablesRecord (vars : Variables) : Json := .ofMap text vars

/-! ## Dependencies -/

def databaseVariablesRecord (v : DatabaseVariables) : Json :=
  .record [("db-name", textOrNull v.dbName), ("username", textOrNull v.username),
    ("password", textOrNull v.password)]

def databaseRecord (s : DatabaseSettings) : Json :=
  .record [
    ("allocated-storage", textOrNull s.allocatedStorage),
    ("instance-class", textOrNull s.instanceClass),
    ("storage-type", textOrNull s.storageType),
    ("db-name", textOrNull s.dbName),
    ("username", textOrNull s.username),
    ("password-secret-name", textOrNull s.passwordSecret),
    ("service-env-var-names", databaseVariablesRecord s.consumerNames)]

def settingsRecord (s : DependencySettings) : Json :=
  .record <|
    listMember "ports" text s.ports ++
    listMember "persist" text s.persist ++
    mapMember "dependency-environment" text s.containerEnv ++
    mapMember "service-environment" text s.consumerEnv ++
    optionalMember "rds" databaseRecord s.database

def dependencyRecord (d : Descriptor) : Json :=
  .record [("name", text d.name), ("version", text d.version), ("config", settingsRecord d.settings)]

def dependencyRecords (ds : List Descriptor) : Json := .array (ds.map dependencyRecord)

/-! ## Applications -/

def messageNamesRecord (m : MessageNames) : Json :=
  .record [("public", text m.publicName), ("internal", text m.internalName)]

def sourceRecord (s : Source) : Json :=
  .record <|
    optionalMember "location" text s.location ++
    optionalMember "docker-image" text s.image ++
    listMember "message-translations" messageNamesRecord s.messageNames

def applicationRecord (a : Application) : Json :=
  .record [
    ("name", text a.name),
    ("version", text a.version),
    ("description", text a.description),
    ("services", .ofMap sourceRecord a.services),
    ("local", .record [("dependencies", dependencyRecords a.localDependencies)]),
    ("remote", .record [
      ("dependencies", dependencyRecords a.site.dependencies),
      ("url", text a.site.url),
      ("account-id", text a.site.accountId),
      ("region", text a.site.region),
      ("ssl-certificate-arn", text a.site.certificate)])]

/-! ## Services -/

def portOrNull : Option Port → Json := orNull fun p => .nat p.val

def reachName : Reach → String
  | .everyone => "public"
  | .worker => "worker"

def tieredRecord (v : TieredVariables) : Json :=
  .record [("default", variablesRecord v.base), ("development", variablesRecord v.development),
    ("test", variablesRecord v.test), ("production", variablesRecord v.production)]

def localRecord (n : LocalNeeds) : Json :=
  .record [("dependencies", dependencyRecords n.dependencies),
    ("environment", tieredRecord n.environment), ("secrets", .texts n.secrets),
    ("ports", .texts n.ports)]

def cloudRecord (n : CloudNeeds) : Json :=
  .record [("dependencies", dependencyRecords n.dependencies),
    ("environment", variablesRecord n.environment), ("secrets", .texts n.secrets),
    ("url", textOrNull n.url), ("cpu", textOrNull n.cpu), ("memory", textOrNull n.memory),
    ("health-check", textOrNull n.healthCheck)]

def serviceRecord (s : Service) : Json :=
  .record [
    ("type", text (reachName s.reach)),
    ("description", text s.description),
    ("startup", .record [("command", textOrNull s.startup.command),
      ("online-text", textOrNull s.startup.onlineText)]),
    ("messages", .record [("sends", .texts s.messages.sends),
      ("receives", .texts s.messages.receives)]),
    ("development", .record [("port", portOrNull s.developmentPort),
      ("scripts", .record [("run", textOrNull s.scripts.run), ("test", textOrNull s.scripts.test)])]),
    ("production", .record [("port", portOrNull s.productionPort)]),
    ("local", localRecord s.onMachine),
    ("remote", cloudRecord s.inCloud)]

/-! ## Containers -/

def buildRecord (b : Build) : Json :=
  .record [("context", text b.context), ("dockerfile", text b.dockerfile)]

def containerRecord (c : Container) : Json :=
  .record <|
    optionalMember "build" buildRecord c.build ++
    optionalMember "image" text c.image ++
    optionalMember "container_name" text c.name ++
    optionalMember "command" text c.command ++
    listMember "ports" text c.ports ++
    listMember "volumes" text c.volumes ++
    listMember "links" text c.links ++
    mapMember "environment" text c.environment ++
    listMember "depends_on" text c.dependsOn ++
    optionalMember "restart" text c.restart

def compositionRecord (c : Composition) : Json :=
  .record [("services", .ofMap containerRecord c.services), ("volume_names", .texts c.volumes)]

mutual

/-- settings of a volume as JSON; a local tag becomes an object around its value -/
def settingRecord : VolumeSetting → Json
  | .null => .null
  | .bool b => .bool b
  | .int n => .int n
  | .float x => orNull .number x.render?
  | .text s => text s
  | .list items => .array (settingItems items)
  | .map entries => .object (settingEntries entries)
  | .tagged tag value => .object [(some ("!" ++ tag), settingRecord value)]

def settingItems : List VolumeSetting → List Json
  | [] => []
  | v :: rest => settingRecord v :: settingItems rest

def settingEntries : List (VolumeSetting × VolumeSetting) → List (Option String × Json)
  | [] => []
  | (k, v) :: rest => (keyText k, settingRecord v) :: settingEntries rest

/-- what a key is called in an object -/
def keyText : VolumeSetting → Option String
  | .bool b => some (if b then "true" else "false")
  | .int n => some (toString n)
  | .float x => x.render?
  | .text s => some s
  | .null | .list _ | .map _ | .tagged _ _ => none

end

def composeFileRecord (f : ComposeFile) : Json :=
  .record <|
    [("version", text f.version), ("services", .ofMap containerRecord f.services)] ++
    mapMember "volumes" (orNull settingRecord) f.volumes

end Manifest

end Fleet
