/-
The infrastructure of a deployed application: a module for each service and each dependency, and the
variables they refer to. `render` is its text.
-/
import Fleet.Account
import Fleet.Dependency.Behaviour

namespace Fleet

/-- published references by image name -/
abbrev Images := SortedMap String

structure ServiceModule where
  role : String
  isPublic : Bool
  cpu : String
  memory : String
  port : Option Port
  url : Option String
  healthCheck : Option String
  deriving DecidableEq

structure DependencyModule where
  name : String
  isContainerised : Bool
  settings : Variables
  deriving DecidableEq

structure Infrastructure where
  appName : String
  account : Account
  url : String
  certificate : String
  services : List ServiceModule
  dependencies : List DependencyModule
  /-- names of variables, ascending -/
  declared : SortedMap Unit
  deriving DecidableEq

namespace Infrastructure

/-- the variable of a component's environment -/
def envVariable (name : String) : String := name ++ "_env_vars"

/-- the variable of a component's image -/
def imageVariable (name : String) : String := name ++ "_docker_image"

def profileVariable : String := "aws_profile"

/-! ## Compiling -/

def serviceModule (role : String) (s : Service) : ServiceModule where
  role
  isPublic := s.reach = .everyone
  cpu := s.inCloud.cpu.getD ""
  memory := s.inCloud.memory.getD ""
  port := s.productionPort
  url := s.inCloud.url
  healthCheck := s.inCloud.healthCheck

def dependencyModule (p : Project) (d : Dependency) : DependencyModule where
  name := d.name
  isContainerised := d.isContainerised
  settings := d.moduleSettings p

/-- the services of these roles -/
def servicesOf (p : Project) (roles : List String) : Except Fault (List (String × Service)) :=
  roles.mapM fun role => (p.service role).map fun s => (role, s)

/-- the variables that a service brings in -/
def serviceVariables (role : String) (s : Service) : List String :=
  envVariable role :: s.inCloud.secrets

/-- the variables that a dependency brings in -/
def dependencyVariables (d : Dependency) : List String :=
  envVariable d.name :: (d.descriptor.settings.database.bind DatabaseSettings.passwordSecret).toList

def ofProject (p : Project) (account : Account) (images : Images) : Except Fault Infrastructure :=
  match servicesOf p p.roles with
  | .error f => .error f
  | .ok services =>
    let dependencies := p.cloudDependencies
    let declared :=
      profileVariable :: services.flatMap (fun e => serviceVariables e.1 e.2) ++
        dependencies.flatMap dependencyVariables ++ images.keys.map imageVariable
    .ok {
      appName := p.name
      account
      url := p.application.site.url
      certificate := p.application.site.certificate
      services := services.map fun e => serviceModule e.1 e.2
      dependencies := dependencies.map (dependencyModule p)
      declared := .ofList (declared.map fun v => (v, ())) }

/-! ## Text -/

/-- a reference to a variable, as it stands in quotes -/
def reference (variableName : String) : String :=
  String.ofList ('$' :: '\x7b' :: ("var." ++ variableName).toList ++ ['\x7d'])

/-- a block of lines behind a heading -/
def blockText (heading : String) (body : List String) : String :=
  heading ++ " \x7b\n" ++ String.join (body.map fun line => line ++ "\n") ++ "\x7d\n"

/-- a setting with its value in quotes; `key` brings the blanks that line values up -/
def setting (key value : String) : String := s!"  {key} = \"{value}\""

def preamble (account : Account) : String :=
  blockText "terraform" [
    "  backend \"s3\" \x7b",
    s!"    bucket         = \"{account.stateBucket}\"",
    "    key            = \"terraform.tfstate\"",
    s!"    region         = \"{account.region}\"",
    s!"    dynamodb_table = \"{Account.lockTable}\"",
    "  \x7d"] ++ "\n" ++
  blockText "provider \"aws\"" [
    setting "region             " account.region,
    setting "profile            " (reference profileVariable),
    s!"  allowed_account_ids = [\"{account.id}\"]"] ++ "\n"

def variableText (name : String) : String := s!"variable \"{name}\" \x7b\x7d\n\n"

def baseModule (i : Infrastructure) : String :=
  blockText "module \"aws\"" [
    setting "source             " "./modules/aws",
    setting "name               " i.appName,
    setting "region             " i.account.region,
    setting "url                " i.url,
    setting "ssl_certificate_arn" i.certificate]

def serviceText (m : ServiceModule) : String :=
  let kind := if m.isPublic then "public-service" else "worker-service"
  "\n" ++ blockText s!"module \"{m.role}\"" (
    [ setting "source      " s!"./modules/{kind}",
      setting "name        " m.role,
      setting "cpu         " m.cpu,
      setting "memory      " m.memory,
      setting "docker_image" (reference (imageVariable m.role)),
      setting "env_vars    " (reference (envVariable m.role))] ++
    (m.port.map fun p => setting "port        " (toString p.val)).toList ++
    (m.url.map fun u => setting "url         " u).toList ++
    (m.healthCheck.map fun h => setting "health_check" h).toList)

/-- a dependency's module; its image is named only if there is a variable for it -/
def dependencyText (declared : SortedMap Unit) (m : DependencyModule) : String :=
  let image := imageVariable m.name
  "\n" ++ blockText s!"module \"{m.name}\"" (
    [ setting "source  " s!"./modules/dependencies/{m.name}",
      setting "env_vars" (reference (envVariable m.name))] ++
    (if m.isContainerised && declared.contains image then
      [setting "docker_image" (reference image)] else []) ++
    m.settings.entries.map fun e => setting e.1 e.2)

def render (i : Infrastructure) : String :=
  preamble i.account ++ String.join (i.declared.keys.map variableText) ++ i.baseModule ++
    String.join (i.services.map serviceText) ++
    String.join (i.dependencies.map (dependencyText i.declared))

end Infrastructure

end Fleet
