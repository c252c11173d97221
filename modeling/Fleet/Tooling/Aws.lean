/-
The cloud account, through its command line.

What should exist is looked up first and created only if the look-up says that it is not there. Any other
complaint is a fault.
-/
import Fleet.Json.Reader
import Fleet.Tooling.Docker

namespace Fleet

open Machine

/-- the account's program, and the container engine that it logs in to the registry -/
structure Aws where
  program : String
  docker : Docker

namespace Aws

def locate (program : String) (docker : Docker) : Program Fault Aws :=
  (Program.locate .aws program).bind fun path => .done ⟨path, docker⟩

def command (a : Aws) (account : Account) (args : List String) : Command :=
  { tool := .aws, program := a.program,
    args := args ++ ["--profile", account.profile, "--region", account.region] }

/-! ## Absence -/

/-- what a complaint about something that is not there contains -/
def absenceMarkers : List String :=
  ["ResourceNotFoundException", "RepositoryNotFoundException", "Not Found", "404"]

def saysAbsent (complaint : String) : Bool := absenceMarkers.any fun m => Text.contains complaint m

/-- the answer of a look-up, or none if it says that there is nothing -/
def found : Except Fault String → Except Fault (Option String)
  | .ok answer => .ok (some answer)
  | .error (.tool which complaint) =>
    if saysAbsent complaint then .ok none else .error (.tool which complaint)
  | .error f => .error f

def lookUp (a : Aws) (account : Account) (args : List String) : Program Fault (Option String) :=
  (Program.captured (a.command account args)).attempt.bind fun r => .ofExcept (found r)

/-- a call that is made for its success alone -/
def silent (a : Aws) (account : Account) (args : List String) : Program Fault Unit :=
  (Program.captured (a.command account args)).bind fun _ => .done ()

/-- create something unless it is found -/
def ensure (a : Aws) (account : Account) (look : List String) (create : Program Fault Unit) :
    Program Fault Unit :=
  (a.lookUp account look).bind fun
    | some _ => .done ()
    | none => create

/-! ## Calls -/

/-- the one region whose buckets are created without naming it -/
def defaultRegion : String := "us-east-1"

def bucketLocation (region : String) : List String :=
  if region = defaultRegion then []
  else ["--create-bucket-configuration", "LocationConstraint=" ++ region]

def ensureStateBucket (a : Aws) (account : Account) : Program Fault Unit :=
  a.ensure account ["s3api", "head-bucket", "--bucket", account.stateBucket] <|
    a.silent account
      (["s3api", "create-bucket", "--bucket", account.stateBucket] ++ bucketLocation account.region)

/-- the lock table; creating it waits until it can be used -/
def ensureLockTable (a : Aws) (account : Account) : Program Fault Unit :=
  a.ensure account ["dynamodb", "describe-table", "--table-name", Account.lockTable] <|
    (a.silent account
      ["dynamodb", "create-table", "--table-name", Account.lockTable,
        "--attribute-definitions", "AttributeName=LockID,AttributeType=S",
        "--key-schema", "AttributeName=LockID,KeyType=HASH",
        "--provisioned-throughput", "ReadCapacityUnits=1,WriteCapacityUnits=1"]).bind fun _ =>
      a.silent account ["dynamodb", "wait", "table-exists", "--table-name", Account.lockTable]

def ensureAccount (a : Aws) (account : Account) : Program Fault Unit :=
  (a.ensureStateBucket account).bind fun _ => a.ensureLockTable account

def ensureRepository (a : Aws) (account : Account) (name : String) : Program Fault Unit :=
  a.ensure account ["ecr", "describe-repositories", "--repository-names", name] <|
    a.silent account ["ecr", "create-repository", "--repository-name", name]

/-- log the container engine in to the account's registry, for the registry's host -/
def registryLogin (a : Aws) (account : Account) : Program Fault String :=
  (Program.captured (a.command account ["ecr", "get-login-password"])).bind fun password =>
    (a.docker.login account.registry "AWS" (Text.trim password)).bind fun _ =>
      .done account.registry

/-! ## Secrets -/

/-- members of a JSON object, all of them texts -/
def textMembers : List (Option String × Json) → Option (List (String × String))
  | [] => some []
  | (some k, .string (some v)) :: rest => (textMembers rest).map ((k, v) :: ·)
  | _ => none

/-- the secrets of a store: a JSON object of texts, or nothing -/
def readStore (text : String) : Except Fault Secrets :=
  let text := Text.trim text
  if text = "" || text = "None" then .ok .empty
  else match Json.parse text with
    | some (.object members) =>
      match textMembers members with
      | some l => .ok (.ofList l)
      | none => .error .json
    | _ => .error .json

def secretArguments (account : Account) : List String :=
  ["secretsmanager", "get-secret-value", "--secret-id", account.secretId,
    "--query", "SecretString", "--output", "text"]

/-- the application's secrets; an account without a store has none -/
def readSecrets (a : Aws) (account : Account) : Program Fault Secrets :=
  (a.lookUp account (secretArguments account)).bind fun
    | some text => .ofExcept (readStore text)
    | none => .done .empty

end Aws

end Fleet
