/-
The infrastructure tool: its file, and its command line.
-/
import Fleet.Infrastructure
import Fleet.Machine.Execution

namespace Fleet

open Machine

/-- the infrastructure tool's program -/
structure Terraform where
  program : String

namespace Terraform

def fileName : String := "main.tf"

def locate (program : String) : Program Fault Terraform :=
  (Program.locate .terraform program).bind fun path => .done ⟨path⟩

/-! ## The definition's file -/

/-- the definition in a directory, if there is one -/
def readDefinition (dir : String) : Program Fault (Option String) :=
  let path := Path.join dir fileName
  (Program.request (.readFile path)).bind fun
    | .ok text => .done (some text)
    | .error .notFound => .done none
    | .error e => .fail (.file path e)

/-- write a definition into a directory, for its text -/
def writeDefinition (dir : String) (i : Infrastructure) : Program Fault String :=
  (Program.makeDirectories dir).bind fun _ =>
    (Program.writeFile (Path.join dir fileName) i.render).bind fun _ => .done i.render

/-! ## Calls -/

def command (t : Terraform) (dir : String) (args : List String) : Command :=
  { tool := .terraform, program := t.program, args, directory := some dir }

def initialiseArguments (account : Account) : List String :=
  ["init", "-input=false", "-force-copy", "-backend-config=profile=" ++ account.profile]

/-- prepare the directory's state; this is always carried through -/
def initialise (t : Terraform) (dir : String) (account : Account) : Program Fault Unit :=
  Program.uninterrupted (t.command dir (initialiseArguments account))

def applyArguments (flags : List String) (autoApprove : Bool) : List String :=
  "apply" :: ((if autoApprove then ["-auto-approve"] else []) ++ flags)

def apply (t : Terraform) (dir : String) (flags : List String) (autoApprove : Bool) :
    Program Fault Unit :=
  Program.streamed (t.command dir (applyArguments flags autoApprove))

end Terraform

end Fleet
