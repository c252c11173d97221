/-
Collaborators that are the tools of this machine.

`Toolset.perform` says which tool carries out a call, and `Toolset.play` turns an action into a program: calls
become processes and files, the token is the user's interrupt, and progress goes to the two output streams.
-/
import Fleet.Tooling.Aws
import Fleet.Tooling.Terraform

namespace Fleet

open Machine

structure Toolset where
  docker : Docker
  terraform : Terraform
  aws : Aws

namespace Toolset

/-- a question at the terminal -/
def confirm (prompt : String) : Program Fault Bool :=
  (Program.request (.confirm prompt)).bind fun
    | .ok accepted => .done accepted
    | .error text => .fail (.tool .terminal text)

def perform (t : Toolset) : (c : Call) → Program Fault c.Answer
  | .pull image => t.docker.pull image
  | .imageExists image => t.docker.imageExists image
  | .build context dockerfile tag => t.docker.build context dockerfile tag
  | .start name spec network => t.docker.start name spec network
  | .wait name => t.docker.wait name
  | .stop name => t.docker.stop name
  | .remove name => t.docker.remove name
  | .createNetwork name => t.docker.createNetwork name
  | .removeNetwork name => t.docker.removeNetwork name
  | .push image => t.docker.push image
  | .tag source target => t.docker.tag source target
  | .listImages => t.docker.listImages
  | .listContainers => t.docker.listContainers
  | .prune => t.docker.prune
  | .readDefinition dir => Terraform.readDefinition dir
  | .writeDefinition dir i => Terraform.writeDefinition dir i
  | .initialise dir account => t.terraform.initialise dir account
  | .apply dir flags autoApprove => t.terraform.apply dir flags autoApprove
  | .ensureAccount account => t.aws.ensureAccount account
  | .ensureRepository account name => t.aws.ensureRepository account name
  | .registryLogin account => t.aws.registryLogin account
  | .readSecrets account => t.aws.readSecrets account
  | .confirm prompt => confirm prompt

/-- what the machine does about one question -/
def answer {ε : Type} (t : Toolset) : (q : Ask) → Program ε q.Answer
  | .call c => (t.perform c).attempt
  | .cancelled => .ask .interrupted .done
  | .say text => .ask (.print text) .done
  | .note line => .ask (.note line) .done
  | .turn ready => .ask (.turn ready) .done

/-- an action, carried out with these tools -/
def play {ε α : Type} (t : Toolset) (a : Action ε α) : Program ε α := a.interpret t.answer

end Toolset

end Fleet
