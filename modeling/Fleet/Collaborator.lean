/-
What a run asks of its surroundings: the container engine, the infrastructure tool, the cloud account, the
operator, the cancel token, and the two streams that it writes to.

`Ask` is the vocabulary. A dialogue over it, an `Action`, is a run of the program against any collaborators:
each call may be answered by any value or any fault, and the token may be found cancelled at any point.
-/
import Fleet.Dialogue
import Fleet.Infrastructure

namespace Fleet

structure ImageRecord where
  reference : String
  id : String
  deriving DecidableEq, Repr

structure ContainerRecord where
  name : String
  image : String
  status : String
  deriving DecidableEq, Repr

/-- one call of a collaborator -/
inductive Call where
  | pull (image : String)
  | imageExists (image : String)
  | build (context dockerfile tag : String)
  /-- create a container and start it -/
  | start (name : String) (spec : Container) (network : Option String)
  /-- wait until a container ends, for its exit code -/
  | wait (name : String)
  | stop (name : String)
  | remove (name : String)
  | createNetwork (name : String)
  | removeNetwork (name : String)
  | push (image : String)
  | tag (source target : String)
  | listImages
  | listContainers
  | prune
  | readDefinition (dir : String)
  /-- write the infrastructure's text, for that text -/
  | writeDefinition (dir : String) (i : Infrastructure)
  | initialise (dir : String) (account : Account)
  | apply (dir : String) (flags : List String) (autoApprove : Bool)
  | ensureAccount (account : Account)
  | ensureRepository (account : Account) (name : String)
  /-- log in to the account's registry, for its host -/
  | registryLogin (account : Account)
  | readSecrets (account : Account)
  | confirm (prompt : String)

abbrev Call.Answer : Call → Type
  | .pull _ | .build _ _ _ | .stop _ | .remove _ | .createNetwork _ | .removeNetwork _ | .push _
  | .tag _ _ | .prune | .initialise _ _ | .apply _ _ _ | .ensureAccount _
  | .ensureRepository _ _ => Unit
  | .imageExists _ | .confirm _ => Bool
  | .start _ _ _ | .writeDefinition _ _ | .registryLogin _ => String
  | .wait _ => Int
  | .listImages => List ImageRecord
  | .listContainers => List ContainerRecord
  | .readDefinition _ => Option String
  | .readSecrets _ => Secrets

inductive Ask where
  | call (c : Call)
  /-- whether the run's token is cancelled -/
  | cancelled
  /-- progress for the operator -/
  | say (text : String)
  /-- a line about local containers -/
  | note (line : String)
  /-- which of several workers that are ready goes on -/
  | turn (ready : Nat)

abbrev Ask.Answer : Ask → Type
  | .call c => Except Fault c.Answer
  | .cancelled => Bool
  | .say _ | .note _ => Unit
  | .turn _ => Nat

abbrev Action (ε α : Type) := Dialogue Ask Ask.Answer ε α

namespace Action

variable {ε : Type}

def call (c : Call) : Action Fault c.Answer :=
  .ask (.call c) fun r => .ofExcept r

def cancelled : Action ε Bool := .ask .cancelled .done

def say (text : String) : Action ε Unit := .ask (.say text) .done

def note (line : String) : Action ε Unit := .ask (.note line) .done

def turn (ready : Nat) : Action ε Nat := .ask (.turn ready) .done

end Action

end Fleet
