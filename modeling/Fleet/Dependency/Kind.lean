/-
The kinds of dependencies, told by name and lifecycle.

Message buses carry the messages of all services; some databases are managed by the cloud instead of running
in a container there; everything else is a plain container.
-/
import Fleet.Dependency.Descriptor
import Fleet.Mode

namespace Fleet

inductive DependencyKind where
  | messageBus (repository : String)
  | managedDatabase
  | generic
  deriving DecidableEq, Repr

/-- the kind of the dependency of this name -/
def DependencyKind.of (name : String) (l : Lifecycle) : DependencyKind :=
  if name = "exocom" then .messageBus "originate/exocom"
  else if name = "msgbus" then .messageBus "msgbus"
  else if (name = "postgres" || name = "mysql") && l = .inCloud then .managedDatabase
  else .generic

/-- a declared dependency in one lifecycle -/
structure Dependency where
  descriptor : Descriptor
  lifecycle : Lifecycle
  deriving DecidableEq

namespace Dependency

def name (d : Dependency) : String := d.descriptor.name

def version (d : Dependency) : String := d.descriptor.version

def kind (d : Dependency) : DependencyKind := .of d.name d.lifecycle

def containerName (d : Dependency) : String := d.descriptor.containerName

/-- whether the dependency runs in a container of its own -/
def isContainerised (d : Dependency) : Bool :=
  match d.kind with
  | .managedDatabase => false
  | .messageBus _ | .generic => true

end Dependency

end Fleet
