/-
Containers to be run, and compositions of them.

A `Composition` collects containers by name and the volumes they share. Compositions form a monoid under
`merge`, in which the later container of a name wins.
-/
import Fleet.Dependency.Descriptor

namespace Fleet

/-- how an image is built -/
structure Build where
  context : String := ""
  dockerfile : String := ""
  deriving DecidableEq

structure Container where
  build : Option Build := none
  image : Option String := none
  name : Option String := none
  command : Option String := none
  ports : List String := []
  volumes : List String := []
  links : List String := []
  environment : Variables := .empty
  dependsOn : List String := []
  restart : Option String := none
  deriving DecidableEq

/-- where a container's image comes from, in words -/
def Container.sourceLabel (c : Container) : String :=
  match c.image, c.build with
  | some image, _ => image
  | none, some b => s!"build {b.context} ({b.dockerfile})"
  | none, none => "<no image>"

/-- the name of the running container of a component -/
def Container.runName (component : String) (c : Container) : String := c.name.getD component

structure Composition where
  services : SortedMap Container := .empty
  /-- named volumes, repeated as often as they are declared -/
  volumes : List String := []
  deriving DecidableEq

namespace Composition

def empty : Composition := {}

def single (name : String) (c : Container) : Composition := ⟨.singleton name c, []⟩

/-- both together; the later container of a name wins -/
def merge (a b : Composition) : Composition :=
  ⟨a.services.merge b.services, a.volumes ++ b.volumes⟩

def mergeAll (cs : List Composition) : Composition := cs.foldl merge empty

def isEmpty (c : Composition) : Bool := c.services.isEmpty && c.volumes.isEmpty

/-- where the image of each component comes from -/
def sources (c : Composition) : SortedMap String := c.services.map fun _ s => s.sourceLabel

end Composition

end Fleet
