/-
The order in which components are started: every one after those it depends on.

Components are the nodes of a graph, with an edge from each dependency to its dependent. A depth-first
search finishes every node after all that come later than it; the finish list, turned round, is the order.
A second search, against the edges, then visits the nodes in that order: each of its walks should see one new
node only, and a second one lies on a cycle.
-/
import Fleet.Container
import Fleet.Fault

namespace Fleet

/-- nodes by number, and edges in the order of their making -/
structure StartGraph where
  names : List String := []
  /-- from dependency to dependent, latest first -/
  edges : List (Nat × Nat) := []

namespace StartGraph

def size (g : StartGraph) : Nat := g.names.length

def addComponent (g : StartGraph) (name : String) : StartGraph :=
  { g with names := g.names ++ [name] }

def addDependency (g : StartGraph) (dependent dependency : Nat) : StartGraph :=
  { g with edges := (dependency, dependent) :: g.edges }

/-- the dependents of a node, latest edge first -/
def after (g : StartGraph) (n : Nat) : List Nat :=
  (g.edges.filter fun e => e.1 = n).map Prod.snd

/-- the dependencies of a node, latest edge first -/
def before (g : StartGraph) (n : Nat) : List Nat :=
  (g.edges.filter fun e => e.2 = n).map Prod.fst

/-- a depth-first search: the nodes to look at, those seen, and those finished, latest first -/
structure Search where
  stack : List Nat := []
  seen : List Nat := []
  finished : List Nat := []

/-- look at the top of the stack; a node that depends on itself ends the search -/
def step (g : StartGraph) (s : Search) : Except Nat Search :=
  match s.stack with
  | [] => .ok s
  | n :: rest =>
    if s.seen.contains n then
      .ok { s with stack := rest,
                   finished := if s.finished.contains n then s.finished else n :: s.finished }
    else
      let seen := n :: s.seen
      if (g.after n).contains n then .error n
      else
        let fresh := (g.after n).filter fun m => !seen.contains m
        .ok { s with stack := fresh.reverse ++ s.stack, seen }

/-- search until the stack is empty; every step sees a node or pops one -/
def searchFrom (g : StartGraph) : Nat → Search → Except Nat Search
  | 0, s => .ok s
  | fuel + 1, s =>
    if s.stack.isEmpty then .ok s
    else match g.step s with
      | .error n => .error n
      | .ok s => searchFrom g fuel s

/-- more steps than any search takes -/
def enough (g : StartGraph) : Nat := 2 * g.size + 2 * g.edges.length + 2

/-- search from each of these nodes that is not seen yet -/
def searchAll (g : StartGraph) (s : Search) : List Nat → Except Nat Search
  | [] => .ok s
  | n :: rest =>
    if s.seen.contains n then searchAll g s rest
    else match g.searchFrom g.enough { s with stack := [n] } with
      | .error n => .error n
      | .ok s => searchAll g s rest

/-- walk against the edges from what is on the stack: the nodes seen, and the new ones in order -/
def walkBack (g : StartGraph) : Nat → List Nat → List Nat → List Nat → List Nat × List Nat
  | 0, seen, _, found => (seen, found.reverse)
  | _ + 1, seen, [], found => (seen, found.reverse)
  | fuel + 1, seen, n :: stack, found =>
    if seen.contains n then walkBack g fuel seen stack found
    else
      let seen := n :: seen
      let fresh := (g.before n).filter fun m => !seen.contains m
      walkBack g fuel seen (fresh.reverse ++ stack) (n :: found)

/-- the first node that a walk should not have reached -/
def findCycle (g : StartGraph) (seen : List Nat) : List Nat → Option Nat
  | [] => none
  | n :: rest =>
    match g.walkBack g.enough seen [n] [] with
    | (_, _ :: m :: _) => some m
    | (seen, _) => findCycle g seen rest

def cycleFault (g : StartGraph) (n : Nat) : Fault := .unresolved (g.names.getD n "") .cycle

/-- the names in starting order -/
def order (g : StartGraph) : Except Fault (List String) :=
  match g.searchAll {} (List.range g.size) with
  | .error n => .error (g.cycleFault n)
  | .ok s =>
    match g.findCycle [] s.finished with
    | some n => .error (g.cycleFault n)
    | none => .ok (s.finished.map fun n => g.names.getD n "")

end StartGraph

namespace Composition

/-- the place of a name in a list -/
def numberOf? (names : List String) (name : String) : Option Nat := names.findIdx? (· = name)

/-- edges for what one component depends on; the first target that is no component is reported -/
def addTargets (names : List String) (dependent : String) (n : Nat) (g : StartGraph) :
    List String → Except Fault StartGraph
  | [] => .ok g
  | target :: rest =>
    match numberOf? names target with
    | none => .error (.unresolved target (.undefinedDependency dependent))
    | some m => addTargets names dependent n (g.addDependency n m) rest

/-- edges for all components, in order; `n` is the number of the next one -/
def addEdges (names : List String) (n : Nat) (g : StartGraph) :
    List (String × Container) → Except Fault StartGraph
  | [] => .ok g
  | (name, c) :: rest =>
    match addTargets names name n g c.dependsOn with
    | .error f => .error f
    | .ok g => addEdges names (n + 1) g rest

def startGraph (c : Composition) : Except Fault StartGraph :=
  addEdges c.services.keys 0 ⟨c.services.keys, []⟩ c.services.entries

/-- the components in an order in which they can be started -/
def startOrder (c : Composition) : Except Fault (List String) :=
  c.startGraph.bind StartGraph.order

end Composition

end Fleet
