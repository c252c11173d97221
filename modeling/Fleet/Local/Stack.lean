/-
Containers run together on this machine.

`Stack.up` starts components in order on a network of their own, after the leftovers of an earlier run are
gone. If one cannot be started, everything started so far is stopped again and the first fault is reported;
`Stack.teardown` goes on past faults and reports the first.
-/
import Fleet.Collaborator

namespace Fleet

/-- why a local run ends early -/
inductive LocalFault where
  | fault (f : Fault)
  | interruptedStart (component : String)
  | noComponent (name : String)
  | interruptedTest (role : String)
  deriving DecidableEq, Repr

def LocalFault.message : LocalFault → String
  | .fault f => f.message
  | .interruptedStart component => s!"interrupted before starting {component}"
  | .noComponent name => s!"no component named {name}"
  | .interruptedTest role => s!"interrupted before testing {role}"

/-- containers that are running, latest first -/
structure Stack where
  network : String
  started : List String := []

namespace Stack

def callLocal (c : Call) : Action LocalFault c.Answer := (Action.call c).mapFailure .fault

/-- the names that the containers of a composition have when they run -/
def runNames (c : Composition) : List String := c.services.entries.map fun e => e.2.runName e.1

/-! ## Starting -/

/-- stop and remove the listed containers that have one of these names -/
def removeStale (names : List String) : List ContainerRecord → Action LocalFault Unit
  | [] => .done ()
  | r :: rest =>
    if names.contains r.name then
      (callLocal (.stop r.name)).bind fun _ =>
        (callLocal (.remove r.name)).bind fun _ => removeStale names rest
    else removeStale names rest

/-- build the component's image, or pull it if it is missing; the container then runs that image -/
def prepareImage (s : Stack) (p : Project) (name : String) (c : Container) :
    Action LocalFault Container :=
  match c.build, c.image with
  | some b, _ =>
    let tag := s!"{s.network}-{name}"
    (callLocal (.build (Path.join p.dir b.context) b.dockerfile tag)).bind fun _ =>
      .done { c with image := some tag }
  | none, some image =>
    (callLocal (.imageExists image)).bind fun present =>
      if present then .done c else (callLocal (.pull image)).bind fun _ => .done c
  | none, none => .done c

/-- start one component, for the name of its container -/
def start (s : Stack) (p : Project) (c : Composition) (name : String) :
    Action LocalFault (String × Stack) :=
  Action.cancelled.bind fun
    | true => .fail (.interruptedStart name)
    | false =>
      match c.services.get? name with
      | none => .fail (.noComponent name)
      | some spec =>
        (s.prepareImage p name spec).bind fun spec =>
          let container := spec.runName name
          (callLocal (.start container spec (some s.network))).bind fun _ =>
            (Action.note s!"  + {name}").bind fun _ =>
              .done (container, { s with started := container :: s.started })

/-! ## Stopping -/

/-- stop a container and, if that works, remove it -/
def stopOne (name : String) : Action Fault Unit :=
  (Action.call (.stop name)).bind fun _ => Action.call (.remove name)

/-- stop containers one after the other, past all faults, for the first fault -/
def stopAll (first : Option Fault) : List String → Action Empty (Option Fault)
  | [] => .done first
  | name :: rest =>
    (stopOne name).attempt.bind fun
      | .ok () => (Action.note s!"  - {name}").bind fun _ => stopAll first rest
      | .error f => stopAll (first.or (some f)) rest

/-- stop everything, latest first, and remove the network, for the first fault -/
def teardown (s : Stack) : Action Empty (Option Fault) :=
  (stopAll none s.started).bind fun first =>
    (Action.call (.removeNetwork s.network)).attempt.bind fun
      | .ok () => .done first
      | .error f => .done (first.or (some f))

/-! ## Everything -/

def widenLocal {α : Type} (a : Action Empty α) : Action LocalFault α := a.mapFailure Empty.elim

/-- start components in order; if one fails, stop those before it -/
def startAll (p : Project) (c : Composition) : List String → Stack → Action LocalFault Stack
  | [], s => .done s
  | name :: rest, s =>
    (s.start p c name).attempt.bind fun
      | .ok (_, s) => startAll p c rest s
      | .error f => (widenLocal s.teardown).bind fun _ => .fail f

/-- the components of a composition, running in this order on a network of this name -/
def up (p : Project) (network : String) (c : Composition) (order : List String) :
    Action LocalFault Stack :=
  (callLocal .listContainers).bind fun existing =>
    (removeStale (runNames c) existing).bind fun _ =>
      (callLocal (.createNetwork network)).bind fun _ => startAll p c order { network }

end Stack

end Fleet
