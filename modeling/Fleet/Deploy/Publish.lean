/-
Publishing images with several workers.

Workers take jobs from a queue. Each looks at the abort token, takes a job, goes through the job's calls, and
reports; one whose job fails raises the abort token before it reports. A step of one worker is one of these,
and the surroundings say whose turn it is, so a run is one interleaving of the workers and the theory ranges
over all of them.
-/
import Fleet.Deploy.ImageJob

namespace Fleet

namespace Publish

/-- where images go -/
structure Target where
  account : Account
  registry : String

/-- the next call of a job -/
inductive Stage where
  | fetch | repository | tag | push
  deriving DecidableEq, Repr

/-- the name of a published image and its reference -/
abbrev Published := String × String

/-- what a worker is about to do -/
inductive Worker where
  | check
  | take
  | work (job : ImageJob) (stage : Stage)
  | abort (fault : Fault)
  | report (result : Except Fault Published)
  | finished

structure State where
  workers : List Worker
  queue : List ImageJob
  aborted : Bool := false
  /-- results in order of arrival, latest first -/
  results : List (Except Fault Published) := []

/-- as many workers as are asked for, but at least one, and no more than there are jobs -/
def workerCount (concurrency jobs : Nat) : Nat := max 1 (min concurrency (max 1 jobs))

def start (jobs : List ImageJob) (concurrency : Nat) : State :=
  { workers := List.replicate (workerCount concurrency jobs.length) .check, queue := jobs }

/-- the call that a stage makes -/
def stageCall (t : Target) (j : ImageJob) : Stage → Call
  | .fetch => match j.origin with
    | .build context dockerfile localTag => .build context dockerfile localTag
    | .pull image => .pull image
  | .repository => .ensureRepository t.account (j.repository t.account.appName)
  | .tag => .tag j.localReference (j.target t.registry t.account.appName)
  | .push => .push (j.target t.registry t.account.appName)

/-- where a worker stands after a call that succeeded -/
def afterStage (t : Target) (j : ImageJob) : Stage → Worker
  | .fetch => .work j .repository
  | .repository => .work j .tag
  | .tag => .work j .push
  | .push => .report (.ok (j.name, j.target t.registry t.account.appName))

def State.put (s : State) (n : Nat) (w : Worker) : State := { s with workers := s.workers.set n w }

/-- where a worker stands after a call -/
def afterCall (t : Target) (j : ImageJob) (stage : Stage) : Except Fault Unit → Worker
  | .ok () => afterStage t j stage
  | .error f => .abort f

/-- make a call for its success or fault alone -/
def attemptCall (c : Call) : Action Empty (Except Fault Unit) :=
  .ask (.call c) fun r => .done (r.map fun _ => ())

/-- one step of worker `n`, which is about to do `w` -/
def step (t : Target) (s : State) (n : Nat) : Worker → Action Empty State
  | .check =>
    if s.aborted then .done (s.put n .finished)
    else Action.cancelled.bind fun c => .done (s.put n (if c then .finished else .take))
  | .take =>
    match s.queue with
    | [] => .done (s.put n .finished)
    | j :: rest => .done ({ s with queue := rest }.put n (.work j .fetch))
  | .work j stage =>
    (attemptCall (stageCall t j stage)).bind fun r => .done (s.put n (afterCall t j stage r))
  | .abort f => .done ({ s with aborted := true }.put n (.report (.error f)))
  | .report r => .done ({ s with results := r :: s.results }.put n .check)
  | .finished => .done s

def Worker.isFinished : Worker → Bool
  | .finished => true
  | _ => false

/-- the workers that are not finished, by number -/
def ready (s : State) : List (Nat × Worker) :=
  (s.workers.zipIdx.filter fun x => !x.1.isFinished).map fun x => (x.2, x.1)

/-- let the workers take their steps, in the order that the surroundings choose -/
def runFrom (t : Target) : Nat → State → Action Empty State
  | 0, s => .done s
  | fuel + 1, s =>
    match ready s with
    | [] => .done s
    | first :: rest =>
      (Action.turn (rest.length + 1)).bind fun k =>
        let chosen := (first :: rest).getD (k % (rest.length + 1)) first
        (step t s chosen.1 chosen.2).bind fun s => runFrom t fuel s

/-- more steps than the workers can take: eight for each job, and three for each worker -/
def enough (s : State) : Nat := 8 * s.queue.length + 3 * s.workers.length + 1

def run (t : Target) (jobs : List ImageJob) (concurrency : Nat) : Action Empty State :=
  let s := start jobs concurrency
  runFrom t (enough s) s

/-- the first fault among results in order of arrival -/
def firstFault : List (Except Fault Published) → Option Fault
  | [] => none
  | .error f :: _ => some f
  | .ok _ :: rest => firstFault rest

def published : List (Except Fault Published) → List Published
  | [] => []
  | .ok p :: rest => p :: published rest
  | .error _ :: rest => published rest

/-- the published images, if every job was published and the run is not cancelled -/
def outcome (total : Nat) (s : State) : Action Fault Images :=
  let results := s.results.reverse
  match firstFault results with
  | some f => .fail f
  | none =>
    let images : Images := .ofList (published results)
    Action.cancelled.bind fun c =>
      if c || images.size ≠ total then .fail .cancelled else .done images

end Publish

/-- a dialogue that cannot fail, seen as one that could -/
def Action.widen {ε α : Type} (a : Action Empty α) : Action ε α := a.mapFailure Empty.elim

/-- publish all images -/
def publish (t : Publish.Target) (jobs : List ImageJob) (concurrency : Nat) : Action Fault Images :=
  (Publish.run t jobs concurrency).widen.bind (Publish.outcome jobs.length)

end Fleet
