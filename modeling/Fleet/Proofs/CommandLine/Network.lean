/-
The network of a local run, and its name.

- `projectName_ne_empty_iff`: a directory gives a project a name just if its last component moves down and has an ASCII
  letter or digit; the name has lower-case letters and digits only.
- `perform_onNetwork`: what is asked on a network is carried out on it, by the command lines of the container engine.
- `networks_are_named_iff`: so `run` and `test` make, join and remove one network and tag images with its name, and it
  has a name just if the directory gives one.
- `present_directory_is_nameless`: an application in the present directory `.` is loaded, and its network has no name.
-/
import Fleet.CommandLine.Commands
import Fleet.Proofs.Compose.Startable
import Fleet.Proofs.Local.Network
import Fleet.Proofs.Naming
import Fleet.Proofs.Project

namespace Fleet

open Dialogue Machine

/-! ## Names of projects -/

namespace Naming

variable {c : Char} {dir : String}

theorem isAlphanum_iff : c.isAlphanum = true ↔ NameChar false c := by
  rw [← isNameChar_iff, isNameChar, Char.isAlphanum, Bool.or_comm]
  rfl

theorem nameChar_toLower (h : NameChar false c) : NameChar true c.toLower := by
  have hall : ∀ n : Fin 128, isNameChar false (Char.ofNat n) = true →
      isNameChar true (Char.ofNat n).toLower = true := by
    decide +kernel
  rw [← isNameChar_iff] at h ⊢
  have hc := hall ⟨c.toNat, toNat_lt_of_nameChar (.inr h)⟩
  simp only [Char.ofNat_toNat] at hc
  exact hc h

theorem nameChar_of_mem_projectName (h : c ∈ (projectName dir).toList) : NameChar true c := by
  unfold projectName at h
  split at h
  · cases h
  · rw [String.toList_ofList] at h
    obtain ⟨d, hd, rfl⟩ := List.mem_map.1 h
    exact nameChar_toLower (isAlphanum_iff.1 (List.mem_filter.1 hd).2)

/-- **A project has a name** just if the last component of its directory has a letter or a digit. -/
theorem projectName_ne_empty_iff : projectName dir ≠ "" ↔
    ∃ name, (Path.components dir).getLast? = some name ∧ ∃ c ∈ name.toList, NameChar false c := by
  have hkept (name : String) : String.ofList ((name.toList.filter Char.isAlphanum).map Char.toLower) ≠ "" ↔
      ∃ c ∈ name.toList, NameChar false c := by
    rw [Ne, ← String.toList_inj, String.toList_ofList]
    simp [List.filter_eq_nil_iff, isAlphanum_iff]
  unfold projectName Path.baseName?
  cases hlast : (Path.components dir).getLast? with
  | none => simp
  | some name =>
    by_cases hup : name = ".."
    · subst hup
      simp [NameChar]
    · simp only [if_neg hup, hkept, Option.some.injEq, exists_eq_left']

end Naming

/-! ## Processes -/

/-- a process names no network but this one, every container that it starts joins it, and every image that it builds is
tagged with its name -/
structure Machine.Command.OnNetwork (network : String) (c : Command) : Prop where
  sought : ∀ filter, c.args = ["network", "ls", "--quiet", "--filter", filter] → filter = "name=^" ++ network ++ "$"
  made : ∀ name, c.args = ["network", "create", name] → name = network
  removed : ∀ name, c.args = ["network", "rm", name] → name = network
  joined : ∀ name rest, c.args = "run" :: "--detach" :: "--name" :: name :: rest → ["--network", network] <+: rest
  tagged : ∀ dockerfile tag, c.args = ["build", "--file", dockerfile, "--tag", tag, "."] →
    ∃ component : String, tag = s!"{network}-{component}"

/-- all processes that are started are on this network -/
def Machine.Request.OnNetwork (network : String) : Request → Prop
  | .execute c => c.OnNetwork network
  | _ => True

variable {network : String}

namespace Machine.Program

variable {α ε : Type} {c : Command}

theorem orFault_onNetwork (path : String) (x : Except FileCause α) :
    (orFault path x).AsksOnly (Request.OnNetwork network) := by cases x <;> trivial

/-- a request that starts no process -/
theorem request_onNetwork {q : Request} (h : q.OnNetwork network) :
    (request q : Program ε q.Answer).AsksOnly (Request.OnNetwork network) := ⟨h, fun _ => trivial⟩

theorem locate_onNetwork (tool : Tool) (program : String) :
    (locate tool program).AsksOnly (Request.OnNetwork network) := by
  refine asksOnly_bind (request_onNetwork trivial) fun found => ?_
  cases found <;> trivial

theorem execute_onNetwork (h : c.OnNetwork network) : (execute c).AsksOnly (Request.OnNetwork network) := by
  refine asksOnly_bind (request_onNetwork h) fun finished => ?_
  cases finished <;> trivial

theorem captured_onNetwork (h : c.OnNetwork network) : (captured c).AsksOnly (Request.OnNetwork network) :=
  asksOnly_bind (execute_onNetwork h) fun _ => asksOnly_ofExcept _

theorem streamed_onNetwork (h : c.OnNetwork network) : (streamed c).AsksOnly (Request.OnNetwork network) := by
  refine asksOnly_bind (execute_onNetwork h) fun _ => ?_
  refine asksOnly_bind (request_onNetwork trivial) fun stopped => ?_
  split
  · trivial
  · exact asksOnly_ofExcept _

end Machine.Program

/-! ## The container engine -/

namespace Docker

open Machine.Program

variable (d : Docker)

/-- a command that begins with another word has nothing to do with networks -/
theorem command_onNetwork {word : String} {rest : List String} (h : word ≠ "network" ∧ word ≠ "run" ∧ word ≠ "build") :
    (d.command (word :: rest)).OnNetwork network := by
  obtain ⟨hnetwork, hrun, hbuild⟩ := h
  constructor <;> simp [command, hnetwork, hrun, hbuild]

theorem silent_onNetwork {args : List String} (h : (d.command args).OnNetwork network) :
    (d.silent args).AsksOnly (Request.OnNetwork network) := asksOnly_bind (captured_onNetwork h) fun _ => trivial

theorem start_onNetwork (name : String) (c : Container) :
    (d.start name c (some network)).AsksOnly (Request.OnNetwork network) := by
  refine asksOnly_bind_of_play (asksOnly_ofExcept _) fun args es hargs => ?_
  have hargs : runArguments name c (some network) = .ok args := (play_ofExcept_iff.1 hargs).2.symm
  refine asksOnly_bind (captured_onNetwork ?_) fun _ => trivial
  cases himage : c.image with
  | none =>
    rw [runArguments, himage] at hargs
    cases hargs
  | some image =>
    simp only [runArguments, himage] at hargs
    cases hargs
    constructor <;> simp [command, repeated]

theorem createNetwork_onNetwork : (d.createNetwork network).AsksOnly (Request.OnNetwork network) := by
  refine asksOnly_bind (captured_onNetwork (by constructor <;> simp [command])) fun listing => ?_
  split
  · trivial
  · exact silent_onNetwork d (by constructor <;> simp [command])

theorem wait_onNetwork (name : String) : (d.wait name).AsksOnly (Request.OnNetwork network) := by
  refine asksOnly_bind (streamed_onNetwork (d.command_onNetwork (by decide))) fun _ => ?_
  exact asksOnly_bind (captured_onNetwork (d.command_onNetwork (by decide))) fun _ => asksOnly_ofExcept _

theorem listContainers_onNetwork : d.listContainers.AsksOnly (Request.OnNetwork network) :=
  asksOnly_bind (captured_onNetwork (d.command_onNetwork (by decide))) fun _ => trivial

end Docker

/-! ## Tools -/

namespace Toolset

open Machine.Program

/-- **What is asked on a network is carried out on it.** -/
theorem perform_onNetwork (t : Toolset) {c : Call} (h : (Ask.call c).OnNetwork network) :
    (t.perform c).AsksOnly (Request.OnNetwork network) := by
  cases c with
  | pull image => exact streamed_onNetwork (t.docker.command_onNetwork (by decide))
  | imageExists image =>
    exact asksOnly_bind (captured_onNetwork (t.docker.command_onNetwork (by decide))) fun _ => trivial
  | build context dockerfile tag =>
    obtain ⟨component, rfl⟩ := h
    exact streamed_onNetwork (by constructor <;> simp [Docker.command])
  | start name spec joined =>
    obtain rfl : joined = some network := h
    exact t.docker.start_onNetwork name spec
  | wait name => exact t.docker.wait_onNetwork name
  | stop name | remove name => exact t.docker.silent_onNetwork (t.docker.command_onNetwork (by decide))
  | createNetwork name =>
    obtain rfl : name = network := h
    exact t.docker.createNetwork_onNetwork
  | removeNetwork name =>
    obtain rfl : name = network := h
    exact t.docker.silent_onNetwork (by constructor <;> simp [Docker.command])
  | listContainers => exact t.docker.listContainers_onNetwork
  | _ => exact h.elim

theorem play_onNetwork {ε α : Type} (t : Toolset) {a : Action ε α} (h : a.AsksOnly (Ask.OnNetwork network)) :
    (t.play a).AsksOnly (Request.OnNetwork network) := by
  refine asksOnly_interpret h fun q hq => ?_
  cases q with
  | call c => exact asksOnly_attempt (t.perform_onNetwork hq)
  | cancelled => exact ⟨trivial, fun _ => trivial⟩
  | note line => exact ⟨trivial, fun _ => trivial⟩
  | say | turn => exact hq.elim

end Toolset

/-! ## Commands -/

namespace Project

open Machine.Program

theorem readYaml_onNetwork {α : Type} (decoder : Yaml.Decoder α) (path : String) :
    (readYaml decoder path).AsksOnly (Request.OnNetwork network) := by
  refine asksOnly_bind (asksOnly_bind (request_onNetwork trivial) fun _ => orFault_onNetwork path _) fun text => ?_
  split <;> trivial

theorem loadService_onNetwork (dir role : String) (source : Source) :
    (loadService dir role source).AsksOnly (Request.OnNetwork network) := by
  unfold loadService
  split
  · trivial
  · trivial
  · exact readYaml_onNetwork _ _

theorem loadServices_onNetwork (dir : String) (loaded : SortedMap Service) (l : List (String × Source)) :
    (loadServices dir loaded l).AsksOnly (Request.OnNetwork network) := by
  induction l generalizing loaded with
  | nil => trivial
  | cons head l ih => exact asksOnly_bind (loadService_onNetwork dir _ _) fun _ => ih _

theorem load_onNetwork (dir : String) : (load dir).AsksOnly (Request.OnNetwork network) := by
  refine asksOnly_bind (readYaml_onNetwork _ _) fun application => ?_
  refine asksOnly_bind (asksOnly_ofExcept _) fun _ => ?_
  exact asksOnly_bind (loadServices_onNetwork dir _ _) fun _ => trivial

/-- a project knows the directory that it was loaded from -/
theorem dir_of_load {dir : String} {p : Project} {reads : List (Exchange Request Request.Answer)}
    (h : (load dir).Play reads (.ok p)) : p.dir = dir := by
  obtain ⟨_, hr, _⟩ | ⟨_, _, _, _, _, hchecked⟩ := play_bind_iff.1 h
  · cases hr
  obtain ⟨_, hr, _⟩ | ⟨_, _, _, _, _, hload⟩ := play_bind_iff.1 hchecked
  · cases hr
  obtain ⟨_, hr, _⟩ | ⟨_, _, _, _, _, hend⟩ := play_bind_iff.1 hload
  · cases hr
  cases (play_done_iff.1 hend).2
  rfl

end Project

namespace CommandLine

open Machine.Program

theorem plainly_onNetwork {α : Type} {p : Program Fault α} (h : p.AsksOnly (Request.OnNetwork network)) :
    (plainly p).AsksOnly (Request.OnNetwork network) := asksOnly_mapFailure h

theorem noteLines_onNetwork (lines : List String) : (noteLines lines).AsksOnly (Request.OnNetwork network) := by
  induction lines with
  | nil => trivial
  | cons line lines ih => exact ⟨trivial, fun _ => ih⟩

theorem compile_onNetwork (p : Project) (mode : Mode) (environment : String → Option String) :
    (compile p mode environment).AsksOnly (Request.OnNetwork network) := by
  unfold compile
  split <;> trivial

theorem writeCompose_onNetwork (s : Settings) (p : Project) (mode : Mode) (c : Composition) :
    (writeCompose s p mode c).AsksOnly (Request.OnNetwork network) := by
  refine plainly_onNetwork (asksOnly_bind (request_onNetwork trivial) fun present => ?_)
  refine asksOnly_bind ?_ fun _ => ?_
  · split
    · exact asksOnly_bind (request_onNetwork trivial) fun _ => orFault_onNetwork _ _
    · trivial
  · refine asksOnly_bind (asksOnly_bind (request_onNetwork trivial) fun _ => orFault_onNetwork _ _) fun _ => ?_
    refine asksOnly_bind (asksOnly_bind (request_onNetwork trivial) fun _ => orFault_onNetwork _ _) fun _ => ?_
    trivial

theorem localTools_onNetwork (s : Settings) : (localTools s).AsksOnly (Request.OnNetwork network) := by
  refine asksOnly_bind (plainly_onNetwork ?_) fun _ => trivial
  exact asksOnly_bind (locate_onNetwork _ _) fun _ => trivial

theorem showContainers_onNetwork (t : Toolset) (c : Composition) :
    (showContainers t c).AsksOnly (Request.OnNetwork network) := by
  refine asksOnly_bind (asksOnly_attempt t.docker.listContainers_onNetwork) fun listed => ?_
  cases listed with
  | ok listed => exact noteLines_onNetwork _
  | error f => trivial

theorem serve_onNetwork (t : Toolset) (s : Stack) : (serve t s).AsksOnly (Request.OnNetwork s.network) := by
  refine asksOnly_bind (noteLines_onNetwork _) fun _ => ⟨trivial, fun _ => ?_⟩
  refine asksOnly_bind (noteLines_onNetwork _) fun _ => ?_
  refine asksOnly_bind (asksOnly_mapFailure (t.play_onNetwork s.teardown_onNetwork)) fun problem => ?_
  cases problem with
  | none => exact noteLines_onNetwork _
  | some f => trivial

/-- loading, compiling and the compose file come before anything is started -/
theorem prepared_onNetwork {α : Type} (s : Settings) (dir : String) (mode : Mode) (environment : String → Option String)
    {next : Project → Composition → Run α} (h : ∀ p c, p.dir = dir → (next p c).AsksOnly (Request.OnNetwork network)) :
    ((load dir).bind fun p => (compile p mode environment).bind fun c =>
      (writeCompose s p mode c).bind fun _ => next p c).AsksOnly (Request.OnNetwork network) := by
  refine asksOnly_bind_of_play (asksOnly_mapFailure (Project.load_onNetwork dir)) fun p es hload => ?_
  have hdir : p.dir = dir := Project.dir_of_load (play_mapFailure_ok_iff.1 hload)
  refine asksOnly_bind (compile_onNetwork p mode environment) fun c => ?_
  exact asksOnly_bind (writeCompose_onNetwork s p mode c) fun _ => h p c hdir

theorem run_onNetwork (s : Settings) (dir : String) (mode : Mode) (detach : Bool)
    (environment : String → Option String) :
    (run s dir mode detach environment).AsksOnly (Request.OnNetwork (Naming.projectName dir)) := by
  refine prepared_onNetwork s dir mode environment fun p c hdir => ?_
  subst hdir
  refine asksOnly_bind (plainly_onNetwork (asksOnly_ofExcept _)) fun order => ?_
  refine asksOnly_bind (localTools_onNetwork s) fun tools => ?_
  have hup := tools.play_onNetwork (Stack.up_onNetwork p (Naming.projectName p.dir) c order)
  refine asksOnly_bind_of_play (asksOnly_mapFailure hup) fun stack es hstack => ?_
  obtain ⟨_, hbrought⟩ := play_of_interpret (play_mapFailure_ok_iff.1 hstack)
  refine ⟨trivial, fun time => ?_⟩
  refine asksOnly_bind (noteLines_onNetwork _) fun _ => ?_
  refine asksOnly_bind (showContainers_onNetwork tools c) fun _ => ?_
  split
  · exact noteLines_onNetwork _
  · exact (Stack.network_of_up hbrought).1 ▸ serve_onNetwork tools stack

theorem test_onNetwork (s : Settings) (dir : String) (mode : Mode) (environment : String → Option String) :
    (test s dir mode environment).AsksOnly (Request.OnNetwork (Naming.projectName dir)) := by
  refine prepared_onNetwork s dir mode environment fun p c hdir => ?_
  subst hdir
  refine asksOnly_bind (localTools_onNetwork s) fun tools => ?_
  have hall := tools.play_onNetwork (TestRun.all_onNetwork ⟨p, mode, environment⟩)
  refine asksOnly_bind (asksOnly_mapFailure hall) fun report => ?_
  refine asksOnly_bind (noteLines_onNetwork _) fun _ => ?_
  split <;> trivial

/-- **The network of a local run is called like the project**, by lower-case letters and digits, and it has a name just
if the last component of the directory moves down and has a letter or a digit. -/
theorem networks_are_named_iff (dir : String) :
    (∀ s mode detach environment,
      (run s dir mode detach environment).AsksOnly (Request.OnNetwork (Naming.projectName dir))) ∧
    (∀ s mode environment, (test s dir mode environment).AsksOnly (Request.OnNetwork (Naming.projectName dir))) ∧
    (∀ p c order es stack, (Stack.up p (Naming.projectName dir) c order).Play es (.ok stack) →
      stack.network = Naming.projectName dir ∧ .createNetwork (Naming.projectName dir) ∈ calls es) ∧
    (∀ c ∈ (Naming.projectName dir).toList, Naming.NameChar true c) ∧
    (Naming.projectName dir ≠ "" ↔
      ∃ name, (Path.components dir).getLast? = some name ∧ ∃ c ∈ name.toList, Naming.NameChar false c) :=
  ⟨fun s => run_onNetwork s dir, fun s => test_onNetwork s dir, fun _ _ _ _ _ => Stack.network_of_up,
    fun _ => Naming.nameChar_of_mem_projectName, Naming.projectName_ne_empty_iff⟩

/-- the shop in `/shop` comes up on a network that was made for it -/
theorem shop_network_is_made : Naming.projectName "/shop" ≠ "" ∧ ∃ es stack, Stack.shopRun.Play es (.ok stack) ∧
    stack.network = "shop" ∧ .createNetwork "shop" ∈ calls es := by
  obtain ⟨-, -, hmade, -, hnamed⟩ := networks_are_named_iff "/shop"
  have hlast : (Path.components "/shop").getLast? = some "shop" := by decide
  have hnetwork : Naming.projectName "/shop" = "shop" := by decide
  have hresult : (Stack.shopRun.run (Rehearsal.answer {}) {}).1 =
      .ok { network := "shop", started := ["shop-web", "database"] } := rfl
  have hplay := hresult ▸ play_run (Rehearsal.answer {}) Stack.shopRun {}
  rw [hnetwork] at hmade
  exact ⟨hnamed.2 ⟨"shop", hlast, 's', by simp, by simp [Naming.NameChar]⟩, _, _, hplay, hmade _ _ _ _ _ hplay⟩

/-- an application in the present directory is loaded, and its network has no name -/
theorem present_directory_is_nameless : ¬ ∀ dir p reads, (Project.load dir).Play reads (.ok p) →
    Naming.projectName dir ≠ "" := by
  intro hnamed
  obtain ⟨reads, hloaded⟩ := Compiler.exists_load_pages
  exact hnamed "." _ reads hloaded (by decide)

end CommandLine

end Fleet
