/-
A machine in memory.

It has a file tree, a present directory, a few programs that can be found, and a list of answers that started
processes play one after the other. What happens on it is kept: the processes that were started, and what was
printed. A process whose directory cannot be entered, or whose program is not there, is not started and takes no
answer.
-/
import Fleet.Machine.FileTree
import Fleet.Machine.Request
import Fleet.SortedMap
import Fleet.Text.Octets

namespace Fleet.Machine

/-- a process that was started -/
structure Started where
  program : String
  args : List String
  directory : Location
  input : Option String

structure Memory where
  tree : FileTree := {}
  directory : Location := []
  /-- the files that are programs -/
  programs : List Location := []
  /-- the directories in which bare names of programs are looked up -/
  searched : List String := []
  /-- what the next processes leave behind; when it runs out they succeed in silence -/
  answers : List Finished := []
  /-- latest first -/
  started : List Started := []
  /-- texts on standard output, latest first -/
  printed : List String := []
  /-- lines on standard error, latest first -/
  notes : List String := []
  isInterrupted : Bool := false

namespace Memory

def silence : Finished := ⟨0, .empty, .empty⟩

/-- the program that a path names, seen from a directory -/
def programAt (m : Memory) (base : Location) (path : String) : Except FileCause Location :=
  match m.tree.resolve base path with
  | .error e => .error e
  | .ok l =>
    if m.programs.contains l then .ok l
    else .error (if (m.tree.get? l).isSome then .denied else .notFound)

/-- a path to a program. The way to a bare name is only good in the present directory, if it starts there -/
def locate (m : Memory) (program : String) : Option String :=
  if Path.isBare program then
    (m.searched.map fun dir => Path.join dir program).find? fun path =>
      (m.programAt m.directory path).isOk
  else match m.programAt m.directory (Path.way program) with
    | .ok l => some ("/" ++ "/".intercalate l)
    | .error _ => none

/-- the place that a process runs in -/
def workPlace (m : Memory) (directory : Option String) : Except FileCause Location :=
  match directory with
  | none => .ok m.directory
  | some path =>
    match m.tree.resolve m.directory path with
    | .error e => .error e
    | .ok l => (m.tree.checkDirectory l).map fun _ => l

/-- of a process's code only eight bits are seen -/
def seen (f : Finished) : Finished := { f with code := f.code % 256 }

/-- nothing that a process is started with may hold a NUL -/
def holdsNul (c : Command) : Bool :=
  (c.program :: c.directory.toList ++ c.args).any fun s => s.toList.contains '\x00'

def start (m : Memory) (c : Command) : Except FileCause Finished × Memory :=
  if holdsNul c then (.error .nulInCommand, m)
  else match m.workPlace c.directory with
    | .error e => (.error e, m)
    | .ok l => match m.programAt l c.program with
      | .error e => (.error e, m)
      | .ok _ =>
        let process : Started := ⟨(Path.baseName? c.program).getD "", c.args, l, c.input⟩
        (.ok (seen (m.answers.headD silence)),
          { m with answers := m.answers.tail, started := process :: m.started })

def readText (m : Memory) (path : String) : Except FileCause String :=
  match m.tree.readOctets m.directory path with
  | .error e => .error e
  | .ok bytes => match Text.ofOctets? bytes with
    | some text => .ok text
    | none => .error .notText

/-- a changed tree, with the outcome of the change -/
def change (m : Memory) (r : Except FileCause Unit × FileTree) : Except FileCause Unit × Memory :=
  (r.1, { m with tree := r.2 })

/-- there is no terminal to ask at -/
def noTerminal : String := "IO error: not a terminal"

def answer : (q : Request) → Memory → q.Answer × Memory
  | .readFile path, m => (m.readText path, m)
  | .isPresent path, m => (m.tree.isPresent m.directory path, m)
  | .writeFile path text, m => m.change (m.tree.write m.directory path text.toUTF8)
  | .makeDirectories path, m => m.change (m.tree.makeDirectories m.directory path)
  | .removeDirectory path, m => m.change (m.tree.removeDirectory m.directory path)
  | .locate program, m => (m.locate program, m)
  | .execute command, m => m.start command
  | .interrupted, m => (m.isInterrupted, m)
  | .awaitInterrupt, m => ((), { m with isInterrupted := true })
  | .confirm _, m => (.error noTerminal, m)
  | .print text, m => ((), { m with printed := text :: m.printed })
  | .note line, m => ((), { m with notes := line :: m.notes })
  | .elapsed, m => ("<t>", m)
  | .turn _, m => (0, m)

/-- run a program on the machine -/
def run {ε α : Type} (m : Memory) (p : Program ε α) : Except ε α × Memory := p.run answer m

/-! ## What is seen afterwards -/

def output (m : Memory) : String := String.join m.printed.reverse

def complaints (m : Memory) : List String := m.notes.reverse

/-- the processes that were started on `m` but not yet on `before` -/
def startedSince (m before : Memory) : List Started :=
  (m.started.take (m.started.length - before.started.length)).reverse

/-- a location as a path from another one -/
def relative (base l : Location) : String :=
  if base.isPrefixOf l then
    if base = l then "." else "/".intercalate (l.drop base.length)
  else
    match base with
    | b :: base' => match l with
      | c :: l' => if b = c then relative base' l' else up (b :: base') (c :: l')
      | [] => up (b :: base') []
    | [] => up [] l
where
  up (base l : Location) : String := "/".intercalate (base.map (fun _ => "..") ++ l)

/-- the files below a location, by their paths from there -/
def filesBelow (m : Memory) (base : Location) : SortedMap ByteArray :=
  .ofList <| m.tree.entries.filterMap fun e =>
    match e.2 with
    | .file content =>
      if base.isPrefixOf e.1 then some ("/".intercalate (e.1.drop base.length), content) else none
    | .directory => none

end Memory

end Fleet.Machine
