/-
The container engine, through its command line.

`runArguments` says how a container is described to it; `readExitCode`, `readImages` and `readContainers`
read what it prints. Listings are read line by line, and a line with too few fields is passed over.
-/
import Fleet.Collaborator
import Fleet.Machine.Execution
import Fleet.Text.Lines

namespace Fleet

open Machine

/-- the container engine's program -/
structure Docker where
  program : String

namespace Docker

def locate (program : String) : Program Fault Docker :=
  (Program.locate .docker program).bind fun path => .done ⟨path⟩

def command (d : Docker) (args : List String) : Command :=
  { tool := .docker, program := d.program, args }

/-! ## What it is told -/

/-- an option given once for each value -/
def repeated (option : String) (values : List String) : List String :=
  values.flatMap fun v => [option, v]

/-- how a container is started: options, then the image, then the words of its command -/
def runArguments (name : String) (c : Container) (network : Option String) :
    Except Fault (List String) :=
  match c.image with
  | none => .error (.unresolved name .noImage)
  | some image => .ok <|
    ["run", "--detach", "--name", name] ++
    repeated "--network" network.toList ++
    repeated "--publish" c.ports ++
    repeated "--volume" c.volumes ++
    repeated "--link" c.links ++
    repeated "--env" (c.environment.entries.map fun e => e.1 ++ "=" ++ e.2) ++
    repeated "--restart" c.restart.toList ++
    image :: (c.command.map Text.words).getD []

/-! ## What it answers -/

/-- the exit code that is printed for a container -/
def readExitCode (name text : String) : Except Fault Int :=
  match Text.readInt64? (Text.trim text) with
  | some code => .ok code
  | none => .error (.tool .docker s!"unexpected exit status '{Text.trim text}' for {name}")

/-- reference and id, with a tab between them -/
def readImage (line : List Char) : Option ImageRecord :=
  (Text.cut? '\t' line).map fun (reference, id) => ⟨String.ofList reference, String.ofList id⟩

def readImages (listing : String) : List ImageRecord := (Text.lines listing).filterMap readImage

/-- name, image and status, with tabs between them; the status may hold more -/
def readContainer (line : List Char) : Option ContainerRecord :=
  (Text.cut? '\t' line).bind fun (name, rest) =>
    (Text.cut? '\t' rest).map fun (image, status) =>
      ⟨String.ofList name, String.ofList image, String.ofList status⟩

def readContainers (listing : String) : List ContainerRecord :=
  (Text.lines listing).filterMap readContainer

/-- something other than blanks was printed -/
def isListed (listing : String) : Bool := !Text.isAllBlank listing

/-! ## Calls -/

/-- a call that is made for its success alone -/
def silent (d : Docker) (args : List String) : Program Fault Unit :=
  (Program.captured (d.command args)).bind fun _ => .done ()

def pull (d : Docker) (image : String) : Program Fault Unit :=
  Program.streamed (d.command ["pull", image])

def imageExists (d : Docker) (image : String) : Program Fault Bool :=
  (Program.captured (d.command ["images", "--quiet", image])).bind fun listing =>
    .done (isListed listing)

def build (d : Docker) (context dockerfile tag : String) : Program Fault Unit :=
  Program.streamed
    { d.command ["build", "--file", dockerfile, "--tag", tag, "."] with directory := some context }

/-- start a container, for its id -/
def start (d : Docker) (name : String) (c : Container) (network : Option String) :
    Program Fault String :=
  (Dialogue.ofExcept (runArguments name c network)).bind fun args =>
    (Program.captured (d.command args)).bind fun id => .done (Text.trim id)

/-- follow a container's output to its end, for its exit code -/
def wait (d : Docker) (name : String) : Program Fault Int :=
  (Program.streamed (d.command ["logs", "--follow", name])).bind fun _ =>
    (Program.captured (d.command ["wait", name])).bind fun code => .ofExcept (readExitCode name code)

def stop (d : Docker) (name : String) : Program Fault Unit := d.silent ["stop", name]

def remove (d : Docker) (name : String) : Program Fault Unit := d.silent ["rm", "--volumes", name]

/-- create a network unless it is there -/
def createNetwork (d : Docker) (name : String) : Program Fault Unit :=
  (Program.captured (d.command
    ["network", "ls", "--quiet", "--filter", "name=^" ++ name ++ "$"])).bind fun listing =>
      if isListed listing then .done () else d.silent ["network", "create", name]

def removeNetwork (d : Docker) (name : String) : Program Fault Unit :=
  d.silent ["network", "rm", name]

def push (d : Docker) (image : String) : Program Fault Unit :=
  Program.streamed (d.command ["push", image])

def tag (d : Docker) (source target : String) : Program Fault Unit := d.silent ["tag", source, target]

/-- a field of a listing's template -/
def field (name : String) : String := "\x7b\x7b." ++ name ++ "\x7d\x7d"

def imageTemplate : String := field "Repository" ++ ":" ++ field "Tag" ++ "\t" ++ field "ID"

def containerTemplate : String := field "Names" ++ "\t" ++ field "Image" ++ "\t" ++ field "Status"

def listImages (d : Docker) : Program Fault (List ImageRecord) :=
  (Program.captured (d.command ["images", "--format", imageTemplate])).bind fun listing =>
    .done (readImages listing)

def listContainers (d : Docker) : Program Fault (List ContainerRecord) :=
  (Program.captured (d.command ["ps", "--all", "--format", containerTemplate])).bind fun listing =>
    .done (readContainers listing)

/-- remove dangling images, then unused volumes -/
def prune (d : Docker) : Program Fault Unit :=
  (d.silent ["image", "prune", "--force"]).bind fun _ => d.silent ["volume", "prune", "--force"]

/-- log in to a registry; the password is read and not an argument -/
def login (d : Docker) (registry username password : String) : Program Fault Unit :=
  (Program.captured
    { d.command ["login", "--username", username, "--password-stdin", registry] with
      input := some password }).bind fun _ => .done ()

end Docker

end Fleet
