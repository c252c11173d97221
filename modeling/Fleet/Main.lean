/-
The program on a real machine.

Files are read and written; processes cannot be started from here, so every tool is reported as not found.
Everything that is decided is decided in the library.
-/
import Fleet.CommandLine.Commands

namespace Fleet.Outer

open Machine

/-- why the system refused an access -/
def causeOf : IO.Error → FileCause
  | .noFileOrDirectory _ _ _ => .notFound
  | .inappropriateType _ code _ => if code = 21 then .isDirectory else .notDirectory
  | .alreadyExists _ _ _ => .alreadyExists
  | .permissionDenied _ _ _ => .denied
  | .unsatisfiedConstraints _ _ => .notEmpty
  | .resourceBusy _ _ => .busy
  | .invalidArgument _ code _ => if code = 36 then .nameTooLong else .invalidArgument
  | _ => .notFound

/-- an access to files, with its refusal as a result -/
def access {α : Type} (act : IO α) : IO (Except FileCause α) := do
  try
    return .ok (← act)
  catch e => return .error (causeOf e)

def readText (path : String) : IO (Except FileCause String) := do
  match ← access (IO.FS.readBinFile path) with
  | .error e => return .error e
  | .ok bytes => match Text.ofOctets? bytes with
    | some text => return .ok text
    | none => return .error .notText

def isPresent (path : String) : IO Bool := do
  match ← access (IO.FS.realPath path) with
  | .ok _ => return true
  | .error _ => return false

/-- a time in tenths of a second -/
def secondsText (milliseconds : Nat) : String :=
  let tenths := (milliseconds + 50) / 100
  s!"{tenths / 10}.{tenths % 10}s"

def answer (start : Nat) : (q : Request) → IO q.Answer
  | .readFile path => readText path
  | .isPresent path => isPresent path
  | .writeFile path text => access (IO.FS.writeFile path text)
  | .makeDirectories path => access (IO.FS.createDirAll path)
  | .removeDirectory path => access (IO.FS.removeDirAll path)
  | .locate _ => return none
  | .execute _ => return .error .notFound
  | .interrupted => return false
  | .awaitInterrupt => return ()
  | .confirm _ => return .error "IO error: not a terminal"
  | .print text => IO.print text
  | .note line => IO.eprintln line
  | .elapsed => return secondsText ((← IO.monoMsNow) - start)
  | .turn _ => return (0 : Nat)

/-- one variable: a name and a value with `=` between them -/
def readVariable (octets : List UInt8) : Option (String × String) :=
  (Text.ofOctets? ⟨octets.toArray⟩).bind fun text =>
    (Text.cut? '=' text.toList).map fun (name, value) => (String.ofList name, String.ofList value)

/-- the parts of a list between zeros; `part` is in reverse -/
def splitAtZero (part : List UInt8) : List UInt8 → List (List UInt8)
  | [] => [part.reverse]
  | b :: rest => if b = 0 then part.reverse :: splitAtZero [] rest else splitAtZero (b :: part) rest

/-- the variables that the program was started with -/
def readEnvironment : IO (SortedMap String) := do
  match ← access (IO.FS.readBinFile "/proc/self/environ") with
  | .ok bytes => return .ofList ((splitAtZero [] bytes.toList).filterMap readVariable)
  | .error _ => return .empty

def usage : String :=
  "Usage: stratus [OPTIONS] <" ++ Text.join "|" CommandLine.commandNames ++ "> [OPTIONS]"

/-- show the usage, as help or as a complaint -/
def refuse (r : CommandLine.Refusal) : IO UInt32 := do
  if r = .helpAsked || r = .versionAsked then
    IO.println usage
    return 0
  else
    IO.eprintln usage
    return 2

end Fleet.Outer

open Fleet in
def main (args : List String) : IO UInt32 := do
  let environment := (← Outer.readEnvironment).get?
  match CommandLine.Invocation.read environment args with
  | .error r => Outer.refuse r
  | .ok i =>
    match ← (i.perform environment).runIn (Outer.answer (← IO.monoMsNow)) with
    | .ok () => return 0
    | .error f =>
      IO.eprintln ("Error: " ++ f.message)
      return 1
