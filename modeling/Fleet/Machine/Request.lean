/-
What the library asks of the machine it runs on.

`Request` is the vocabulary and `Request.Answer` says what each question is answered by. Dialogues over it
are all of the library's traffic with files, processes and the terminal.
-/
import Fleet.Dialogue
import Fleet.Fault
import Fleet.Path

namespace Fleet.Machine

/-- a process to be started -/
structure Command where
  tool : Tool
  /-- where the program was found -/
  program : String
  args : List String
  /-- the directory to run in, unless it is the present one -/
  directory : Option String := none
  /-- what the process reads, if anything -/
  input : Option String := none

/-- what a process leaves behind -/
structure Finished where
  code : Int
  stdout : ByteArray
  stderr : ByteArray

inductive Request where
  | readFile (path : String)
  | isPresent (path : String)
  | writeFile (path text : String)
  | makeDirectories (path : String)
  | removeDirectory (path : String)
  /-- where a program is found -/
  | locate (program : String)
  /-- start a process and wait for its end -/
  | execute (command : Command)
  /-- whether the user has interrupted the run -/
  | interrupted
  /-- wait until the user interrupts the run -/
  | awaitInterrupt
  /-- a yes-or-no question at the terminal -/
  | confirm (prompt : String)
  | print (text : String)
  | note (line : String)
  /-- seconds since the start, as they are printed -/
  | elapsed
  /-- which of several that are ready goes on -/
  | turn (ready : Nat)

abbrev Request.Answer : Request → Type
  | .readFile _ => Except FileCause String
  | .isPresent _ => Bool
  | .writeFile _ _ | .makeDirectories _ | .removeDirectory _ => Except FileCause Unit
  | .locate _ => Option String
  | .execute _ => Except FileCause Finished
  | .interrupted => Bool
  | .awaitInterrupt | .print _ | .note _ => Unit
  | .confirm _ => Except String Bool
  | .elapsed => String
  | .turn _ => Nat

/-- a dialogue with the machine -/
abbrev Program (ε α : Type) := Dialogue Request Request.Answer ε α

namespace Program

variable {α : Type}

def request {ε : Type} (r : Request) : Program ε r.Answer := Dialogue.request r

/-- a file access, its refusal reported with the path -/
def orFault (path : String) : Except FileCause α → Program Fault α
  | .ok a => .done a
  | .error e => .fail (.file path e)

def readFile (path : String) : Program Fault String :=
  (request (.readFile path)).bind (orFault path)

def writeFile (path text : String) : Program Fault Unit :=
  (request (.writeFile path text)).bind (orFault path)

def makeDirectories (path : String) : Program Fault Unit :=
  (request (.makeDirectories path)).bind (orFault path)

def removeDirectory (path : String) : Program Fault Unit :=
  (request (.removeDirectory path)).bind (orFault path)

end Program

end Fleet.Machine
