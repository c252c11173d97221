/-
Reading the arguments of one command level.

A level knows options and, if any, the commands that may follow. An option's value is checked only when the
next option is met or the level ends, so an argument that nobody knows is reported before a bad value that
stands in front of it. Variables of the environment stand in for options that are not given.
-/
import Fleet.SortedMap
import Fleet.Text.Lines

namespace Fleet.CommandLine

/-- why arguments are not accepted, or not carried out -/
inductive Refusal where
  | helpAsked
  | versionAsked
  /-- nothing at all was asked for -/
  | nothingAsked
  | noCommand
  | unknownCommand
  | badValue
  | badNumber
  | unknownArgument
  | repeated
  /-- a flag was given a value -/
  | needlessValue
  deriving DecidableEq, Repr

/-- what an option is good for -/
inductive Kind where
  | flag
  /-- a value; one that is refused says why -/
  | value (check : String → Option Refusal)

structure Opt where
  name : String
  kind : Kind
  short : Option Char := none
  /-- the variable that stands in for the option -/
  variableName : Option String := none

/-- what may be said at one level -/
structure Level where
  opts : List Opt
  commands : List String := []
  showsVersion : Bool := false

/-- options by name with their values; flags have an empty one -/
abbrev Given := SortedMap String

/-- the state of reading: what is settled, and the last option if its value has not been looked at -/
structure Reading where
  given : Given := .empty
  pending : Option (Opt × Option String) := none

namespace Level

def named? (l : Level) (name : String) : Option Opt := l.opts.find? fun o => o.name = name

def lettered? (l : Level) (c : Char) : Option Opt := l.opts.find? fun o => o.short = some c

end Level

namespace Reading

/-- put down an option; it may be given only once -/
def add (r : Reading) (o : Opt) (v : String) : Except Refusal Reading :=
  if r.given.contains o.name then .error .repeated
  else
    match o.kind with
    | .flag => .ok { r with given := r.given.insert o.name v }
    | .value check => match check v with
      | some refusal => .error refusal
      | none => .ok { r with given := r.given.insert o.name v }

/-- look at the value of the last option -/
def settle (r : Reading) : Except Refusal Reading :=
  match r.pending with
  | none => .ok r
  | some (_, none) => .error .badValue
  | some (o, some v) => { r with pending := none }.add o v

/-- the last option still needs its value -/
def isWaiting (r : Reading) : Bool :=
  match r.pending with
  | some (_, none) => true
  | _ => false

/-- settle what came before, then refuse -/
def refuse (r : Reading) (refusal : Refusal) : Except Refusal Reading :=
  match r.settle with
  | .ok _ => .error refusal
  | .error e => .error e

/-- settle what came before, then put down a flag -/
def addFlag (r : Reading) (o : Opt) : Except Refusal Reading :=
  match r.settle with
  | .ok r => r.add o ""
  | .error e => .error e

end Reading

/-! ## Options -/

/-- an option by its name, with what stands behind `=` -/
def readNamed (l : Level) (r : Reading) (name : String) (attached : Option String) :
    Except Refusal Reading :=
  let isHelp := name = "help" || (name = "version" && l.showsVersion)
  if isHelp then
    if attached.isSome then .error .needlessValue
    else r.refuse (if name = "help" then .helpAsked else .versionAsked)
  else match l.named? name with
    | none => .error .unknownArgument
    | some o =>
      match o.kind, attached with
      | .flag, some _ => .error .needlessValue
      | .flag, none => r.addFlag o
      | .value _, some v =>
        match r.settle with
        | .ok r => r.add o v
        | .error e => .error e
      | .value _, none =>
        match r.settle with
        | .ok r => .ok { r with pending := some (o, none) }
        | .error e => .error e

/-- options by their letters; none of them takes a value -/
def readLetters (l : Level) (r : Reading) : List Char → Except Refusal Reading
  | [] => .ok r
  | c :: rest =>
    if c = 'h' then r.refuse .helpAsked
    else if c = 'V' && l.showsVersion then r.refuse .versionAsked
    else match l.lettered? c with
      | none => .error .unknownArgument
      | some o => match r.addFlag o with
        | .ok r => readLetters l r rest
        | .error e => .error e

/-! ## Levels -/

/-- why an argument that is neither option nor value is refused; behind `--` commands are no commands -/
def strayRefusal (l : Level) (behindDashes : Bool) (a : String) : Refusal :=
  if behindDashes && l.commands.contains a then .unknownArgument
  else if l.commands.isEmpty then .unknownArgument
  else .unknownCommand

/-- the name and the attached value of an option -/
def splitName (cs : List Char) : String × Option String :=
  match Text.cut? '=' cs with
  | some (name, v) => (String.ofList name, some (String.ofList v))
  | none => (String.ofList cs, none)

/-- what an argument looks like -/
inductive Shape where
  | dashes
  | named (name : String) (attached : Option String)
  | letters (cs : List Char)
  | word

def shapeOf (a : String) : Shape :=
  match a.toList with
  | ['-', '-'] => .dashes
  | '-' :: '-' :: cs => .named (splitName cs).1 (splitName cs).2
  | '-' :: c :: cs => .letters (c :: cs)
  | _ => .word

/-- read a level up to its end or up to a command, which is given with what follows it -/
def readLevel (l : Level) (r : Reading) :
    List String → Except Refusal (Reading × Option (String × List String))
  | [] => .ok (r, none)
  | a :: rest =>
    if !r.isWaiting && l.commands.contains a then .ok (r, some (a, rest))
    else match shapeOf a with
      | .dashes => match rest with
        | [] => .ok (r, none)
        | next :: _ => .error (strayRefusal l true next)
      | .named name attached => match readNamed l r name attached with
        | .ok r => readLevel l r rest
        | .error e => .error e
      | .letters cs => match readLetters l r cs with
        | .ok r => readLevel l r rest
        | .error e => .error e
      | .word => match r.pending with
        | some (o, none) => readLevel l { r with pending := some (o, some a) } rest
        | _ => .error (strayRefusal l false a)

/-! ## The environment -/

/-- the variables that stand in for options that are not given, checked in the order of the options -/
def fromEnvironment (environment : String → Option String) (given : Given) :
    List Opt → Except Refusal Given
  | [] => .ok .empty
  | o :: rest =>
    if given.contains o.name then fromEnvironment environment given rest
    else match o.variableName.bind environment with
      | none => fromEnvironment environment given rest
      | some v =>
        match o.kind with
        | .flag => fromEnvironment environment given rest
        | .value check => match check v with
          | some refusal => .error refusal
          | none => (fromEnvironment environment given rest).map fun m => m.insert o.name v

/-- what a level says by arguments, and what the environment says in their place -/
def finishLevel (environment : String → Option String) (l : Level) (r : Reading) :
    Except Refusal (Given × Given) :=
  match r.settle with
  | .error e => .error e
  | .ok r => (fromEnvironment environment r.given l.opts).map fun m => (r.given, m)

end Fleet.CommandLine
