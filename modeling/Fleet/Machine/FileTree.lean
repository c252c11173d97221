/-
A tree of files and directories.

A location is the list of names from the root. Resolving a path walks its components: every step needs the
place reached so far to be a directory, and `..` goes back to the parent. What an access is refused for is
decided by the first step that fails.

Making and removing a directory walk to its parent and act on the last component, which has to be a name: what
`.` or `..` stands for is neither made nor removed.
-/
import Fleet.Fault
import Fleet.Path

namespace Fleet.Machine

abbrev Location := List String

inductive Entry where
  | file (content : ByteArray)
  | directory

/-- what stands at each location but the root, which is a directory -/
structure FileTree where
  entries : List (Location × Entry) := []

namespace FileTree

def get? (t : FileTree) (l : Location) : Option Entry :=
  if l = [] then some .directory else t.entries.lookup l

def put (t : FileTree) (l : Location) (e : Entry) : FileTree :=
  ⟨(l, e) :: t.entries.filter (fun x => x.1 ≠ l)⟩

/-- take away a location and everything below it -/
def remove (t : FileTree) (l : Location) : FileTree :=
  ⟨t.entries.filter (fun x => !l.isPrefixOf x.1)⟩

/-- take away everything below a location -/
def clear (t : FileTree) (l : Location) : FileTree :=
  ⟨t.entries.filter (fun x => x.1 = l || !l.isPrefixOf x.1)⟩

/-- there is a directory to walk on from -/
def checkDirectory (t : FileTree) (l : Location) : Except FileCause Unit :=
  match t.get? l with
  | some .directory => .ok ()
  | some (.file _) => .error .notDirectory
  | none => .error .notFound

/-- the octets that a name may have -/
def nameLimit : Nat := 255

/-- the octets that a path may have -/
def pathLimit : Nat := 4095

/-- walk on from a location; an empty name stays where it is, like `.` -/
def walk (t : FileTree) (l : Location) : List String → Except FileCause Location
  | [] => .ok l
  | name :: rest =>
    match t.checkDirectory l with
    | .error e => .error e
    | .ok () =>
      if name = "" || name = "." then walk t l rest
      else if name = ".." then walk t l.dropLast rest
      else if nameLimit < name.utf8ByteSize then .error .nameTooLong
      else walk t (l ++ [name]) rest

/-- the steps of a path; separators at its end ask for a directory -/
def steps (path : String) : List String := (Path.splitFrom '/' [] path.toList).map String.ofList

/-- where the walk along a path starts; some texts are no path at all -/
def origin (base : Location) (path : String) : Except FileCause Location :=
  if path.toList.contains '\x00' then .error .nulInPath
  else if path = "" then .error .notFound
  else if pathLimit < path.utf8ByteSize then .error .nameTooLong
  else .ok (if Path.isAbsolute path then [] else base)

/-- the location that a path names, seen from a directory -/
def resolve (t : FileTree) (base : Location) (path : String) : Except FileCause Location :=
  match origin base path with
  | .error e => .error e
  | .ok start => t.walk start (steps path)

def isPresent (t : FileTree) (base : Location) (path : String) : Bool :=
  match t.resolve base path with
  | .ok l => (t.get? l).isSome
  | .error _ => false

def readOctets (t : FileTree) (base : Location) (path : String) : Except FileCause ByteArray :=
  match t.resolve base path with
  | .error e => .error e
  | .ok l => match t.get? l with
    | some (.file content) => .ok content
    | some .directory => .error .isDirectory
    | none => .error .notFound

def write (t : FileTree) (base : Location) (path : String) (content : ByteArray) :
    Except FileCause Unit × FileTree :=
  match t.resolve base path with
  | .error e => (.error e, t)
  | .ok l => match t.get? l with
    | some .directory => (.error .isDirectory, t)
    | some (.file _) => (.ok (), t.put l (.file content))
    | none =>
      match t.checkDirectory l.dropLast with
      | .error e => (.error e, t)
      | .ok () => (.ok (), t.put l (.file content))

/-! ## Directories -/

/-- a path names a directory -/
def isDirectory (t : FileTree) (base : Location) (path : String) : Bool :=
  match t.resolve base path with
  | .ok l => (t.checkDirectory l).isOk
  | .error _ => false

/-- what the last component of a path is, separators at its end aside -/
inductive LastStep where
  /-- there is none: the path is the root -/
  | root
  | here
  | above
  | name (l : Location)

/-- walk up to the last component of a path -/
def lastStep (t : FileTree) (base : Location) (path : String) : Except FileCause LastStep :=
  match origin base path with
  | .error e => .error e
  | .ok start =>
    match ((steps path).filter (· ≠ "")).reverse with
    | [] => .ok .root
    | ["."] => .ok .here
    | [".."] => .ok .above
    | last :: before =>
      match t.walk start (before.reverse ++ [""]) with
      | .error e => .error e
      | .ok parent =>
        if last = "." then .ok .here
        else if last = ".." then .ok .above
        else if nameLimit < last.utf8ByteSize then .error .nameTooLong
        else .ok (.name (parent ++ [last]))

/-- make one directory -/
def makeDirectory (t : FileTree) (base : Location) (path : String) :
    Except FileCause Unit × FileTree :=
  match t.lastStep base path with
  | .error e => (.error e, t)
  | .ok (.name l) =>
    if (t.get? l).isSome then (.error .alreadyExists, t) else (.ok (), t.put l .directory)
  | .ok _ => (.error .alreadyExists, t)

/-- make one directory, unless it is there -/
def ensureDirectory (t : FileTree) (base : Location) (path : String) :
    Except FileCause Unit × FileTree :=
  match t.makeDirectory base path with
  | (.ok (), made) => (.ok (), made)
  | (.error e, _) => if t.isDirectory base path then (.ok (), t) else (.error e, t)

/-- make a directory whose ancestors are given; they are made only if the way to it is missing -/
def makeBelow (t : FileTree) (base : Location) (path : String) :
    List String → Except FileCause Unit × FileTree
  | [] => t.ensureDirectory base path
  | parent :: above =>
    match t.ensureDirectory base path with
    | (.error .notFound, t) =>
      match t.makeBelow base parent above with
      | (.ok (), t) => t.ensureDirectory base path
      | refused => refused
    | done => done

/-- make a directory and those above it, where they are missing -/
def makeDirectories (t : FileTree) (base : Location) (path : String) :
    Except FileCause Unit × FileTree :=
  if path = "" then (.ok (), t) else t.makeBelow base path (Path.ancestors path)

/-- remove an empty directory; one that is gone already is no refusal -/
def removeEmpty (t : FileTree) (base : Location) (path : String) : Except FileCause Unit × FileTree :=
  match t.lastStep base path with
  | .error .notFound => (.ok (), t)
  | .error e => (.error e, t)
  | .ok .root => (.error .busy, t)
  | .ok .here => (.error .invalidArgument, t)
  | .ok .above => (.error .notEmpty, t)
  | .ok (.name l) => (.ok (), t.remove l)

/-- remove a directory and everything in it. The contents go first, and the path may lead through them -/
def removeDirectory (t : FileTree) (base : Location) (path : String) :
    Except FileCause Unit × FileTree :=
  match t.resolve base path with
  | .error e => (.error e, t)
  | .ok l => match t.checkDirectory l with
    | .error e => (.error e, t)
    | .ok () => (t.clear l).removeEmpty base path

end FileTree

end Fleet.Machine
