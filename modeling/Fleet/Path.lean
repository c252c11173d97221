/-
Paths as text, with `/` between components.

A path is never normalised: joining keeps `.` and repeated separators. `Path.components` is the view in
which two spellings of one place agree (empty and `.` components do not count).
-/

namespace Fleet.Path

/-- `rel` seen from `dir`; an absolute `rel` stands alone -/
def join (dir rel : String) : String :=
  if rel.toList.head? = some '/' || dir.isEmpty then rel
  else if dir.toList.getLast? = some '/' then dir ++ rel
  else dir ++ "/" ++ rel

/-- the parts of a text between separators; `part` is the part being read, in reverse -/
def splitFrom (sep : Char) (part : List Char) : List Char → List (List Char)
  | [] => [part.reverse]
  | c :: rest =>
    if c = sep then part.reverse :: splitFrom sep [] rest else splitFrom sep (c :: part) rest

/-- the components that move: neither empty nor `.` -/
def components (path : String) : List String :=
  ((splitFrom '/' [] path.toList).filter (fun p => p != [] && p != ['.'])).map String.ofList

def isAbsolute (path : String) : Bool := path.toList.head? = some '/'

/-- the directories on the way to a path, nearest first, without the one that the way starts from -/
def ancestors (path : String) : List String :=
  let names := components path
  let lead := if isAbsolute path then "/" else ""
  ((List.range names.length).drop 1).reverse.map fun n => lead ++ "/".intercalate (names.take n)

/-- the last component, unless the path ends in `..` or has none -/
def baseName? (path : String) : Option String :=
  match (components path).getLast? with
  | some name => if name = ".." then none else some name
  | none => none

/-- a single name, which leads nowhere by itself -/
def isBare (path : String) : Bool :=
  let start := isAbsolute path || (splitFrom '/' [] path.toList).head? = some ['.']
  (components path).length + (if start then 1 else 0) ≤ 1

/-- the way that a path describes, without what does not move; an absolute path as it stands -/
def way (path : String) : String :=
  if isAbsolute path then path else "/".intercalate (components path)

/-- a relative path without one leading `./` -/
def withoutDotSlash (path : String) : String :=
  match path.toList with
  | '.' :: '/' :: rest => String.ofList rest
  | _ => path

end Fleet.Path
