/-
The unified form of an edit script.

Changes are shown with three lines of what surrounds them. More than six unchanged lines between two changes
separate them into hunks, each under a header with its place and extent in both texts.
-/
import Fleet.LineDiff.Tidy

namespace Fleet.LineDiff

/-- how many unchanged lines are shown around a change -/
def context : Nat := 3

/-- the last `n` lines of an unchanged block -/
def Block.lastLines (b : Block) (n : Nat) : Block :=
  let skip := b.size - n
  { b with lines := b.lines.drop skip, oldAt := b.oldAt + skip, newAt := b.newAt + skip }

def Block.firstLines (b : Block) (n : Nat) : Block := { b with lines := b.lines.take n }

/-- only the last lines of context before the first change -/
def trimFirst : List Block → List Block
  | b :: rest => (if b.kind = .same then b.lastLines context else b) :: rest
  | [] => []

/-- only the first lines of context after the last change -/
def trimLast : List Block → List Block
  | [] => []
  | [b] => [if b.kind = .same then b.firstLines context else b]
  | b :: c :: rest => b :: trimLast (c :: rest)

/-- a hunk that holds a change -/
def isHunk (h : List Block) : Bool :=
  match h with
  | [] => false
  | [b] => b.kind ≠ .same
  | _ => true

/-- the hunks of a trimmed script; `hunk` is the one being gathered, in reverse -/
def hunksFrom (hunk : List Block) : List Block → List (List Block)
  | [] => if isHunk hunk then [hunk.reverse] else []
  | b :: rest =>
    if b.kind = .same && 2 * context < b.size then
      (b.firstLines context :: hunk).reverse :: hunksFrom [b.lastLines context] rest
    else hunksFrom (b :: hunk) rest

def hunks (script : List Block) : List (List Block) := hunksFrom [] (trimLast (trimFirst script))

/-- a stretch of lines: the first line's number, and the count unless it is one; the line before, for
none -/
def extent (start stop : Nat) : String :=
  let n := stop - start
  if n = 1 then toString (start + 1)
  else if n = 0 then s!"{start},0"
  else s!"{start + 1},{n}"

def header (h : List Block) : String :=
  match h.head?, h.getLast? with
  | some first, some last =>
    s!"@@ -{extent first.oldAt last.oldEnd} +{extent first.newAt last.newEnd} @@\n"
  | _, _ => ""

def sign : Kind → String
  | .same => " "
  | .removed => "-"
  | .added => "+"

/-- the line has its end -/
def isEnded (line : String) : Bool :=
  line.toList.getLast? = some '\n' || line.toList.getLast? = some '\r'

/-- a line behind its sign; a line without an end is pointed out -/
def signed (k : Kind) (line : String) : String :=
  sign k ++ line ++ (if isEnded line then "" else "\n\\ No newline at end of file\n")

def hunkText (h : List Block) : String :=
  header h ++ String.join (h.flatMap fun b => b.lines.map (signed b.kind))

/-- the unified form, under the names of both texts -/
def unified (oldName newName : String) (script : List Block) : String :=
  match hunks script with
  | [] => ""
  | hs => s!"--- {oldName}\n+++ {newName}\n" ++ String.join (hs.map hunkText)

/-- the tidied script between two texts -/
def between (old new : String) : List Block := tidy (search (lines old) (lines new))

end Fleet.LineDiff
