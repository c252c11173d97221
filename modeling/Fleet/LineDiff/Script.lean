/-
Edit scripts between two texts, line by line.

A script is a list of blocks of lines that stay, go or come; `oldLines` and `newLines` are the two texts it
stands between. Lines keep their ends, so a last line without one differs from the same line with one.
-/

namespace Fleet.LineDiff

/-- the lines of a text with their ends, which are LF, CR LF or CR; `line` is the one being read, in
reverse -/
def linesFrom (line : List Char) : List Char → List (List Char)
  | [] => if line.isEmpty then [] else [line.reverse]
  | '\r' :: '\n' :: rest => ('\n' :: '\r' :: line).reverse :: linesFrom [] rest
  | c :: rest =>
    if c = '\n' || c = '\r' then (c :: line).reverse :: linesFrom [] rest
    else linesFrom (c :: line) rest

def lines (text : String) : List String := (linesFrom [] text.toList).map String.ofList

inductive Kind where
  | same | removed | added
  deriving DecidableEq, Repr

/-- lines that change alike. `oldAt` and `newAt` are the places recorded for the block, from which headers
are made; a block that has been moved past another keeps its record of the other text -/
structure Block where
  kind : Kind
  lines : List String
  oldAt : Nat
  newAt : Nat

namespace Block

def size (b : Block) : Nat := b.lines.length

/-- lines of the old text -/
def oldLines (b : Block) : List String := if b.kind = .added then [] else b.lines

/-- lines of the new text -/
def newLines (b : Block) : List String := if b.kind = .removed then [] else b.lines

def oldEnd (b : Block) : Nat := b.oldAt + b.oldLines.length

def newEnd (b : Block) : Nat := b.newAt + b.newLines.length

end Block

def oldLines (script : List Block) : List String := script.flatMap Block.oldLines

def newLines (script : List Block) : List String := script.flatMap Block.newLines

/-- how many lines of one kind a script has -/
def countLines (kind : Kind) : List Block → Nat
  | [] => 0
  | b :: rest => (if b.kind = kind then b.size else 0) + countLines kind rest

/-- how many lines a script adds -/
def additions (script : List Block) : Nat := countLines .added script

/-- how many lines a script removes -/
def deletions (script : List Block) : Nat := countLines .removed script

/-- the longest common start of two lists -/
def commonStart : List String → List String → List String
  | a :: as, b :: bs => if a = b then a :: commonStart as bs else []
  | _, _ => []

/-- the longest common end of two lists -/
def commonEnd (as bs : List String) : List String := (commonStart as.reverse bs.reverse).reverse

end Fleet.LineDiff
