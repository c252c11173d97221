/-
Tidying an edit script: blocks are moved together.

A block of added lines that ends like the lines before it can slide up over them, and down over lines that
start like it; on its way it joins others of its kind. Every move keeps the two texts of the script.
-/
import Fleet.LineDiff.Search

namespace Fleet.LineDiff

/-- a block in its place: what stands before it, nearest first, and after it -/
structure Spot where
  before : List Block
  this : Block
  after : List Block

namespace Spot

def shift (b : Block) (lines : List String) (f : Nat → Nat) : Block :=
  { b with lines, oldAt := f b.oldAt, newAt := f b.newAt }

/-- lines of a block of added lines that also end the unchanged block before it -/
def slideUp (prev this : Block) : List String :=
  if this.kind = .added then commonEnd prev.lines this.lines else []

/-- lines of a block of added lines that also start the unchanged block behind it -/
def slideDown (this next : Block) : List String :=
  if this.kind = .added then commonStart next.lines this.lines else []

/-- put unchanged lines in front of what follows -/
def growAfter (s : List String) (oldAt newAt : Nat) : List Block → List Block
  | b :: rest =>
    if b.kind = .same then ⟨.same, s ++ b.lines, b.oldAt - s.length, b.newAt - s.length⟩ :: rest
    else ⟨.same, s, oldAt, newAt⟩ :: b :: rest
  | [] => [⟨.same, s, oldAt, newAt⟩]

/-- put unchanged lines behind what comes before -/
def growBefore (s : List String) (oldAt newAt : Nat) : List Block → List Block
  | b :: rest =>
    if b.kind = .same then { b with lines := b.lines ++ s } :: rest
    else ⟨.same, s, oldAt, newAt⟩ :: b :: rest
  | [] => [⟨.same, s, oldAt, newAt⟩]

/-- one move up; none where the block has to stay -/
def up? (p : Spot) : Option Spot :=
  match p.before with
  | [] => none
  | prev :: before =>
    if prev.kind = .same then
      let s := slideUp prev p.this
      let n := s.length
      if 0 < n then
        let kept := p.this.lines.take (p.this.size - n)
        let this := shift p.this (s ++ kept) (· - n)
        let prevLines := prev.lines.take (prev.size - n)
        let after := growAfter s (prev.oldEnd - n) (p.this.newEnd - n) p.after
        some ⟨if prevLines.isEmpty then before else { prev with lines := prevLines } :: before, this, after⟩
      else if prev.lines.isEmpty then some { p with before }
      else none
    else if prev.kind = p.this.kind then
      some ⟨before, { prev with lines := prev.lines ++ p.this.lines }, p.after⟩
    else some ⟨before, p.this, prev :: p.after⟩

/-- one move down; none where the block has to stay -/
def down? (p : Spot) : Option Spot :=
  match p.after with
  | [] => none
  | next :: after =>
    if next.kind = .same then
      let s := slideDown p.this next
      let n := s.length
      if 0 < n then
        let kept := p.this.lines.drop n
        let this := shift p.this (kept ++ s) (· + n)
        let nextLines := next.lines.drop n
        let before := growBefore s next.oldAt p.this.newAt p.before
        some ⟨before, this, if nextLines.isEmpty then after else shift next nextLines (· + n) :: after⟩
      else if next.lines.isEmpty then some { p with after }
      else none
    else if next.kind = p.this.kind then
      some { p with this := { p.this with lines := p.this.lines ++ next.lines }, after }
    else some ⟨next :: p.before, p.this, after⟩

/-- move as far as it goes -/
def moveAll (move : Spot → Option Spot) : Nat → Spot → Spot
  | 0, p => p
  | fuel + 1, p =>
    match move p with
    | none => p
    | some q => moveAll move fuel q

end Spot

/-- lines and blocks, a bound for the moves over a script -/
def weight : List Block → Nat
  | [] => 0
  | b :: rest => b.size + 1 + weight rest

/-- move every block of one kind up and then down, from left to right -/
def settle (kind : Kind) : Nat → List Block → List Block → List Block
  | 0, before, rest => before.reverse ++ rest
  | _ + 1, before, [] => before.reverse
  | fuel + 1, before, b :: rest =>
    if b.kind = kind then
      let bound := weight before + weight rest + 1
      let p := Spot.moveAll Spot.down? bound (Spot.moveAll Spot.up? bound ⟨before, b, rest⟩)
      settle kind fuel (p.this :: p.before) p.after
    else settle kind fuel (b :: before) rest

/-- join neighbours of one kind; of removed and added lines that meet, the removed ones come first -/
def joinBlocks : List Block → List Block
  | [] => []
  | b :: rest =>
    match joinBlocks rest with
    | [] => [b]
    | c :: more =>
      if b.kind = c.kind then { b with lines := b.lines ++ c.lines } :: more
      else if b.kind = .added && c.kind = .removed then
        match more with
        | d :: even =>
          if d.kind = .added then c :: { b with lines := b.lines ++ d.lines } :: even
          else c :: b :: more
        | [] => [c, b]
      else b :: c :: more

/-- lines that replace others stand where those stood -/
def align : List Block → List Block
  | [] => []
  | [b] => [b]
  | b :: c :: rest =>
    if b.kind = .removed && c.kind = .added then
      { b with newAt := c.newAt } :: { c with oldAt := b.oldEnd } :: align rest
    else b :: align (c :: rest)

def tidy (script : List Block) : List Block :=
  let fuel := (weight script + 1) * (weight script + 1)
  align (joinBlocks (settle .added fuel [] (settle .removed fuel [] script)))

end Fleet.LineDiff
