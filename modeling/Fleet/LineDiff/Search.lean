/-
A shortest edit script, found from the middle.

Common lines at both ends are set aside. What is left is split where a search from the start meets a search
from the end, and both parts are treated alike. The searches keep, for each diagonal, the farthest
place reached; these records are shared by all splits. Whatever the split, the script stands between the two
texts: the search only decides how short it is.
-/
import Fleet.LineDiff.Script

namespace Fleet.LineDiff

/-- farthest places by diagonal; the diagonals run from `-size` to `size` -/
structure Reach where
  size : Nat
  places : Array Int

namespace Reach

def ofSize (size : Nat) : Reach := ⟨size, Array.replicate (2 * size + 1) 0⟩

def get (r : Reach) (k : Int) : Int := r.places.getD (k + r.size).toNat 0

def set (r : Reach) (k : Int) (x : Int) : Reach :=
  { r with places := r.places.setIfInBounds (k + r.size).toNat x }

end Reach

/-- how far equal lines run from two places -/
def runForward (old new : Array String) (x y : Nat) : Nat → Nat
  | 0 => 0
  | fuel + 1 =>
    match old[x]?, new[y]? with
    | some a, some b => if a = b then runForward old new (x + 1) (y + 1) fuel + 1 else 0
    | _, _ => 0

/-- how far equal lines run back from two places, counted from the ends -/
def runBackward (old new : Array String) (x y : Nat) : Nat → Nat
  | 0 => 0
  | fuel + 1 =>
    if x < old.size && y < new.size then
      if old[old.size - 1 - x]? = new[new.size - 1 - y]? then
        runBackward old new (x + 1) (y + 1) fuel + 1
      else 0
    else 0

/-- the place from which diagonal `k` goes on after `d` edits -/
def startOn (r : Reach) (d : Nat) (k : Int) : Int :=
  if k = -d || (k ≠ d && r.get (k - 1) < r.get (k + 1)) then r.get (k + 1) else r.get (k - 1) + 1

/-- go along diagonal `k` from `x`; equal lines cost nothing -/
def extend (run : Nat → Nat → Nat → Nat) (n m : Nat) (k x : Int) : Int :=
  let y := x - k
  if x < n && 0 ≤ y && y < m then x + run x.toNat y.toNat (n + m) else x

/-- the diagonals `d, d - 2, …, -d` -/
def diagonals (d : Nat) : List Int := (List.range (d + 1)).map fun (i : Nat) => (d : Int) - 2 * (i : Int)

/-- both searches' records -/
structure Searches where
  forward : Reach
  backward : Reach

/-- the forward search at `d` edits, up to the place where it meets the other one -/
def forwardStep (old new : Array String) (delta : Int) (d : Nat) (s : Searches) :
    List Int → Searches × Option (Int × Int)
  | [] => (s, none)
  | k :: rest =>
    let n := old.size
    let x0 := startOn s.forward d k
    let x := extend (runForward old new) n new.size k x0
    let s := { s with forward := s.forward.set k x }
    if delta % 2 ≠ 0 && (k - delta).natAbs + 1 ≤ d && n ≤ x + s.backward.get (-(k - delta)) then
      (s, some (x0, x0 - k))
    else forwardStep old new delta d s rest

/-- the backward search at `d` edits, up to the place where it meets the other one -/
def backwardStep (old new : Array String) (delta : Int) (d : Nat) (s : Searches) :
    List Int → Searches × Option (Int × Int)
  | [] => (s, none)
  | k :: rest =>
    let n := old.size
    let x := extend (runBackward old new) n new.size k (startOn s.backward d k)
    let s := { s with backward := s.backward.set k x }
    if delta % 2 = 0 && (k - delta).natAbs ≤ d && n ≤ x + s.forward.get (-(k - delta)) then
      (s, some (n - x, new.size - (x - k)))
    else backwardStep old new delta d s rest

/-- raise the number of edits until the searches meet -/
def meetFrom (old new : Array String) (delta : Int) (d : Nat) (s : Searches) :
    Nat → Searches × Option (Int × Int)
  | 0 => (s, none)
  | fuel + 1 =>
    match forwardStep old new delta d s (diagonals d) with
    | (s, some p) => (s, some p)
    | (s, none) =>
      match backwardStep old new delta d s (diagonals d) with
      | (s, some p) => (s, some p)
      | (s, none) => meetFrom old new delta (d + 1) s fuel

/-- more edits than two such texts need -/
def mostEdits (n m : Nat) : Nat := (n + m + 1) / 2 + 1

/-- where to split, in both texts -/
def middle (old new : List String) (s : Searches) : Searches × Option (Int × Int) :=
  let s := { forward := s.forward.set 1 0, backward := s.backward.set 1 0 }
  meetFrom old.toArray new.toArray ((old.length : Int) - new.length) 0 s
    (mostEdits old.length new.length)

/-- a block, unless it is empty -/
def block (kind : Kind) (lines : List String) (oldAt newAt : Nat) : List Block :=
  if lines.isEmpty then [] else [⟨kind, lines, oldAt, newAt⟩]

/-- the script between two stretches of lines that stand at these places -/
def conquer : Nat → Nat → Nat → List String → List String → Searches → List Block × Searches
  | 0, oldAt, newAt, old, new, s =>
    (block .removed old oldAt newAt ++ block .added new oldAt newAt, s)
  | fuel + 1, oldAt, newAt, old, new, s =>
    let head := commonStart old new
    let old' := old.drop head.length
    let new' := new.drop head.length
    let tail := commonEnd old' new'
    let oldMid := old'.take (old'.length - tail.length)
    let newMid := new'.take (new'.length - tail.length)
    let i := oldAt + head.length
    let j := newAt + head.length
    let (mid, s) :=
      if newMid.isEmpty then (block .removed oldMid i j, s)
      else if oldMid.isEmpty then (block .added newMid i j, s)
      else match middle oldMid newMid s with
        | (s, some (x, y)) =>
          let (left, s) := conquer fuel i j (oldMid.take x.toNat) (newMid.take y.toNat) s
          let (right, s) := conquer fuel (i + x.toNat) (j + y.toNat) (oldMid.drop x.toNat)
            (newMid.drop y.toNat) s
          (left ++ right, s)
        | (s, none) => (block .removed oldMid i j ++ block .added newMid i j, s)
    (block .same head oldAt newAt ++ mid ++
      block .same tail (i + oldMid.length) (j + newMid.length), s)

/-- the script between two texts, before it is tidied -/
def search (old new : List String) : List Block :=
  let reach := Reach.ofSize (mostEdits old.length new.length + 1)
  (conquer (old.length + new.length + 1) 0 0 old new ⟨reach, reach⟩).1

end Fleet.LineDiff
