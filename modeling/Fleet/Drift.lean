/-
Drift: how freshly generated infrastructure files differ from those that were there before.
-/
import Fleet.Digest
import Fleet.LineDiff.Unified

namespace Fleet

inductive Drift where
  | noPrior
  | unchanged (digest : String)
  | changed (diff : String) (additions deletions : Nat)
  deriving DecidableEq, Repr

namespace Drift

/-- texts of one digest count as unchanged -/
def compare (previous : Option String) (generated : String) : Drift :=
  match previous with
  | none => .noPrior
  | some previous =>
    let before := Digest.ofText previous
    if before = Digest.ofText generated then .unchanged before
    else
      let script := LineDiff.between previous generated
      .changed (LineDiff.unified "previous" "generated" script) (LineDiff.additions script)
        (LineDiff.deletions script)

def summary? : Drift → Option String
  | .changed _ additions deletions => some s!"+{additions}, -{deletions}"
  | .noPrior | .unchanged _ => none

end Drift

end Fleet
