/-
Running the programs of other tools.

A captured run gives what the process printed, or fails with what it complained about. A streamed run is
one that is followed while it lasts: it fails with the last line of complaint, and it heeds an interrupt.
-/
import Fleet.Machine.Request
import Fleet.Text.Blank
import Fleet.Text.Octets

namespace Fleet.Machine.Program

/-- where the program of a tool is found -/
def locate (tool : Tool) (program : String) : Program Fault String :=
  (request (.locate program)).bind fun
    | some path => .done path
    | none => .fail (.tool tool s!"'{program}' not found on PATH")

/-- run a process to its end -/
def execute (c : Command) : Program Fault Finished :=
  (request (.execute c)).bind fun
    | .ok finished => .done finished
    | .error e => .fail (.tool c.tool s!"cannot start: {e.message}")

/-- what a finished process printed, if it succeeded -/
def outputOf (tool : Tool) (f : Finished) : Except Fault String :=
  if f.code = 0 then .ok (Text.ofOctetsLossy f.stdout)
  else .error (.tool tool (Text.trim (Text.ofOctetsLossy f.stderr)))

/-- run for the output -/
def captured (c : Command) : Program Fault String :=
  (execute c).bind fun f => .ofExcept (outputOf c.tool f)

/-- whether a finished process succeeded; if not, its last line of complaint is given -/
def successOf (tool : Tool) (f : Finished) : Except Fault Unit :=
  if f.code = 0 then .ok ()
  else
    let last := (Text.linesOfOctets f.stderr).getLast?.getD ""
    .error (.tool tool s!"exited with exit status: {f.code}: {last}")

/-- run to the end, interrupts or not -/
def uninterrupted (c : Command) : Program Fault Unit :=
  (execute c).bind fun f => .ofExcept (successOf c.tool f)

/-- run until the end or an interrupt -/
def streamed (c : Command) : Program Fault Unit :=
  (execute c).bind fun f =>
    (request .interrupted).bind fun stopped =>
      if stopped then .fail .cancelled else .ofExcept (successOf c.tool f)

end Fleet.Machine.Program
