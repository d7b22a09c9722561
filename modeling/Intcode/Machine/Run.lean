import Intcode.Machine.Step
import Intcode.Outcome

/-!
# Intcode/Machine/Run — many instructions

`execute` runs a machine for a budget of cycles, or until it writes a value, halts or fails.  The
other runs repeat slices of `sliceCycles`, so often as patience allows: to the next output, to the
end, or from a reset to the end.
-/

namespace Intcode.Machine

variable {σ : Type} [Source σ]

/-- Executes up to so many instructions, and records how that ended. -/
def cycles : Nat → Machine σ → Except Error Event × Machine σ
  | 0, m => (.ok .running, m)
  | n + 1, m =>
    match m.step with
    | (.ok .running, m) => cycles n m
    | (.ok (.output value), m) => (.ok (.output value), { m with state := .suspended })
    | (.ok .halted, m) => (.ok .halted, { m with state := .halted })
    | (.error e, m) => (.error e, { m with state := .faulted, fault := some e })

/-- Runs the machine for a budget of cycles.  A machine that has halted or failed only says so
again; if it has failed and nothing is written down of it, it says that. -/
def execute (budget : Nat) (m : Machine σ) : Except Error Event × Machine σ :=
  match m.state with
  | .halted => (.ok .halted, m)
  | .faulted => (.error (m.fault.getD .faultNotRecorded), m)
  | .ready | .running | .suspended => cycles budget { m with state := .running }

/-- The budget of one slice. -/
def sliceCycles : Nat := 65536

/-- Runs slice after slice to the next output: the value written, or none if the machine halts
first. -/
def nextOutput : Nat → Machine σ → Outcome (Option Word) × Machine σ
  | 0, m => (.unfinished, m)
  | patience + 1, m =>
    match m.execute sliceCycles with
    | (.ok .running, m) => nextOutput patience m
    | (.ok (.output value), m) => (.done (some value), m)
    | (.ok .halted, m) => (.done none, m)
    | (.error e, m) => (.failed e, m)

/-- Runs from output to output, so often as the second number says, and collects the values until
the machine halts. -/
def collect (patience : Nat) : Nat → Array Word → Machine σ → Outcome (Array Word) × Machine σ
  | 0, _, m => (.unfinished, m)
  | n + 1, outputs, m =>
    match m.nextOutput patience with
    | (.done (some value), m) => collect patience n (outputs.push value) m
    | (.done none, m) => (.done outputs, m)
    | (.failed e, m) => (.failed e, m)
    | (.unfinished, m) => (.unfinished, m)

/-- Runs until the machine halts: all the values written. -/
def runToHalt (patience : Nat) (m : Machine σ) : Outcome (Array Word) × Machine σ :=
  collect patience patience #[] m

/-- Starts over with these values to read, and runs until the machine halts. -/
def runToCompletion (patience : Nat) (m : Machine σ) (inputs : List Word) :
    Outcome (Array Word) × Machine σ :=
  (m.reset inputs).runToHalt patience

end Intcode.Machine
