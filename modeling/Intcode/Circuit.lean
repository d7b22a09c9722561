import Intcode.Machine.Run

/-!
# Intcode/Circuit — machines in a row, each writing to the next

The stages of a circuit run one program, each told apart from the others by the **phase** that it
reads first.  A signal is passed along by appending it to a stage's input and running that stage to
its next output.

* `Circuit.pipeline` passes a signal through every stage once;
* `Circuit.feedback` brings the last stage's output back to the first, lap after lap, until the
  first stage halts; the signal of the last whole lap is the result.
-/

namespace Intcode

/-- Machines in a row; none of them has a source. -/
structure Circuit where
  stages : List (Machine Empty)

namespace Circuit

/-- One machine for each phase, all with the same program. -/
def create (program : Program) (phases : List Word) : Circuit :=
  ⟨phases.map fun phase => (Machine.create program).append phase⟩

/-- The number of stages. -/
def size (c : Circuit) : Nat := c.stages.length

/-- How one passage of a signal through the stages ended. -/
inductive Passage
  /-- Every stage wrote an output; the last one's is the signal. -/
  | through (signal : Word)
  /-- A stage halted without an output. -/
  | halted (stage : Nat)
  | failed (error : Error)
  | unfinished

/-- Passes a signal through the stages, of which the first has the given number.  The stages behind
one that writes nothing are left as they are. -/
def pass (patience : Nat) : Nat → Word → List (Machine Empty) → Passage × List (Machine Empty)
  | _, signal, [] => (.through signal, [])
  | number, signal, stage :: stages =>
    match (stage.append signal).nextOutput patience with
    | (.done (some value), stage) =>
      match pass patience (number + 1) value stages with
      | (passage, stages) => (passage, stage :: stages)
    | (.done none, stage) => (.halted number, stage :: stages)
    | (.failed e, stage) => (.failed e, stage :: stages)
    | (.unfinished, stage) => (.unfinished, stage :: stages)

/-- Passes a signal through every stage once. -/
def pipeline (patience : Nat) (signal : Word) (c : Circuit) : Outcome Word × Circuit :=
  match c.stages with
  | [] => (.failed .emptyCircuit, c)
  | stages =>
    match pass patience 0 signal stages with
    | (.through value, stages) => (.done value, ⟨stages⟩)
    | (.halted stage, stages) => (.failed (.noSignal stage), ⟨stages⟩)
    | (.failed e, stages) => (.failed e, ⟨stages⟩)
    | (.unfinished, stages) => (.unfinished, ⟨stages⟩)

/-- Passes a signal round and round, so many laps at most; `last` is the signal of the lap before,
if there was one. -/
def laps (patience : Nat) :
    Nat → Option Word → Word → List (Machine Empty) → Outcome Word × List (Machine Empty)
  | 0, _, _, stages => (.unfinished, stages)
  | n + 1, last, signal, stages =>
    match pass patience 0 signal stages, last with
    | (.through value, stages), _ => laps patience n (some value) value stages
    | (.halted 0, stages), some value => (.done value, stages)
    | (.halted stage, stages), _ => (.failed (.noSignal stage), stages)
    | (.failed e, stages), _ => (.failed e, stages)
    | (.unfinished, stages), _ => (.unfinished, stages)

/-- Passes a signal round until the first stage halts: the signal of the last whole lap. -/
def feedback (patience : Nat) (signal : Word) (c : Circuit) : Outcome Word × Circuit :=
  match c.stages with
  | [] => (.failed .emptyCircuit, c)
  | stages =>
    match laps patience patience none signal stages with
    | (outcome, stages) => (outcome, ⟨stages⟩)

/-- How a circuit is wired. -/
inductive Wiring
  | pipeline
  | feedback
deriving DecidableEq

/-- Passes a signal as the wiring says. -/
def send (wiring : Wiring) (patience : Nat) (signal : Word) (c : Circuit) :
    Outcome Word × Circuit :=
  match wiring with
  | .pipeline => c.pipeline patience signal
  | .feedback => c.feedback patience signal

end Circuit

end Intcode
