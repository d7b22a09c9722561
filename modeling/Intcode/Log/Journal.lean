import Intcode.Log

/-!
# Intcode/Log/Journal — the log that a run leaves behind

What a run logs is a function of where it starts.  A machine logs each instruction that it starts,
each value that it writes, and how it ends; a circuit logs what its stages do, in the order in
which they do it; a search logs what its circuits do, and its result.
-/

namespace Intcode

namespace Machine

variable {σ : Type} [Source σ]

/-- The entry for starting the next instruction, if it is one. -/
def startEntries (m : Machine σ) : List LogEntry :=
  match m.instruction with
  | .ok instruction => [.step m.pc instruction.opcode]
  | .error _ => []

/-- The log of the next cycles, behind the entries already there: up to the first output, or, if
`onward`, beyond it until the machine halts or fails. -/
def journalCycles (onward : Bool) : Nat → Array LogEntry → Machine σ → Array LogEntry
  | 0, log, _ => log
  | n + 1, log, m =>
    let log := log ++ m.startEntries
    match m.step with
    | (.ok .running, m) => journalCycles onward n log m
    | (.ok (.output value), m) =>
      let log := log.push (.output value m.pc)
      if onward then journalCycles onward n log m else log
    | (.ok .halted, m) => log.push (.halted m.pc)
    | (.error e, _) => log.push (.fault e)

/-- The log of running a machine for so many cycles, behind the entries already there; one that has
halted or failed logs nothing. -/
def journal (onward : Bool) (cycles : Nat) (log : Array LogEntry) (m : Machine σ) :
    Array LogEntry :=
  match m.state with
  | .halted | .faulted => log
  | .ready | .running | .suspended => m.journalCycles onward cycles log

/-- The entry for a machine that has just been reset. -/
def resetEntry (m : Machine σ) : LogEntry := .reset m.program.size m.input.queue.size

end Machine

namespace Circuit

/-- The log of passing a signal through the stages, behind the entries already there. -/
def journalPass (patience : Nat) :
    Array LogEntry → Word → List (Machine Empty) → Array LogEntry
  | log, _, [] => log
  | log, signal, stage :: stages =>
    let stage := stage.append signal
    let log := stage.journal false (patience * Machine.sliceCycles) log
    match stage.nextOutput patience with
    | (.done (some value), _) => journalPass patience log value stages
    | _ => log

/-- The log of passing a signal round and round, so many laps at most. -/
def journalLaps (patience : Nat) :
    Nat → Array LogEntry → Word → List (Machine Empty) → Array LogEntry
  | 0, log, _, _ => log
  | n + 1, log, signal, stages =>
    let log := journalPass patience log signal stages
    match pass patience 0 signal stages with
    | (.through value, stages) => journalLaps patience n log value stages
    | _ => log

/-- The log of sending a signal as the wiring says, behind the entries already there. -/
def journal (wiring : Wiring) (patience : Nat) (log : Array LogEntry) (signal : Word)
    (c : Circuit) : Array LogEntry :=
  match wiring with
  | .pipeline => journalPass patience log signal c.stages
  | .feedback => journalLaps patience patience log signal c.stages

end Circuit

namespace PhaseSearch

/-- The log of one attempt, behind the entries already there: a reset for each stage, then what the
circuit does. -/
def journalAttempt (patience : Nat) (program : Program) (wiring : Circuit.Wiring)
    (log : Array LogEntry) (order : List Word) : Array LogEntry :=
  let resets := order.map fun _ => (Machine.create program : Machine Empty).resetEntry
  (Circuit.create program order).journal wiring patience (log ++ resets) 0

/-- The log of attempt after attempt, up to the first that fails. -/
def journalAttempts (patience : Nat) (program : Program) (wiring : Circuit.Wiring) :
    Array LogEntry → List (List Word) → Array LogEntry
  | log, [] => log
  | log, order :: rest =>
    let log := journalAttempt patience program wiring log order
    match signal patience program wiring order with
    | .done _ => journalAttempts patience program wiring log rest
    | _ => log

/-- The log of a search: its attempts, and the result unless it fails or the range is empty. -/
def journal (patience : Nat) (program : Program) (start stop : Word) (wiring : Circuit.Wiring) :
    Array LogEntry :=
  match phases start stop with
  | [] => #[]
  | range =>
    let log := journalAttempts patience program wiring #[] (orders range.length range)
    match maxSignal patience program start stop wiring with
    | .done best => log.push (.searched best wiring)
    | _ => log

end PhaseSearch

end Intcode
