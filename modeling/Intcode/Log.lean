import Intcode.Instruction
import Intcode.PhaseSearch

/-!
# Intcode/Log — what is logged, and at which level

An entry is logged at one of two levels, `trace` for what happens at every instruction and `debug`
for the rest, and shows when the level asked for is at least as talkative.
-/

namespace Intcode

/-- How much of the log is asked for, from nothing to everything. -/
inductive LogLevel
  | off
  | error
  | warn
  | info
  | debug
  | trace
deriving DecidableEq

namespace LogLevel

/-- How talkative a level is. -/
def rank : LogLevel → Nat
  | .off => 0
  | .error => 1
  | .warn => 2
  | .info => 3
  | .debug => 4
  | .trace => 5

/-- The level with a name, in lower or upper case. -/
def ofName? (name : String) : Option LogLevel :=
  match name.toLower with
  | "off" => some .off
  | "error" => some .error
  | "warn" => some .warn
  | "info" => some .info
  | "debug" => some .debug
  | "trace" => some .trace
  | _ => none

end LogLevel

/-- One thing worth telling of a run. -/
inductive LogEntry
  /-- A program was read from a file. -/
  | loaded (path : String) (words : Nat)
  /-- A machine was reset, with so many values to read. -/
  | reset (words queued : Nat)
  /-- An instruction was started. -/
  | step (pc : Nat) (opcode : Opcode)
  /-- A value was written; `pc` is behind the instruction. -/
  | output (value : Word) (pc : Nat)
  /-- A machine has halted. -/
  | halted (pc : Nat)
  /-- An error has stopped a machine. -/
  | fault (error : Error)
  /-- A search for phases has ended. -/
  | searched (best : Option PhaseSearch.Best) (wiring : Circuit.Wiring)
deriving DecidableEq

namespace LogEntry

/-- The level of an entry. -/
def level : LogEntry → LogLevel
  | .step .. | .output .. => .trace
  | .loaded .. | .reset .. | .halted .. | .fault .. | .searched .. => .debug

/-- Whether an entry shows at a level. -/
def showsAt (e : LogEntry) (level : LogLevel) : Bool := e.level.rank ≤ level.rank

/-- A number as text. -/
def number (n : Nat) : String := String.ofList (Text.natural n)

/-- The best order with its signal, as it stands in the log. -/
def bestText : Option PhaseSearch.Best → String
  | none => "None"
  | some (order, signal) =>
    "Some(([" ++ ", ".intercalate (order.map Word.text) ++ "], " ++ signal.text ++ "))"

/-- The entry's line. -/
def text : LogEntry → String
  | .loaded path words => "DEBUG loaded program path=" ++ path ++ " words=" ++ number words
  | .reset words queued => "DEBUG reset words=" ++ number words ++ " queued=" ++ number queued
  | .step pc opcode => "TRACE step pc=" ++ number pc ++ " opcode=" ++ opcode.name
  | .output value pc => "TRACE output value=" ++ value.text ++ " pc=" ++ number pc
  | .halted pc => "DEBUG halted pc=" ++ number pc
  | .fault error => "DEBUG fault error=" ++ error.text
  | .searched best wiring =>
    "DEBUG phase search best=" ++ bestText best ++ " feedback=" ++
      (if wiring = .feedback then "true" else "false")

end LogEntry

end Intcode
