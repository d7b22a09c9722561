import Intcode.Input
import Intcode.Memory
import Intcode.Program

/-!
# Intcode/Machine — a machine between two instructions

A machine has a program, a memory, two registers and an input.  Its **state** says what may happen
next: a halted machine stays halted and a faulted one faulted, until the next reset.  The error that
stopped a machine is written down apart from its state, as its **fault**.  The program never
changes, and a reset brings everything but the input's source back to it.

`Intcode/Machine/Step` executes one instruction and `Intcode/Machine/Run` many.
-/

namespace Intcode

/-- Where a machine is between two calls. -/
inductive State
  /-- Freshly reset. -/
  | ready
  /-- In the middle of its work. -/
  | running
  /-- Just after writing a value out. -/
  | suspended
  /-- Halted, until the next reset. -/
  | halted
  /-- Stopped by an error, until the next reset. -/
  | faulted
deriving DecidableEq

/-- An Intcode machine whose input may have a source of type `σ`. -/
@[ext] structure Machine (σ : Type) where
  program : Program
  memory : Memory
  /-- The address of the next instruction. -/
  pc : Nat
  /-- The relative base. -/
  base : Word
  input : Input σ
  state : State
  /-- The error that stopped the machine, if one did. -/
  fault : Option Error

namespace Machine

variable {σ : Type}

/-- A machine with its program loaded and nothing to read. -/
def create (program : Program) : Machine σ where
  program := program
  memory := ⟨program.image⟩
  pc := 0
  base := 0
  input := {}
  state := .ready
  fault := none

/-- Starts over from the program, with these values to read. -/
def reset (m : Machine σ) (inputs : List Word) : Machine σ :=
  { m with
    memory := ⟨m.program.image⟩
    pc := 0
    base := 0
    input := m.input.reset inputs
    state := .ready
    fault := none }

/-- Adds one value to those to be read. -/
def append (m : Machine σ) (value : Word) : Machine σ := { m with input := m.input.push value }

/-- Installs a source, or takes it away. -/
def withSource (m : Machine σ) (source : Option σ) : Machine σ :=
  { m with input := m.input.withSource source }

/-- Tells the machine's source of a value that the machine has written. -/
def observe [Source σ] (m : Machine σ) (value : Word) : Machine σ :=
  { m with input := m.input.observe value }

/-- The word at an address. -/
def peek (m : Machine σ) (address : Nat) : Word := m.memory.read address

/-- Puts a word at an address, unless the address is too high. -/
def poke (m : Machine σ) (address : Nat) (value : Word) : Except Error Unit × Machine σ :=
  match Memory.refusal? address with
  | some e => (.error e, m)
  | none => (.ok (), { m with memory := m.memory.set address value })

end Machine

end Intcode
