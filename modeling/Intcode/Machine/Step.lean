import Intcode.Action
import Intcode.Machine

/-!
# Intcode/Machine/Step — one instruction

A step works its instruction out and then performs the action that comes of it.  An instruction
that fails changes nothing: the machine stays in front of it, as it was, except that a source which
was asked in vain has been asked.
-/

namespace Intcode

/-- What comes of executing for a while. -/
inductive Event
  /-- Nothing that the caller would have to know of. -/
  | running
  /-- A value was written out. -/
  | output (value : Word)
  /-- The machine has halted. -/
  | halted
deriving DecidableEq

namespace Machine

variable {σ : Type}

/-- The operands of an instruction with these digits at the machine's place. -/
@[inline] def operands (m : Machine σ) (fields : Fields) : Operands where
  memory := m.memory
  pc := m.pc
  base := m.base
  fields := fields

/-- The instruction that the machine stands in front of. -/
@[inline] def instruction (m : Machine σ) : Except Error Instruction :=
  Instruction.decode (m.memory.read m.pc) m.pc

/-- The next instruction and the action that it asks for. -/
@[inline] def plan (m : Machine σ) : Except Error (Opcode × Action) := do
  let instruction ← m.instruction
  let action ← (m.operands instruction.fields).action instruction.opcode
  return (instruction.opcode, action)

/-- Puts a value at an address and goes on at another. -/
@[inline] def store (m : Machine σ) (target : Nat) (value : Word) (next : Nat) :
    Except Error Event × Machine σ :=
  match h : Memory.refusal? target with
  | some e => (.error (e.place m.pc (Memory.address_eq_none_of_refusal? h)), m)
  | none => (.ok .running, { m with memory := m.memory.set target value, pc := next })

/-- Performs an action; `next` is the address behind the instruction. -/
@[inline] def perform [Source σ] (m : Machine σ) (next : Nat) :
    Action → Except Error Event × Machine σ
  | .store target value => m.store target value next
  | .receive target =>
    match m.input.pop with
    | (some value, input) => { m with input := input }.store target value next
    | (none, input) => (.error (.starved m.pc), { m with input := input })
  | .emit value => (.ok (.output value), { m with pc := next })
  | .jump target => (.ok .running, { m with pc := target })
  | .pass => (.ok .running, { m with pc := next })
  | .rebase base => (.ok .running, { m with base := base, pc := next })
  | .halt => (.ok .halted, m)

/-- Executes the next instruction. -/
def step [Source σ] (m : Machine σ) : Except Error Event × Machine σ :=
  match m.plan with
  | .error e => (.error e, m)
  | .ok (opcode, action) => m.perform (m.pc + opcode.width) action

end Machine

end Intcode
