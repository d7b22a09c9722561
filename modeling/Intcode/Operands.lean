import Intcode.Instruction
import Intcode.Memory

/-!
# Intcode/Operands — the operands of one instruction, resolved

An operand is the word behind the instruction, read as its mode says: as a value or as an address.
Every failure is placed at the instruction.  Of two faults in one operand the mode is told first;
a relative address that is no word at all is told as an overflow, and one that is merely no address
as that.
-/

namespace Intcode

/-- What the operands of an instruction depend on. -/
structure Operands where
  memory : Memory
  /-- The address of the instruction. -/
  pc : Nat
  /-- The relative base. -/
  base : Word
  fields : Fields

namespace Operands

/-- The mode digit of an operand as a word. -/
def digitWord (digit : Fin 10) : Word := ⟨digit.val, by omega, by omega⟩

/-- The operand as it stands in memory. -/
@[inline] def raw (ops : Operands) (k : Nat) : Word := ops.memory.read (ops.pc + k + 1)

/-- The mode of an operand. -/
@[inline] def mode (ops : Operands) (k : Nat) : Except Error Mode :=
  match ops.fields.mode? k with
  | some mode => .ok mode
  | none => .error (.noMode ops.pc (digitWord (ops.fields.digit k)))

/-- The address that a word stands for in this instruction. -/
@[inline] def address (ops : Operands) (word : Word) : Except Error Nat :=
  match h : Memory.address word with
  | .ok address => .ok address
  | .error e => .error (e.place ops.pc (Memory.address_eq_none_of_address h))

/-- The address that a word stands for relative to the base. -/
@[inline] def relative (ops : Operands) (raw : Word) : Except Error Nat :=
  match raw.add? ops.base with
  | some word => ops.address word
  | none => .error (.overflowed ops.pc "RELATIVE ADDRESS")

/-- The value of an operand. -/
@[inline] def value (ops : Operands) (k : Nat) : Except Error Word := do
  match ← ops.mode k with
  | .position => return ops.memory.read (← ops.address (ops.raw k))
  | .immediate => return ops.raw k
  | .relative => return ops.memory.read (← ops.relative (ops.raw k))

/-- The values found so far, the latest first, followed by those of so many more operands from this
one on, or the failure of the first that has none.  No operand behind that one is looked at. -/
def valuesFrom (ops : Operands) (found : List Word) (k : Nat) : Nat → Except Error (List Word)
  | 0 => .ok found.reverse
  | more + 1 =>
    match ops.value k with
    | .ok word => ops.valuesFrom (word :: found) (k + 1) more
    | .error e => .error e

/-- The values of the first so many operands, or the failure of the first that has none. -/
def values (ops : Operands) (count : Nat) : Except Error (List Word) :=
  ops.valuesFrom [] 0 count

theorem valuesFrom_eq_mapM (ops : Operands) (found : List Word) (k more : Nat) :
    ops.valuesFrom found k more =
      ((List.range' k more).mapM ops.value).map (found.reverse ++ ·) := by
  induction more generalizing found k with
  | zero => simp [valuesFrom, Except.map, pure, Except.pure]
  | succ more ih =>
    rw [valuesFrom, List.range'_succ, List.mapM_cons]
    cases ops.value k with
    | error e => rfl
    | ok word =>
      dsimp only
      rw [ih]
      cases (List.range' (k + 1) more).mapM ops.value <;>
        simp [Except.map, bind, Except.bind, pure, Except.pure]

/-- **The values are those of the operands one by one**, in their sequence. -/
theorem values_eq_mapM (ops : Operands) (count : Nat) :
    ops.values count = (List.range count).mapM ops.value := by
  rw [values, valuesFrom_eq_mapM, List.range_eq_range']
  cases (List.range' 0 count).mapM ops.value <;> rfl

/-- The values of the first two operands. -/
@[inline] def pair (ops : Operands) : Except Error (Word × Word) := do
  let a ← ops.value 0
  let b ← ops.value 1
  return (a, b)

/-- The address that an operand names as a destination. -/
@[inline] def target (ops : Operands) (k : Nat) : Except Error Nat := do
  match ← ops.mode k with
  | .position => ops.address (ops.raw k)
  | .immediate => .error (.immediateTarget ops.pc (ops.raw k))
  | .relative => ops.relative (ops.raw k)

end Operands

end Intcode
