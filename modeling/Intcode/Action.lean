import Intcode.Operands

/-!
# Intcode/Action — what an instruction asks of its machine

An instruction is worked out before anything is changed: its operands are resolved and its result
is computed, and what comes of that is one **action**, or an error.  Only the value of a `READ` is
left open, since taking it changes the input.
-/

namespace Intcode

/-- The one change that an instruction asks for. -/
inductive Action
  /-- Put a value at an address. -/
  | store (target : Nat) (value : Word)
  /-- Put the next input at an address. -/
  | receive (target : Nat)
  /-- Write a value out. -/
  | emit (value : Word)
  /-- Go on at an address. -/
  | jump (target : Nat)
  /-- Go on behind the instruction. -/
  | pass
  /-- Take another relative base. -/
  | rebase (base : Word)
  /-- Stop for good. -/
  | halt
deriving DecidableEq

namespace Operands

/-- The action that puts a result of the first two operands at the third. -/
@[inline] def combine (ops : Operands) (opcode : Opcode) (result : Word → Word → Option Word) :
    Except Error Action := do
  let (a, b) ← ops.pair
  let target ← ops.target 2
  match result a b with
  | some value => return .store target value
  | none => .error (.overflowed ops.pc opcode.name)

/-- The action that jumps to the second operand if the first is as wanted.  Both operands are
resolved in either case, but the second has to be an address only for the jump. -/
@[inline] def branch (ops : Operands) (wanted : Word → Bool) : Except Error Action := do
  let (a, target) ← ops.pair
  if wanted a then return .jump (← ops.address target) else return .pass

/-- The action that an instruction asks for. -/
@[inline] def action (ops : Operands) (opcode : Opcode) : Except Error Action :=
  match opcode with
  | .add => ops.combine .add Word.add?
  | .mul => ops.combine .mul Word.mul?
  | .less => ops.combine .less fun a b => some (.ofBool (a.toInt < b.toInt))
  | .equals => ops.combine .equals fun a b => some (.ofBool (a = b))
  | .read => return .receive (← ops.target 0)
  | .write => return .emit (← ops.value 0)
  | .jumpIfTrue => ops.branch (· ≠ 0)
  | .jumpIfFalse => ops.branch (· = 0)
  | .adjustBase => do
    let a ← ops.value 0
    match ops.base.add? a with
    | some base => return .rebase base
    | none => .error (.overflowed ops.pc "RELATIVE BASE")
  | .exit => return .halt

end Operands

end Intcode
