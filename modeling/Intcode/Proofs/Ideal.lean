import Mathlib.Algebra.Group.Int.Defs
import Mathlib.Logic.Function.Basic
import Intcode.Machine.Step

/-!
# Proofs/Ideal — the machine in exact arithmetic

The **ideal machine** is the instruction table and nothing else: its memory is a total function from
the naturals to the integers, its arithmetic never leaves the integers, and it reads from a plain
list.  `Ideal.step` says what each instruction does there, whatever the numbers are.

A machine of 64-bit words cannot always follow.  `Ideal.obstacles` lists what stands in its way at
the next instruction, in the order in which it is met: the opcode, then the operands that are read,
then the destination, then the result, then the input.  With no obstacle the step can be taken, and
otherwise the first one is what a machine has to tell (`Obstacle.Tells`).
-/

namespace Intcode

/-- The integer fits into a signed 64-bit word. -/
def IsWord (x : Int) : Prop := -9223372036854775808 ≤ x ∧ x ≤ 9223372036854775807

/-- The integer is an address that a program may touch. -/
def IsAddress (x : Int) : Prop := 0 ≤ x ∧ x ≤ maxAddress

instance (x : Int) : Decidable (IsWord x) :=
  inferInstanceAs (Decidable (_ ∧ _))

instance (x : Int) : Decidable (IsAddress x) :=
  inferInstanceAs (Decidable (_ ∧ _))

namespace Opcode

/-- The instruction set. -/
def all : List Opcode :=
  [.add, .mul, .read, .write, .jumpIfTrue, .jumpIfFalse, .less, .equals, .adjustBase, .exit]

/-- The code of an instruction. -/
def code : Opcode → Int
  | .add => 1
  | .mul => 2
  | .read => 3
  | .write => 4
  | .jumpIfTrue => 5
  | .jumpIfFalse => 6
  | .less => 7
  | .equals => 8
  | .adjustBase => 9
  | .exit => 99

/-- The operands whose values an instruction uses. -/
def sources : Opcode → List Nat
  | .add | .mul | .less | .equals | .jumpIfTrue | .jumpIfFalse => [0, 1]
  | .write | .adjustBase => [0]
  | .read | .exit => []

/-- The operand that names an instruction's destination. -/
def target? : Opcode → Option Nat
  | .add | .mul | .less | .equals => some 2
  | .read => some 0
  | .write | .jumpIfTrue | .jumpIfFalse | .adjustBase | .exit => none

end Opcode

/-! ## Obstacles -/

/-- What can stand in the way of an instruction. -/
inductive Obstacle
  /-- The instruction word has no instruction's code. -/
  | noInstruction (word : Int)
  /-- The mode digit of an operand is none of 0, 1 and 2. -/
  | noMode (digit : Int)
  /-- The destination is in immediate mode. -/
  | immediateTarget (raw : Int)
  /-- The sum of an operand and the relative base is no word. -/
  | noRelativeAddress
  /-- The address of an operand, or of a jump that is taken, is out of range. -/
  | noAddress (address : Int)
  /-- The result of the instruction is no word. -/
  | noResult (opcode : Opcode)
  /-- The new relative base is no word. -/
  | noBase
  /-- There is nothing to read. -/
  | starved
deriving DecidableEq

namespace Obstacle

/-- The kind of error that an obstacle is. -/
def kind : Obstacle → ErrorKind
  | .noInstruction _ => .invalidOpcode
  | .noMode _ => .invalidMode
  | .immediateTarget _ => .immediateWrite
  | .noAddress _ => .invalidAddress
  | .noRelativeAddress | .noResult _ | .noBase => .overflow
  | .starved => .inputStarvation

/-- The offending number, if there is one. -/
def value? : Obstacle → Option Int
  | .noInstruction x | .noMode x | .immediateTarget x | .noAddress x => some x
  | .noRelativeAddress | .noResult _ | .noBase | .starved => none

/-- The detail in words; empty if there is none. -/
def detail : Obstacle → String
  | .noRelativeAddress => "RELATIVE ADDRESS"
  | .noResult opcode => opcode.name
  | .noBase => "RELATIVE BASE"
  | .noInstruction _ | .noMode _ | .immediateTarget _ | .noAddress _ | .starved => ""

/-- **The error tells of the obstacle**, met by the instruction at `pc`: all four particulars of an
error are fixed by it. -/
structure Tells (o : Obstacle) (pc : Nat) (e : Error) : Prop where
  kind : e.kind = o.kind
  address : e.address = some pc
  value : e.value.map Word.toInt = o.value?
  detail : e.detail = o.detail

/-- The obstacle, unless the condition holds. -/
def require (c : Prop) [Decidable c] (o : Obstacle) : List Obstacle := if c then [] else [o]

end Obstacle

open Obstacle (require)

/-! ## Operands -/

/-- An operand in exact arithmetic: its mode digit, the operand as it stands in memory, and the
relative base. -/
structure ExactOperand where
  digit : Int
  raw : Int
  base : Int

namespace ExactOperand

/-- The exact address that the operand names. -/
def address (o : ExactOperand) : Int := if o.digit = 2 then o.raw + o.base else o.raw

/-- The exact value of the operand. -/
def value (o : ExactOperand) (memory : Nat → Int) : Int :=
  if o.digit = 1 then o.raw else memory o.address.toNat

/-- What can be wrong with the mode. -/
def modeObstacles (o : ExactOperand) : List Obstacle :=
  require (o.digit = 0 ∨ o.digit = 1 ∨ o.digit = 2) (.noMode o.digit)

/-- What can be wrong with the address; an immediate operand has none. -/
def addressObstacles (o : ExactOperand) : List Obstacle :=
  require (o.digit = 2 → IsWord o.address) .noRelativeAddress ++
    require (o.digit ≠ 1 → IsAddress o.address) (.noAddress o.address)

/-- What can be wrong with an operand that is read. -/
def sourceObstacles (o : ExactOperand) : List Obstacle := o.modeObstacles ++ o.addressObstacles

/-- What can be wrong with a destination. -/
def targetObstacles (o : ExactOperand) : List Obstacle :=
  o.modeObstacles ++ require (o.digit ≠ 1) (.immediateTarget o.raw) ++ o.addressObstacles

end ExactOperand

/-! ## The machine -/

/-- The ideal machine between two instructions. -/
@[ext] structure Ideal where
  memory : Nat → Int
  /-- The address of the next instruction. -/
  pc : Nat
  /-- The relative base. -/
  base : Int
  /-- The numbers to be read, the next one first. -/
  queue : List Int

namespace Ideal

/-- What comes of a step. -/
inductive Event
  | running
  | output (value : Int)
  | halted
deriving DecidableEq

/-- The instruction word. -/
def word (i : Ideal) : Int := i.memory i.pc

/-- The instruction that the code, the two lowest decimal digits, stands for. -/
def opcode? (i : Ideal) : Option Opcode := Opcode.all.find? fun op => op.code = i.word % 100

/-- The mode digit of an operand, counted from zero; a negative word has none but zero. -/
def digit (i : Ideal) (k : Nat) : Int := if i.word < 0 then 0 else i.word / 10 ^ (k + 2) % 10

/-- An operand of the instruction, counted from zero. -/
def operand (i : Ideal) (k : Nat) : ExactOperand := ⟨i.digit k, i.memory (i.pc + k + 1), i.base⟩

/-- The exact value of an operand. -/
def value (i : Ideal) (k : Nat) : Int := (i.operand k).value i.memory

/-- Puts a number at the address that an operand names; no other cell changes. -/
def put (i : Ideal) (k : Nat) (x : Int) : Ideal :=
  { i with memory := Function.update i.memory (i.operand k).address.toNat x }

/-- Goes on at an address. -/
def goto (i : Ideal) (pc : Nat) : Ideal := { i with pc := pc }

/-- **The instruction table**: what comes of the next instruction, and the machine after it.  A word
that is no instruction changes nothing. -/
def step (i : Ideal) : Event × Ideal :=
  match i.opcode? with
  | some .add => (.running, (i.put 2 (i.value 0 + i.value 1)).goto (i.pc + 4))
  | some .mul => (.running, (i.put 2 (i.value 0 * i.value 1)).goto (i.pc + 4))
  | some .read =>
    (.running, { i.put 0 (i.queue.headD 0) with pc := i.pc + 2, queue := i.queue.tail })
  | some .write => (.output (i.value 0), i.goto (i.pc + 2))
  | some .jumpIfTrue =>
    (.running, i.goto (if i.value 0 ≠ 0 then (i.value 1).toNat else i.pc + 3))
  | some .jumpIfFalse =>
    (.running, i.goto (if i.value 0 = 0 then (i.value 1).toNat else i.pc + 3))
  | some .less => (.running, (i.put 2 (if i.value 0 < i.value 1 then 1 else 0)).goto (i.pc + 4))
  | some .equals => (.running, (i.put 2 (if i.value 0 = i.value 1 then 1 else 0)).goto (i.pc + 4))
  | some .adjustBase => (.running, { i with base := i.base + i.value 0, pc := i.pc + 2 })
  | some .exit => (.halted, i)
  | none => (.running, i)

/-- What can be wrong with the operands of an instruction: first those that are read, in their
order, then the destination. -/
def operandObstacles (i : Ideal) (op : Opcode) : List Obstacle :=
  op.sources.flatMap (fun k => (i.operand k).sourceObstacles) ++
    op.target?.elim [] fun k => (i.operand k).targetObstacles

/-- What can be wrong with the result: it must be a word, and a jump that is taken must lead to an
address. -/
def resultObstacles (i : Ideal) : Opcode → List Obstacle
  | .add => require (IsWord (i.value 0 + i.value 1)) (.noResult .add)
  | .mul => require (IsWord (i.value 0 * i.value 1)) (.noResult .mul)
  | .jumpIfTrue => require (i.value 0 ≠ 0 → IsAddress (i.value 1)) (.noAddress (i.value 1))
  | .jumpIfFalse => require (i.value 0 = 0 → IsAddress (i.value 1)) (.noAddress (i.value 1))
  | .adjustBase => require (IsWord (i.base + i.value 0)) .noBase
  | .less | .equals | .read | .write | .exit => []

/-- The obstacles that an instruction meets before it looks at the input. -/
def planObstacles (i : Ideal) : List Obstacle :=
  match i.opcode? with
  | none => [.noInstruction i.word]
  | some op => i.operandObstacles op ++ i.resultObstacles op

/-- **What stands in the way of the next instruction**, the first obstacle first. -/
def obstacles (i : Ideal) : List Obstacle :=
  i.planObstacles ++ require (i.opcode? = some .read → i.queue ≠ []) .starved

/-- Takes up to so many steps: to the first output or the end, or to an obstacle, in front of which
the machine stays. -/
def run : Nat → Ideal → Except Obstacle Event × Ideal
  | 0, i => (.ok .running, i)
  | n + 1, i =>
    match i.obstacles with
    | o :: _ => (.error o, i)
    | [] =>
      match i.step with
      | (.running, i) => run n i
      | (event, i) => (.ok event, i)

end Ideal

/-! ## The machine of words, seen in exact arithmetic -/

/-- An event with its word read as an integer. -/
def Event.exact : Event → Ideal.Event
  | .running => .running
  | .output value => .output value.toInt
  | .halted => .halted

/-- A machine with every word read as an integer, and every cell beyond its memory as zero. -/
def Machine.ideal {σ : Type} (m : Machine σ) : Ideal where
  memory a := (m.memory.read a).toInt
  pc := m.pc
  base := m.base.toInt
  queue := m.input.queue.toList.map Word.toInt

end Intcode
