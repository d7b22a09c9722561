import Intcode.Error

/-!
# Intcode/Instruction — what the words in memory say when they are executed

The two lowest decimal digits of an instruction word are its **code**; each digit above them is the
**mode digit** of one operand, the first operand's lowest.  `1002` is `MUL` with its first operand
in position mode and its second in immediate mode.  Decoding is total on words: a negative word has
the code that its non-negative remainder gives, and no mode digit other than zero.

Which codes are instructions is for `Instruction.decode` to say, and which digits are modes for
`Mode.ofDigit?`, where an operand is used.
-/

namespace Intcode

/-- The instruction set. -/
inductive Opcode
  /-- Puts the sum of the first two operands at the third. -/
  | add
  /-- Puts the product of the first two operands at the third. -/
  | mul
  /-- Puts the next input at the operand. -/
  | read
  /-- Writes the operand out. -/
  | write
  /-- Jumps to the second operand unless the first is zero. -/
  | jumpIfTrue
  /-- Jumps to the second operand if the first is zero. -/
  | jumpIfFalse
  /-- Puts one at the third operand if the first is less than the second, else zero. -/
  | less
  /-- Puts one at the third operand if the first two are equal, else zero. -/
  | equals
  /-- Adds the operand to the relative base. -/
  | adjustBase
  /-- Halts the machine. -/
  | exit
deriving DecidableEq

namespace Opcode

/-- The instruction with a code. -/
def ofCode? (code : Int) : Option Opcode :=
  match code with
  | 1 => some .add
  | 2 => some .mul
  | 3 => some .read
  | 4 => some .write
  | 5 => some .jumpIfTrue
  | 6 => some .jumpIfFalse
  | 7 => some .less
  | 8 => some .equals
  | 9 => some .adjustBase
  | 99 => some .exit
  | _ => none

/-- The number of operands that follow the instruction word. -/
def operands : Opcode → Nat
  | .add | .mul | .less | .equals => 3
  | .jumpIfTrue | .jumpIfFalse => 2
  | .read | .write | .adjustBase => 1
  | .exit => 0

/-- The number of words of the instruction, which is the way to the next one. -/
def width (opcode : Opcode) : Nat := opcode.operands + 1

/-- The instruction's name. -/
def name : Opcode → String
  | .add => "ADD"
  | .mul => "MUL"
  | .read => "READ"
  | .write => "WRITE"
  | .jumpIfTrue => "JUMP_IF_TRUE"
  | .jumpIfFalse => "JUMP_IF_FALSE"
  | .less => "LESS"
  | .equals => "EQUALS"
  | .adjustBase => "ADJUST_BASE"
  | .exit => "EXIT"

end Opcode

/-- How an operand is meant. -/
inductive Mode
  /-- The operand is the address of its value. -/
  | position
  /-- The operand is its value. -/
  | immediate
  /-- The operand and the relative base add up to the address of its value. -/
  | relative
deriving DecidableEq

/-- The mode that a digit stands for. -/
@[inline] def Mode.ofDigit? (digit : Int) : Option Mode :=
  match digit with
  | 0 => some .position
  | 1 => some .immediate
  | 2 => some .relative
  | _ => none

/-- The digits of an instruction word: its code, and one mode digit for each operand. -/
structure Fields where
  code : Fin 100
  first : Fin 10
  second : Fin 10
  third : Fin 10
deriving DecidableEq

namespace Fields

/-- Splits a word into its digits. -/
@[inline] def ofWord (word : Word) : Fields :=
  let rest := (word.toInt / 100).toNat
  { code := Fin.ofNat 100 (word.toInt % 100).toNat
    first := Fin.ofNat 10 rest
    second := Fin.ofNat 10 (rest / 10)
    third := Fin.ofNat 10 (rest / 100) }

/-- The mode digit of an operand, counted from zero; an operand past the third has the digit
zero. -/
@[inline] def digit (f : Fields) : Nat → Fin 10
  | 0 => f.first
  | 1 => f.second
  | 2 => f.third
  | _ => 0

/-- The mode of an operand, if its digit is one. -/
@[inline] def mode? (f : Fields) (operand : Nat) : Option Mode :=
  Mode.ofDigit? (f.digit operand).val

end Fields

/-- An instruction word whose code is an instruction's. -/
structure Instruction where
  opcode : Opcode
  fields : Fields
deriving DecidableEq

/-- The instruction that the word at `pc` stands for. -/
@[inline] def Instruction.decode (word : Word) (pc : Nat) : Except Error Instruction :=
  match Opcode.ofCode? (Fields.ofWord word).code.val with
  | some opcode => .ok ⟨opcode, Fields.ofWord word⟩
  | none => .error (.noInstruction pc word)

end Intcode
