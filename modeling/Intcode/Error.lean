import Intcode.Text.Numeral
import Intcode.Text.Quoted

/-!
# Intcode/Error — what can go wrong, and how it is told

An error has a kind and up to three particulars: the address of the instruction at fault, the
offending word, and a detail in words.  `Error.text` is the one place where errors are put into
words; the causes that arise in this library have constructors of their own at the end.
-/

namespace Intcode

/-- The kinds of error. -/
inductive ErrorKind
  | invalidOpcode
  | inputStarvation
  | invalidAddress
  | invalidMode
  | immediateWrite
  | overflow
  | syntaxError
  | fileNotFound
  | ioError
  | internalError
deriving DecidableEq

/-- The number of a kind. -/
def ErrorKind.code : ErrorKind → Nat
  | .invalidOpcode => 1
  | .inputStarvation => 2
  | .invalidAddress => 3
  | .invalidMode => 4
  | .immediateWrite => 5
  | .overflow => 6
  | .syntaxError => 7
  | .fileNotFound => 8
  | .ioError => 9
  | .internalError => 51

/-- The title under which a kind is shown. -/
def ErrorKind.title : ErrorKind → String
  | .invalidOpcode => "INVALID OPCODE"
  | .inputStarvation => "INPUT STARVATION"
  | .invalidAddress => "INVALID ADDRESS"
  | .invalidMode => "INVALID ADDRESSING MODE"
  | .immediateWrite => "IMMEDIATE WRITE TARGET"
  | .overflow => "OVERFLOW"
  | .syntaxError => "SYNTAX ERROR"
  | .fileNotFound => "FILE NOT FOUND"
  | .ioError => "I/O ERROR"
  | .internalError => "INTERNAL ERROR"

/-- An error: its kind, and what is known of where and why it arose. -/
structure Error where
  kind : ErrorKind
  /-- The address of the instruction at fault. -/
  address : Option Nat := none
  /-- The offending word. -/
  value : Option Word := none
  /-- A detail in words; empty if there is none. -/
  detail : String := ""
deriving DecidableEq

namespace Error

/-- An error of a kind, with no particulars. -/
def ofKind (kind : ErrorKind) : Error where
  kind := kind

/-- The error, placed at the instruction at fault. -/
def atAddress (e : Error) (address : Nat) : Error := { e with address := some address }

/-- The error, placed at the instruction at fault for the first time: no error is placed twice. -/
def place (e : Error) (address : Nat) (_ : e.address = none) : Error := e.atAddress address

/-- The error with its offending word. -/
def withValue (e : Error) (value : Word) : Error := { e with value := some value }

/-- The error with a detail in words. -/
def withDetail (e : Error) (detail : String) : Error := { e with detail := detail }

/-- ` AT ` and the address, if there is one. -/
def addressPart : Option Nat → String
  | some address => " AT " ++ String.ofList (Text.natural address)
  | none => ""

/-- The offending word in parentheses, if there is one. -/
def valuePart : Option Word → String
  | some value => " (" ++ value.text ++ ")"
  | none => ""

/-- The detail after a semicolon, if it is not empty. -/
def detailPart (detail : String) : String := if detail = "" then "" else "; " ++ detail

/-- The error on one line: title, address, offending word, detail. -/
def text (e : Error) : String :=
  e.kind.title ++ addressPart e.address ++ valuePart e.value ++ detailPart e.detail

/-- The error's line inside a frame that names the type. -/
def framed (e : Error) : String := "Error \x7b " ++ e.text ++ " \x7d"

/-! ## Causes -/

/-- The word at `pc` is no instruction. -/
def noInstruction (pc : Nat) (word : Word) : Error :=
  ((ofKind .invalidOpcode).place pc rfl).withValue word

/-- A word that is meant as an address is none. -/
def noAddress (word : Word) : Error := (ofKind .invalidAddress).withValue word

/-- A write beyond the last address. -/
def beyondMemory (address : Nat) : Error :=
  ((ofKind .invalidAddress).withDetail "BEYOND MEMORY LIMIT").withValue (Word.wrap address)

/-- The instruction at `pc` uses an operand whose mode digit means nothing. -/
def noMode (pc : Nat) (digit : Word) : Error :=
  ((ofKind .invalidMode).place pc rfl).withValue digit

/-- The instruction at `pc` has an immediate destination. -/
def immediateTarget (pc : Nat) (raw : Word) : Error :=
  ((ofKind .immediateWrite).place pc rfl).withValue raw

/-- A result of the instruction at `pc` is no word; `what` says which one. -/
def overflowed (pc : Nat) (what : String) : Error :=
  ((ofKind .overflow).place pc rfl).withDetail what

/-- The instruction at `pc` reads, and there is nothing to read. -/
def starved (pc : Nat) : Error := (ofKind .inputStarvation).place pc rfl

/-- Record number `index` of a program text is empty. -/
def emptyRecord (index : Nat) : Error :=
  (ofKind .syntaxError).withDetail ("EMPTY RECORD " ++ String.ofList (Text.natural index))

/-- Record number `index` of a program text is not the numeral of a word. -/
def noInteger (index : Nat) (record : List Char) : Error :=
  (ofKind .syntaxError).withDetail ("RECORD " ++ String.ofList (Text.natural index) ++
    " IS NOT AN INTEGER: " ++ String.ofList (Text.quote record))

/-- A machine has failed, but with what was not written down. -/
def faultNotRecorded : Error := (ofKind .internalError).withDetail "FAULT NOT RECORDED"

/-- A circuit without stages is asked for a signal. -/
def emptyCircuit : Error := (ofKind .internalError).withDetail "EMPTY CIRCUIT"

/-- A stage of a circuit halts where a signal is expected of it. -/
def noSignal (stage : Nat) : Error :=
  (ofKind .internalError).withDetail
    ("STAGE " ++ String.ofList (Text.natural stage) ++ " HALTED WITHOUT SIGNAL")

end Error

end Intcode
