import Intcode.Word

/-!
# Intcode/Command — what the program can be told to do
-/

namespace Intcode

/-- A task, with all that it needs to know. -/
inductive Command
  /-- Run a program to its end and show what it writes.  `noun` and `verb` replace the words at
  the addresses 1 and 2, and `dump` asks for the memory at the end. -/
  | run (path : String) (inputs : List Word) (noun verb : Option Word) (dump : Bool)
  /-- Run a program, and ask at the terminal for what it wants to read. -/
  | interactive (path : String) (inputs : List Word)
  /-- Find the phases that give the strongest signal. -/
  | amplify (path : String) (feedback : Bool)
deriving DecidableEq

/-- The program that the command is about. -/
def Command.path : Command → String
  | .run path .. => path
  | .interactive path _ => path
  | .amplify path _ => path

end Intcode
