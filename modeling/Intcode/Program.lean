import Intcode.Word

/-!
# Intcode/Program — what a machine's memory holds at the start

A program is its **image**, the words that fill the first cells of memory.
-/

namespace Intcode

/-- The words that a machine's memory starts with. -/
structure Program where
  image : Array Word
deriving DecidableEq

/-- The number of words. -/
def Program.size (p : Program) : Nat := p.image.size

end Intcode
