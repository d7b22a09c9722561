import Intcode.Input
import Intcode.Text.Blank

/-!
# Intcode/Terminal — a person at a keyboard, as a source of words

Asked for a word, a terminal shows a prompt and takes the line that is typed.  A line that is the
numeral of a word, but for white space around it, is the answer; any other is refused on the
screen and asked for again.  When no more lines come there is no answer.
-/

namespace Intcode

/-- What has been typed and shown. -/
structure Terminal where
  /-- The lines still to be typed. -/
  untyped : List String
  /-- The number of prompts shown. -/
  prompts : Nat := 0
  /-- The lines shown, prompts apart. -/
  screen : Array String := #[]

namespace Terminal

/-- The line that refuses an answer. -/
def refusal : String := "?REDO FROM START"

/-- The word that a typed line stands for. -/
def readLine? (line : String) : Option Word := Word.read? (Text.trim line.toList)

/-- Asks until a line is a word, or no more lines come. -/
def ask : List String → Nat → Array String → Option Word × Terminal
  | [], prompts, screen => (none, ⟨[], prompts + 1, screen⟩)
  | line :: rest, prompts, screen =>
    match readLine? line with
    | some word => (some word, ⟨rest, prompts + 1, screen⟩)
    | none => ask rest (prompts + 1) (screen.push refusal)

/-- Shows a line. -/
def display (t : Terminal) (line : String) : Terminal := { t with screen := t.screen.push line }

instance : Source Terminal where
  next t := ask t.untyped t.prompts t.screen
  observe value t := t.display value.text

end Terminal

end Intcode
