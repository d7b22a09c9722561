import Mathlib.Algebra.Group.Nat.Defs
import Intcode.Program.Text

/-!
# Proofs/Grammar — what a program text is, said without a reader

The words of a program stand in its text as decimal numerals between commas.  This says so on its
own terms, for `Intcode/Program/Text` to be measured by:

* `Numeral` — a text is the numeral of an integer, of whatever size;
* `records` — what stands between the commas of a text, white space apart;
* `FirstFault` — the first record that is not the numeral of a word;
* `complaint` — what is said of it.
-/

namespace Intcode

/-! ## Numerals -/

/-- The value of a row of decimal digits: each counts for as many tens as digits follow it. -/
def decimal : List Char → Nat
  | [] => 0
  | digit :: rest => (digit.toNat - '0'.toNat) * 10 ^ rest.length + decimal rest

/-- One or more of the ASCII digits, and nothing else. -/
structure DigitRow (row : List Char) : Prop where
  ne_nil : row ≠ []
  digits : ∀ c ∈ row, '0' ≤ c ∧ c ≤ '9'

/-- **A text is a numeral of an integer:** a row of digits, after a single sign or none. -/
inductive Numeral : List Char → Int → Prop
  | unsigned {row : List Char} (h : DigitRow row) : Numeral row (decimal row)
  | plus {row : List Char} (h : DigitRow row) : Numeral ('+' :: row) (decimal row)
  | minus {row : List Char} (h : DigitRow row) : Numeral ('-' :: row) (-decimal row)

/-! ## Records -/

/-- What stands before, between and after the commas of a text, each piece without the white space
around it. -/
def pieces (text : List Char) : List (List Char) := (text.splitOn ',').map Text.trim

/-- The records of a text are its pieces.  An empty piece at the end is none: it is what follows a
last comma, or all that there is of a text without anything in it. -/
def records (text : List Char) : List (List Char) :=
  if (pieces text).getLast? = some [] then (pieces text).dropLast else pieces text

/-- **The first record that is the numeral of no word**, and its number: how many come before it. -/
inductive FirstFault : List (List Char) → Nat → List Char → Prop
  | here {record : List Char} (rest : List (List Char))
    (h : ¬∃ w : Word, Numeral record w.toInt) : FirstFault (record :: rest) 0 record
  | later {first record : List Char} {rest : List (List Char)} {index : Nat} {w : Word}
    (hfirst : Numeral first w.toInt) (h : FirstFault rest index record) :
    FirstFault (first :: rest) (index + 1) record

/-- What is said of a record that is not the numeral of a word: a syntax error, with its place among
the records for all it says of where. -/
def complaint (index : Nat) (record : List Char) : Error where
  kind := .syntaxError
  address := none
  value := none
  detail :=
    if record = [] then
      "EMPTY RECORD " ++ String.ofList (Text.natural index)
    else
      "RECORD " ++ String.ofList (Text.natural index) ++ " IS NOT AN INTEGER: " ++
        String.ofList (Text.quote record)

end Intcode
