import Intcode.Word

/-!
# Intcode/Text/Numeral — decimal numerals, written and read

A numeral is written with an optional minus sign and without leading zeros.  Reading is more
lenient: an optional single sign, plus or minus, and one or more of the ASCII digits, any number of
leading zeros among them.  Nothing else is a numeral, no white space and no other script's digits.
-/

namespace Intcode.Text

/-- The decimal digits of a natural number. -/
def natural (n : Nat) : List Char := Nat.toDigits 10 n

theorem natural_inj {m n : Nat} (h : natural m = natural n) : m = n := by
  have hread := congrArg (Nat.ofDigitChars 10 · 0) h
  simpa only [natural, Nat.ofDigitChars_ten_toDigits] using hread

/-- The numeral of an integer. -/
def numeral : Int → List Char
  | .ofNat n => natural n
  | .negSucc n => '-' :: natural (n + 1)

/-- The number that a run of ASCII digits stands for; at least one digit is needed. -/
def readNatural? (text : List Char) : Option Nat :=
  if text ≠ [] ∧ text.all Char.isDigit then some (Nat.ofDigitChars 10 text 0) else none

/-- The integer that an optionally signed run of digits stands for. -/
def readNumeral? : List Char → Option Int
  | '-' :: digits => (readNatural? digits).map fun n => -(n : Int)
  | '+' :: digits => (readNatural? digits).map fun n => (n : Int)
  | digits => (readNatural? digits).map fun n => (n : Int)

end Intcode.Text

namespace Intcode.Word

/-- The word's numeral. -/
def chars (w : Word) : List Char := Text.numeral w.toInt

/-- The word's numeral as a string. -/
def text (w : Word) : String := String.ofList w.chars

/-- The word that a numeral stands for: none if it is not a numeral, or too large for 64 bits. -/
def read? (text : List Char) : Option Word := (Text.readNumeral? text).bind ofInt?

end Intcode.Word
