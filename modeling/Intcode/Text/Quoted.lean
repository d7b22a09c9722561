import Intcode.Text.Unprintable

/-!
# Intcode/Text/Quoted — a text between double quotes, safe to show on one line

The quote and the backslash get a backslash, four controls have a letter of their own, and every
other character that would not show is written as its code point in hexadecimal.
-/

namespace Intcode.Text

/-- A code point in hexadecimal: lower case, no leading zeros, in braces after a backslash and
a `u`. -/
def codePoint (c : Char) : List Char :=
  ['\\', 'u', '\x7b'] ++ Nat.toDigits 16 c.toNat ++ ['\x7d']

/-- One character as it stands in a quotation. -/
def quoteChar (c : Char) : List Char :=
  match c with
  | '"' => ['\\', '"']
  | '\\' => ['\\', '\\']
  | '\t' => ['\\', 't']
  | '\r' => ['\\', 'r']
  | '\n' => ['\\', 'n']
  | '\x00' => ['\\', '0']
  | c => if isHidden c then codePoint c else [c]

/-- The text between double quotes. -/
def quote (text : List Char) : List Char := '"' :: (text.flatMap quoteChar ++ ['"'])

end Intcode.Text
