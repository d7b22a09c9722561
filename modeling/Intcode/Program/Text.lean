import Intcode.Error
import Intcode.Program

/-!
# Intcode/Program/Text — programs as text: numerals between commas

A program text is a list of **records** separated by commas.  White space around the text and
around each record does not count, and one comma may follow the last record.  A text of nothing but
white space is the empty program; apart from that an empty record is an error, and so is one that
is not the numeral of a word.  Of several faulty records the first is reported, by its number.

* `Program.parse` reads a text;
* `Program.render` writes a program's words, in the form that `parse` reads back.
-/

namespace Intcode.Program

/-- The word of one trimmed record, whose number is given for the error. -/
def readRecord (index : Nat) (record : List Char) : Except Error Word :=
  match record with
  | [] => .error (.emptyRecord index)
  | _ =>
    match Word.read? record with
    | some word => .ok word
    | none => .error (.noInteger index record)

/-- The words read so far, followed by those of the records.  A record's number is the number of
words before it. -/
def readRecords (words : Array Word) : List (List Char) → Except Error (Array Word)
  | [] => .ok words
  | record :: rest =>
    match readRecord words.size (Text.trim record) with
    | .ok word => readRecords (words.push word) rest
    | .error e => .error e

/-- The text without the comma that ends it, if one does. -/
def dropLastComma (text : List Char) : List Char :=
  if text.getLast? = some ',' then text.dropLast else text

/-- The image that a text stands for. -/
def parseChars (text : List Char) : Except Error (Array Word) :=
  match Text.trim text with
  | [] => .ok #[]
  | body => readRecords #[] ((dropLastComma body).splitOn ',')

/-- The program that a text stands for. -/
def parse (text : String) : Except Error Program :=
  match parseChars text.toList with
  | .ok image => .ok ⟨image⟩
  | .error e => .error e

/-- Words as text: their numerals, with commas between them. -/
def renderChars (words : Array Word) : List Char :=
  [','].intercalate (words.toList.map Word.chars)

/-- The program as text. -/
def render (p : Program) : String := String.ofList (renderChars p.image)

end Intcode.Program
