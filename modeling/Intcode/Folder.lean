import Intcode.Program.Text

/-!
# Intcode/Folder — a folder of files, and reading a text from a path in it

A folder is a list of entries with their names.  A path is followed name by name: `.` and an empty
name stay, `..` goes back, and any other name needs an entry.  The entries outside the folder are
not known, so that no name is found there.

`Program.load` reads a program from such a path; every failure is told with the path in front.
-/

namespace Intcode

/-- Why a path gives no text. -/
inductive FileError
  | notFound
  /-- A name other than the last is a file's. -/
  | notFolder
  | isFolder
  | nameTooLong
  /-- The bytes of the file are not UTF-8. -/
  | notText
  /-- The path has the character that ends every path. -/
  | nulInName
  /-- Any other reason, in the words of the system. -/
  | other (reason : String)
deriving DecidableEq

namespace FileError

/-- The reason in words. -/
def text : FileError → String
  | .notFound => "No such file or directory (os error 2)"
  | .notFolder => "Not a directory (os error 20)"
  | .isFolder => "Is a directory (os error 21)"
  | .nameTooLong => "File name too long (os error 36)"
  | .notText => "stream did not contain valid UTF-8"
  | .nulInName => "file name contained an unexpected NUL byte"
  | .other reason => reason

/-- The error for a path that gives no text. -/
def toError (path : String) (e : FileError) : Error :=
  (Error.ofKind (if e = .notFound then .fileNotFound else .ioError)).withDetail
    (path ++ ": " ++ e.text)

end FileError

/-- What a name in a folder stands for. -/
inductive Entry
  | file (content : ByteArray)
  | folder

/-- The entries of a folder and of the folders in it, each with the names that lead to it. -/
structure Folder where
  entries : List (List String × Entry)

namespace Folder

/-- Where a path has led to so far. -/
inductive Place
  /-- To the entry with these names; to the folder itself if there are none. -/
  | inside (names : List String)
  /-- Out of the folder. -/
  | outside

/-- The names in a path. -/
def names (path : String) : List String := (path.toList.splitOn '/').map String.ofList

/-- The entry with these names.  A folder need not be listed if something in it is. -/
def entry? (f : Folder) (names : List String) : Option Entry :=
  match f.entries.find? (·.1 = names) with
  | some (_, entry) => some entry
  | none => if names = [] ∨ f.entries.any (names.isPrefixOf ·.1) then some .folder else none

/-- Whether a place can be looked into. -/
def isOpen (f : Folder) : Place → Bool
  | .inside names =>
    match f.entry? names with
    | some .folder => true
    | _ => false
  | .outside => true

/-- The longest name in bytes. -/
def maxName : Nat := 255

/-- The longest path in bytes. -/
def maxPath : Nat := 4095

/-- Goes from an open place to a name in it. -/
def enter (f : Folder) (place : Place) (name : String) : Except FileError Place :=
  match place, name with
  | place, "" => .ok place
  | place, "." => .ok place
  | .outside, ".." => .ok .outside
  | .inside [], ".." => .ok .outside
  | .inside names, ".." => .ok (.inside names.dropLast)
  | place, name =>
    if maxName < name.utf8ByteSize then .error .nameTooLong
    else
      match place with
      | .outside => .error .notFound
      | .inside names =>
        match f.entry? (names ++ [name]) with
        | some _ => .ok (.inside (names ++ [name]))
        | none => .error .notFound

/-- Follows the names of a path. -/
def follow (f : Folder) : Place → List String → Except FileError Place
  | place, [] => .ok place
  | place, name :: rest =>
    if f.isOpen place then
      match f.enter place name with
      | .ok place => f.follow place rest
      | .error e => .error e
    else .error .notFolder

/-- The text of the file at a path. -/
def read (f : Folder) (path : String) : Except FileError String :=
  if '\x00' ∈ path.toList then .error .nulInName
  else if path = "" then .error .notFound
  else if maxPath < path.utf8ByteSize then .error .nameTooLong
  else
    let start := if path.toList.head? = some '/' then .outside else .inside []
    match f.follow start (names path) with
    | .error e => .error e
    | .ok .outside => .error .isFolder
    | .ok (.inside names) =>
      match f.entry? names with
      | some (.file content) =>
        match String.fromUTF8? content with
        | some text => .ok text
        | none => .error .notText
      | some .folder => .error .isFolder
      | none => .error .notFound

end Folder

/-- The program in a text that was to be read from a path. -/
def Program.ofFile (path : String) : Except FileError String → Except Error Program
  | .ok text => Program.parse text
  | .error e => .error (e.toError path)

/-- The program at a path in a folder. -/
def Program.load (f : Folder) (path : String) : Except Error Program :=
  Program.ofFile path (f.read path)

end Intcode
