import Intcode.Command.Report

/-!
# Intcode/Main — the command line

The outermost layer: it reads the file and the typed lines, and prints what the report says.  The
level of the log is taken from the environment variable `RUST_LOG`.
-/

open Intcode Intcode.Command

/-- How long a run may take, in slices: longer than anybody waits. -/
def patience : Nat := 1099511627776

/-- The reason behind a number of the system, which some of its calls give with a minus sign. -/
def refusalOf (code : UInt32) (reason : String) : FileError :=
  match code.toInt32.toInt.natAbs with
  | 20 => .notFolder
  | 21 => .isFolder
  | 36 => .nameTooLong
  | number => .other (reason ++ " (os error " ++ toString number ++ ")")

/-- Why the system gives no file. -/
def refusal : IO.Error → FileError
  | .noFileOrDirectory .. => .notFound
  | .inappropriateType _ code reason
  | .invalidArgument _ code reason
  | .permissionDenied _ code reason => refusalOf code reason
  | e => .other (toString e)

/-- The text of a file of the system. -/
def readText (path : String) : IO (Except FileError String) := do
  try
    match String.fromUTF8? (← IO.FS.readBinFile path) with
    | some text => return .ok text
    | none => return .error .notText
  catch e => return .error (refusal e)

/-- Shows the report on the lines typed so far.  If the run wanted one line more, types it and goes
on from there; the lines shown by then are not shown again. -/
partial def converse (report : List String → Report) (typed : List String) (shown : Nat) :
    IO Report := do
  let r := report typed
  for line in r.output[shown:] do
    IO.println line
  if r.prompts ≤ typed.length then return r
  IO.print "? "
  (← IO.getStdout).flush
  let line ← (← IO.getStdin).getLine
  if line.isEmpty then return r
  converse report (typed ++ [String.ofList (line.toList.filter (· ≠ '\n'))]) r.output.size

/-- Carries out what the arguments ask for. -/
def main (args : List String) : IO UInt32 := do
  let request := Request.read args
  let level := ((← IO.getEnv "RUST_LOG").bind LogLevel.ofName?).getD .off
  let file ← match request with
    | .command command => readText command.path
    | _ => pure (.error .notFound)
  let atTerminal ← (← IO.getStdin).isTty
  let r ← converse (fun typed =>
    request.report patience level (fun _ => file) (if atTerminal then some typed else none)) [] 0
  for line in r.errors do
    IO.eprintln line
  return r.status.toUInt32
