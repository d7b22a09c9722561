import Intcode.Command
import Intcode.Text.Numeral

/-!
# Intcode/Command/Arguments — the words of the command line

The first argument names the task, and the others belong to it: one path, and options in any order
around it.  An option's value follows it as the next argument, or behind an equals sign, or, after
a letter, at once.  Values are numerals, so a leading minus sign does not make one an option.  After
`--` every argument is a path.  Only the option for inputs may be repeated.

The arguments are taken from left to right, and the first that decides the matter, a mistake or a
wish for help, does so alone.
-/

namespace Intcode.Command

/-- What the arguments ask for. -/
inductive Request
  | command (command : Command)
  | help
  | version
  /-- The arguments make no sense. -/
  | misuse
deriving DecidableEq

/-- The tasks. -/
inductive Task
  | run
  | interactive
  | amplify
deriving DecidableEq

/-- The task with a name. -/
def Task.ofName? (name : String) : Option Task :=
  match name with
  | "run" => some .run
  | "interactive" => some .interactive
  | "amplify" => some .amplify
  | _ => none

/-- The options of the tasks. -/
inductive Flag
  | input
  | noun
  | verb
  | dump
  | feedback
  | help
deriving DecidableEq

/-- The option with a long name, if the task has it. -/
def Flag.ofName? (task : Task) (name : String) : Option Flag :=
  match name, task with
  | "input", .run | "input", .interactive => some .input
  | "noun", .run => some .noun
  | "verb", .run => some .verb
  | "dump", .run => some .dump
  | "feedback", .amplify => some .feedback
  | "help", _ => some .help
  | _, _ => none

/-- The option with a letter, if the task has it. -/
def Flag.ofLetter? (task : Task) (letter : Char) : Option Flag :=
  match letter, task with
  | 'i', .run | 'i', .interactive => some .input
  | 'h', _ => some .help
  | _, _ => none

/-- What the arguments so far have said. -/
structure Draft where
  path : Option String := none
  inputs : Array Word := #[]
  noun : Option Word := none
  verb : Option Word := none
  dump : Bool := false
  feedback : Bool := false
deriving DecidableEq

namespace Draft

/-- The request for help, or the misuse, that ends the reading of arguments, or a longer draft. -/
abbrev Next := Except Request Draft

/-- Takes in the path; there is one, and it is not empty. -/
def takePath (d : Draft) (path : String) : Next :=
  if path = "" ∨ d.path.isSome then .error .misuse else .ok { d with path := some path }

/-- Takes in the value of an option, which is a word. -/
def takeValue (d : Draft) (flag : Flag) (value : List Char) : Next :=
  match flag, Word.read? value with
  | .input, some word => .ok { d with inputs := d.inputs.push word }
  | .noun, some word => if d.noun.isSome then .error .misuse else .ok { d with noun := some word }
  | .verb, some word => if d.verb.isSome then .error .misuse else .ok { d with verb := some word }
  | _, _ => .error .misuse

/-- Takes in an option that has no value. -/
def takeFlag (d : Draft) : Flag → Next
  | .dump => if d.dump then .error .misuse else .ok { d with dump := true }
  | .feedback => if d.feedback then .error .misuse else .ok { d with feedback := true }
  | .help => .error .help
  | .input | .noun | .verb => .error .misuse

/-- The command, if the path is there. -/
def toRequest (d : Draft) (task : Task) : Request :=
  match d.path, task with
  | none, _ => .misuse
  | some path, .run => .command (.run path d.inputs.toList d.noun d.verb d.dump)
  | some path, .interactive => .command (.interactive path d.inputs.toList)
  | some path, .amplify => .command (.amplify path d.feedback)

end Draft

/-- One argument of a task, taken apart. -/
inductive Argument
  | path (path : String)
  /-- An option with its value, if that is part of the argument. -/
  | option (flag : Flag) (value : Option (List Char))
  /-- The mark after which there are only paths. -/
  | onlyPaths
  | unknown

/-- Whether an option needs a value. -/
def Flag.takesValue : Flag → Bool
  | .input | .noun | .verb => true
  | .dump | .feedback | .help => false

/-- Takes an argument of a task apart.  In a group of letters only the first can matter: an option
with a value takes the rest, and help is an end. -/
def Argument.read (task : Task) (argument : String) : Argument :=
  match argument.toList with
  | ['-', '-'] => .onlyPaths
  | '-' :: '-' :: text =>
    let name := text.takeWhile (· ≠ '=')
    match Flag.ofName? task (String.ofList name), text.dropWhile (· ≠ '=') with
    | none, _ => .unknown
    | some flag, [] => .option flag none
    | some flag, _ :: value => .option flag (some value)
  | '-' :: letter :: rest =>
    match Flag.ofLetter? task letter, rest with
    | none, _ => .unknown
    | some .input, [] => .option .input none
    | some .input, '=' :: value => .option .input (some value)
    | some .input, value => .option .input (some value)
    | some flag, _ => .option flag none
  | _ => .path argument

/-- Takes in arguments of which each is a path. -/
def readPaths (task : Task) : Draft → List String → Request
  | draft, [] => draft.toRequest task
  | draft, path :: rest =>
    match draft.takePath path with
    | .ok draft => readPaths task draft rest
    | .error request => request

/-- Takes in the arguments of a task. -/
def readTask (task : Task) : Draft → List String → Request
  | draft, [] => draft.toRequest task
  | draft, argument :: rest =>
    match Argument.read task argument with
    | .onlyPaths => readPaths task draft rest
    | .unknown => .misuse
    | .path path =>
      match draft.takePath path with
      | .ok draft => readTask task draft rest
      | .error request => request
    | .option flag (some value) =>
      match draft.takeValue flag value with
      | .ok draft => readTask task draft rest
      | .error request => request
    | .option flag none =>
      if flag.takesValue then
        match rest with
        | [] => .misuse
        | value :: rest =>
          match draft.takeValue flag value.toList with
          | .ok draft => readTask task draft rest
          | .error request => request
      else
        match draft.takeFlag flag with
        | .ok draft => readTask task draft rest
        | .error request => request

/-- The request for help about a task, or about help itself. -/
def readHelp : List String → Request
  | [] => .help
  | ["help"] => .help
  | [name] => if (Task.ofName? name).isSome then .help else .misuse
  | _ => .misuse

/-- What the arguments of the program ask for. -/
def Request.read : List String → Request
  | [] => .misuse
  | first :: rest =>
    match Task.ofName? first with
    | some task => readTask task {} rest
    | none =>
      match first.toList with
      | ['h', 'e', 'l', 'p'] => readHelp rest
      | ['-', '-', 'h', 'e', 'l', 'p'] => .help
      | ['-', '-', 'v', 'e', 'r', 's', 'i', 'o', 'n'] => .version
      | '-' :: 'h' :: _ => .help
      | '-' :: 'V' :: _ => .version
      | _ => .misuse

end Intcode.Command
