import Intcode.Command.Arguments
import Intcode.Folder
import Intcode.Log.Journal
import Intcode.Terminal

/-!
# Intcode/Command/Report — what a command shows, and how it exits

A command is a function from the text of its file, the lines typed at the terminal and the level of
the log to a **report**: the lines on the standard output, the messages on the error output, and
the exit status.  Status 0 is success, 1 an error of the program or its file, 2 a misuse of the
arguments or the want of a terminal.

Outputs are shown as they come, so those before an error stay; the memory is shown only when the
machine halts.
-/

namespace Intcode.Command

/-- What a command shows, and how it exits. -/
structure Report where
  status : Nat
  /-- The lines on the standard output. -/
  output : Array String := #[]
  /-- The messages on the error output.  A path in a message may bring line ends of its own. -/
  errors : Array String := #[]
  /-- The number of prompts that the terminal has shown. -/
  prompts : Nat := 0
deriving DecidableEq

/-- A line without the carriage return at its end, if there is one. -/
def dropReturn (line : List Char) : List Char :=
  if line.getLast? = some '\r' then line.dropLast else line

/-- The lines that a message takes, without their ends: a line feed ends a line, and so does a
carriage return with a line feed. -/
def lines (message : String) : List String :=
  (message.toList.splitOn '\n').map (String.ofList <| dropReturn ·)

/-- The lines on the error output. -/
def Report.errorLines (r : Report) : Array String := r.errors.flatMap fun m => (lines m).toArray

/-- A text in bold, as terminals show it. -/
def bold (text : String) : String := "\x1b[1m" ++ text ++ "\x1b[0m"

/-- Those entries of a log that show at a level, as messages.  Below `debug` there are none, and
the log is not even made. -/
def logMessages (level : LogLevel) (log : Unit → Array LogEntry) : Array String :=
  if level.rank < LogLevel.debug.rank then #[]
  else ((log ()).filter (·.showsAt level)).map LogEntry.text

/-- The cycles between two looks at the machine. -/
def driveCycles : Nat := 5000

/-- Runs a machine to its end, slice after slice: how it ended, and all that it has written by
then.  Its source is told of every output. -/
def drive {σ : Type} [Source σ] :
    Nat → Array Word → Machine σ → Outcome Unit × Array Word × Machine σ
  | 0, outputs, m => (.unfinished, outputs, m)
  | patience + 1, outputs, m =>
    match m.execute driveCycles with
    | (.ok .running, m) => drive patience outputs m
    | (.ok (.output value), m) => drive patience (outputs.push value) (m.observe value)
    | (.ok .halted, m) => (.done (), outputs, m)
    | (.error e, m) => (.failed e, outputs, m)

/-- The status of a run that has come out so, and the message of an error. -/
def conclude {α : Type} : Outcome α → Nat × Array String
  | .done _ => (0, #[])
  | .failed e => (1, #[bold e.text])
  | .unfinished => (1, #[])

/-- Puts a word at an address, if one is given, unless the address is too high. -/
def patch {σ : Type} (m : Machine σ) (address : Nat) (value : Option Word) :
    Except Error Unit × Machine σ :=
  match value with
  | some value => m.poke address value
  | none => (.ok (), m)

/-- The machine that `run` starts: reset, and patched.  A patch that is refused is the last. -/
def prepare (program : Program) (inputs : List Word) (noun verb : Option Word) :
    Except Error Unit × Machine Empty :=
  match patch ((Machine.create program).reset inputs) 1 noun with
  | (.ok (), m) => patch m 2 verb
  | refused => refused

/-- A patch is refused only beyond the last address. -/
theorem fst_patch {σ : Type} (m : Machine σ) {address : Nat} (h : address ≤ maxAddress)
    (value : Option Word) : (patch m address value).1 = .ok () := by
  cases value with
  | none => rfl
  | some value => rw [patch, Machine.poke, Memory.refusal?_eq_none_iff.mpr h]

/-- **No patch of `run` is refused.** -/
theorem prepare_eq (program : Program) (inputs : List Word) (noun verb : Option Word) :
    prepare program inputs noun verb = (.ok (), (prepare program inputs noun verb).2) := by
  have hnoun := fst_patch ((Machine.create program : Machine Empty).reset inputs)
    (show 1 ≤ maxAddress by decide) noun
  refine Prod.ext ?_ rfl
  unfold prepare
  generalize patch ((Machine.create program).reset inputs) 1 noun = first at hnoun
  obtain ⟨_, m⟩ := first
  cases hnoun
  exact fst_patch m (by decide) verb

/-- The log of a machine that was made and reset. -/
def startLog {σ : Type} (program : Program) (reset : Machine σ) : Array LogEntry :=
  #[(Machine.create program : Machine σ).resetEntry, reset.resetEntry]

/-- The log of a machine's whole life: made, reset, and run to its end. -/
def lifeLog {σ : Type} [Source σ] (patience : Nat) (program : Program) (reset m : Machine σ) :
    Array LogEntry :=
  m.journal true (patience * driveCycles) (startLog program reset)

/-- Runs a program to its end.  If a patch is refused, it does not run at all. -/
def reportRun (patience : Nat) (level : LogLevel) (program : Program) (inputs : List Word)
    (noun verb : Option Word) (dump : Bool) : Report :=
  let reset := (Machine.create program).reset inputs
  match prepare program inputs noun verb with
  | (.error e, _) =>
    { status := 1, errors := logMessages level (fun _ => startLog program reset) ++ #[bold e.text] }
  | (.ok (), m) =>
    match drive patience #[] m with
    | (outcome, outputs, last) =>
      let log := logMessages level fun _ => lifeLog patience program reset m
      let memory :=
        match outcome, dump with
        | .done (), true => #[String.ofList (Program.renderChars last.memory.words)]
        | _, _ => #[]
      { status := (conclude outcome).1
        output := outputs.map Word.text ++ memory
        errors := log ++ (conclude outcome).2 }

/-- Runs a program to its end, with a terminal for its source. -/
def reportInteractive (patience : Nat) (level : LogLevel) (program : Program) (inputs : List Word)
    (typed : List String) : Report :=
  let m := ((Machine.create program).reset inputs).withSource (some (Terminal.mk typed 0 #[]))
  match drive patience #[] m with
  | (outcome, _, last) =>
    let log := logMessages level fun _ => lifeLog patience program m m
    let terminal := last.input.source.getD ⟨[], 0, #[]⟩
    { status := (conclude outcome).1
      output := terminal.screen
      errors := log ++ (conclude outcome).2
      prompts := terminal.prompts }

/-- Searches for the best order of five phases: from 5 with feedback, else from 0. -/
def reportAmplify (patience : Nat) (level : LogLevel) (program : Program) (feedback : Bool) :
    Report :=
  let wiring : Circuit.Wiring := if feedback then .feedback else .pipeline
  let start := Word.wrap (if feedback then 5 else 0)
  let stop := Word.wrap (if feedback then 10 else 5)
  let outcome := PhaseSearch.maxSignal patience program start stop wiring
  let log := logMessages level fun _ => PhaseSearch.journal patience program start stop wiring
  let found :=
    match outcome with
    | .done (some (order, signal)) => #[",".intercalate (order.map Word.text) ++ " " ++ signal.text]
    | _ => #[]
  { status := (conclude outcome).1
    output := found
    errors := log ++ (conclude outcome).2 }

/-- The report when there is no terminal to ask at; the program does not run at all. -/
def noTerminal : Report :=
  { status := 2, errors := #["Inappropriate ioctl for device (os error 25)"] }

/-- Carries a command out on the text of its file, with the lines typed at the terminal, if there
is one.  The file is looked at first, and the terminal only where it is needed. -/
def report (patience : Nat) (level : LogLevel) (command : Command)
    (file : Except FileError String) (typed : Option (List String)) : Report :=
  match Program.ofFile command.path file with
  | .error e => { status := 1, errors := #[bold e.text] }
  | .ok program =>
    let loaded := logMessages level fun _ => #[.loaded command.path program.size]
    let report :=
      match command, typed with
      | .run _ inputs noun verb dump, _ =>
        reportRun patience level program inputs noun verb dump
      | .interactive _ inputs, some typed => reportInteractive patience level program inputs typed
      | .interactive .., none => noTerminal
      | .amplify _ feedback, _ => reportAmplify patience level program feedback
    { report with errors := loaded ++ report.errors }

/-- The version of the program. -/
def versionLine : String := "intcode 0.3.0"

/-- How to use the program. -/
def usage : Array String :=
  #["Run Intcode programs", "",
    "Usage: intcode run <PATH> [-i <INPUT>]... [--noun <NOUN>] [--verb <VERB>] [--dump]",
    "       intcode interactive <PATH> [-i <INPUT>]...",
    "       intcode amplify <PATH> [--feedback]",
    "       intcode --help | --version"]

/-- Carries out what the arguments ask for, given what each path reads as. -/
def Request.report (patience : Nat) (level : LogLevel) (read : String → Except FileError String)
    (typed : Option (List String)) : Request → Report
  | .command c => c.report patience level (read c.path) typed
  | .help => { status := 0, output := usage }
  | .version => { status := 0, output := #[versionLine] }
  | .misuse => { status := 2, errors := usage }

end Intcode.Command
