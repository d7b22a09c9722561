import Intcode.Proofs.Lockstep

/-!
# Proofs/Command/Run — what `run` shows is what the library's machine does

The command `run` makes a machine of the program in the file, gives it its inputs, patches two words
and drives it to its end, in slices of its own size.  A patch of a machine that was just reset is
the same as an edit of its program, and a machine never looks at its program while it runs.  So all
that the command shows is what a machine of the edited program does from output to output.

* `Program.edit` — a program with one word changed, extended if need be;
* `Machine.Kin.lockstep` — machines that differ at most in their programs go in lockstep;
* `Command.kin_prepare` — the command's machine and that of the edited program are such;
* `Command.run_shows` — what the command shows, and how it exits.
-/

namespace Intcode

/-! ## Edited programs -/

/-- The program with a word put at an address, if one is given.  An image that ends before the
address is extended by zeros, just as far as that. -/
def Program.edit (p : Program) (address : Nat) : Option Word → Program
  | none => p
  | some word =>
    ⟨(p.image ++ Array.replicate (address + 1 - p.image.size) 0).setIfInBounds address word⟩

/-- **A write in memory is an edit of its image.** -/
theorem Memory.set_image (p : Program) (address : Nat) (word : Word) :
    (⟨p.image⟩ : Memory).set address word = ⟨(p.edit address (some word)).image⟩ := by
  rw [Program.edit]
  unfold set
  split
  next h =>
    have hnone : address + 1 - p.image.size = 0 := Nat.sub_eq_zero_of_le h
    simp [hnone, Array.setIfInBounds, h]
  next h =>
    have hmore : address + 1 - p.image.size = address - p.image.size + 1 :=
      Nat.succ_sub (Nat.le_of_not_lt h)
    have hsize : (p.image ++ Array.replicate (address - p.image.size) 0).size = address := by
      simp only [Array.size_append, Array.size_replicate]
      omega
    -- the last zero of the extension is the cell that is set
    rw [hmore, Array.replicate_succ, Array.append_push, Array.setIfInBounds_def, dif_pos,
      Array.set_push, dif_neg]
    · rw [hsize]
      exact Nat.lt_irrefl address
    · rw [Array.size_push, hsize]
      exact Nat.lt_succ_self address

/-! ## Machines that differ in their programs -/

namespace Machine

variable {σ : Type}

/-- The machine with another program behind it, which it will not look at before its next reset. -/
def withProgram (m : Machine σ) (program : Program) : Machine σ := { m with program := program }

/-- Machines are **kin** if they differ at most in their programs. -/
def Kin (m other : Machine σ) : Prop := ∃ program, other = m.withProgram program

namespace Kin

variable {m other : Machine σ}

theorem symm (h : Kin m other) : Kin other m := by
  obtain ⟨program, rfl⟩ := h
  exact ⟨m.program, rfl⟩

theorem memory (h : Kin m other) : m.memory = other.memory := by
  obtain ⟨program, rfl⟩ := h
  rfl

variable [Source σ]

/-- **A machine does not look at its program while it runs.** -/
theorem lockstep : Lockstep (fun _ => True) (Kin (σ := σ)) where
  pc := fun ⟨_, h⟩ => h ▸ rfl
  state := fun ⟨_, h⟩ => h ▸ rfl
  fault := fun ⟨_, h⟩ => h ▸ rfl
  plan := fun ⟨_, h⟩ => h ▸ rfl
  withRecord _ _ := fun ⟨program, h⟩ => ⟨program, h ▸ rfl⟩
  setPc _ := fun ⟨program, h⟩ => ⟨program, h ▸ rfl⟩
  setBase _ := fun ⟨program, h⟩ => ⟨program, h ▸ rfl⟩
  setMemory _ _ := fun ⟨program, h⟩ => ⟨program, h ▸ rfl⟩
  pop := by
    rintro m _ op target ⟨program, rfl⟩ - - -
    exact ⟨rfl, program, rfl⟩

end Kin

/-- A machine that has no source has none to tell of its outputs. -/
theorem observe_eq (m : Machine Empty) (value : Word) : m.observe value = m := by
  obtain ⟨_, _, _, _, ⟨_, _ | source⟩, _, _⟩ := m
  · rfl
  · exact source.elim

theorem observe_eq_idle : (observe : Machine Empty → Word → Machine Empty) = fun m _ => m :=
  funext fun m => funext fun value => m.observe_eq value

/-- A machine without a source, run to its end by a command, ends as by itself. -/
theorem ends_observe_iff {outputs : Array Word} {m : Machine Empty}
    {result : Outcome Unit × Array Word × Machine Empty} :
    Ends observe outputs m result ↔ Ends (fun m _ => m) outputs m result := by
  rw [observe_eq_idle]

/-- **Run from output to output, the machine comes to this**: how it ends, all that it has written
by then, and the machine afterwards. -/
def RunsTo [Source σ] (m : Machine σ) (outcome : Outcome Unit) (outputs : Array Word)
    (last : Machine σ) : Prop :=
  ComesTo (fun patience => deliverNext (fun m _ => m) patience patience #[] m)
    (outcome, outputs, last)

variable {m other last : Machine Empty} {outcome : Outcome Unit} {outputs : Array Word}

/-- What a machine comes to from output to output, its kin comes to in the slices of a command. -/
theorem Kin.drive (h : Kin m other) (hruns : m.RunsTo outcome outputs last) :
    ∃ last', Kin last last' ∧ ComesTo (Command.drive · #[] other) (outcome, outputs, last') := by
  obtain ⟨last', hends, hlast⟩ :=
    lockstep.ends (fun _ _ _ hkin => hkin) h (ends_iff_deliverNext.mpr hruns)
  exact ⟨last', hlast, ends_iff_drive.mp (ends_observe_iff.mpr hends)⟩

/-- What a machine comes to in the slices of a command, its kin comes to from output to output. -/
theorem Kin.runsTo (h : Kin m other) {patience : Nat}
    (hdrive : Command.drive patience #[] m = (outcome, outputs, last))
    (hend : outcome ≠ .unfinished) : ∃ last', other.RunsTo outcome outputs last' := by
  have hdelivered := ends_of_deliver ((drive_eq_deliver patience #[] m).symm.trans hdrive) hend
  obtain ⟨last', hends, -⟩ :=
    lockstep.ends (fun _ _ _ hkin => hkin) h (ends_observe_iff.mp hdelivered)
  exact ⟨last', ends_iff_deliverNext.mp hends⟩

end Machine

/-! ## The command -/

namespace Command

open Machine

/-- **A patch right after a reset is an edit of the program.** -/
theorem patch_reset (program edited : Program) (inputs : List Word) {address : Nat}
    (haddress : address ≤ maxAddress) (word : Option Word) :
    patch (((create edited : Machine Empty).reset inputs).withProgram program) address word =
      (.ok (), ((create (edited.edit address word)).reset inputs).withProgram program) := by
  cases word with
  | none => rfl
  | some word =>
    rw [patch, poke_of_le haddress]
    refine congrArg (Except.ok (), ·) ?_
    exact Machine.ext rfl (Memory.set_image edited address word) rfl rfl rfl rfl rfl

/-- **The machine that `run` starts is kin to that of the edited program**. -/
theorem kin_prepare (program : Program) (inputs : List Word) (noun verb : Option Word) :
    Kin ((create ((program.edit 1 noun).edit 2 verb)).reset inputs)
      (prepare program inputs noun verb).2 := by
  refine ⟨program, ?_⟩
  have hnew : (create program : Machine Empty).reset inputs =
      ((create program : Machine Empty).reset inputs).withProgram program := rfl
  rw [prepare, hnew, patch_reset program program inputs (by decide)]
  exact congrArg Prod.snd (patch_reset program _ inputs (by decide) verb)

/-- Memory on one line: its words, with commas between them. -/
def memoryLine (memory : Memory) : String := ",".intercalate (memory.words.toList.map Word.text)

theorem renderChars_eq_memoryLine (memory : Memory) :
    String.ofList (Program.renderChars memory.words) = memoryLine memory := by
  have hchars : (memory.words.toList.map Word.text).map String.toList =
      memory.words.toList.map Word.chars := by
    simp only [List.map_map, Function.comp_def, Word.text, String.toList_ofList]
  rw [← String.toList_inj, String.toList_ofList, memoryLine, String.toList_intercalate, hchars]
  rfl

/-- All that `run` logs: that its program is loaded, and the life of its machine. -/
def runLog (level : LogLevel) (patience : Nat) (path : String) (program : Program)
    (inputs : List Word) (noun verb : Option Word) : Array String :=
  logMessages level (fun _ => #[.loaded path program.size]) ++
    logMessages level fun _ => lifeLog patience program ((create program).reset inputs)
      (prepare program inputs noun verb).2

section Report

variable (level : LogLevel) {path : String} {file : Except FileError String}
  (typed : Option (List String)) {inputs : List Word} {noun verb : Option Word} (dump : Bool)
  {program : Program} {patience : Nat} {outcome : Outcome Unit} {outputs : Array Word}
  {last : Machine Empty}

/-- Below `debug` nothing is logged. -/
theorem logMessages_of_quiet {level : LogLevel} (hquiet : level.rank < LogLevel.debug.rank)
    (log : Unit → Array LogEntry) : logMessages level log = #[] :=
  if_pos hquiet

/-- Only a run to a halt is a success. -/
theorem eq_done_of_conclude (h : (conclude outcome).1 = 0) : outcome = .done () := by
  match outcome with
  | .done () => rfl
  | .failed _ | .unfinished => cases h

/-- What a run that has come out so is reported as, with its log. -/
theorem report_run_eq (hfile : Program.ofFile path file = .ok program)
    (hdrive : drive patience #[] (prepare program inputs noun verb).2 = (outcome, outputs, last)) :
    report patience level (.run path inputs noun verb dump) file typed =
      { status := (conclude outcome).1
        output := outputs.map Word.text ++
          if outcome = .done () ∧ dump then #[memoryLine last.memory] else #[]
        errors :=
          runLog level patience path program inputs noun verb ++ (conclude outcome).2 } := by
  simp only [report, Command.path, hfile, runLog, Array.append_assoc]
  rw [reportRun, prepare_eq]
  simp only [hdrive]
  -- the memory is shown in one of the six cases
  obtain _ | e | _ := outcome <;> cases dump <;> simp [renderChars_eq_memoryLine]

/-- What a run that has come out so is reported as. -/
theorem report_run (hfile : Program.ofFile path file = .ok program)
    (hdrive : drive patience #[] (prepare program inputs noun verb).2 = (outcome, outputs, last)) :
    ∃ log, (level.rank < LogLevel.debug.rank → log = #[]) ∧
      report patience level (.run path inputs noun verb dump) file typed =
        { status := (conclude outcome).1
          output := outputs.map Word.text ++
            if outcome = .done () ∧ dump then #[memoryLine last.memory] else #[]
          errors := log ++ (conclude outcome).2 } := by
  refine ⟨_, fun hquiet => ?_, report_run_eq level typed dump hfile hdrive⟩
  rw [runLog, logMessages_of_quiet hquiet, logMessages_of_quiet hquiet]
  rfl

/-- What the machine of the edited program comes to is what the command reports. -/
theorem report_of_runsTo (hfile : Program.ofFile path file = .ok program)
    (hruns : ((create ((program.edit 1 noun).edit 2 verb)).reset inputs).RunsTo
      outcome outputs last) :
    ∃ enough, ∀ patience, enough ≤ patience →
      ∃ log, (level.rank < LogLevel.debug.rank → log = #[]) ∧
        report patience level (.run path inputs noun verb dump) file typed =
          { status := (conclude outcome).1
            output := outputs.map Word.text ++
              if outcome = .done () ∧ dump then #[memoryLine last.memory] else #[]
            errors := log ++ (conclude outcome).2 } := by
  obtain ⟨last', hlast, -, enough, hdrive⟩ := (kin_prepare program inputs noun verb).drive hruns
  refine ⟨enough, fun patience hp => ?_⟩
  rw [hlast.memory]
  exact report_run level typed dump hfile (hdrive patience hp)

end Report

/-- **What `run` shows is what a machine of the edited program does.**  The edited program is that
of the file with `noun` at 1 and `verb` at 2, where these are given.  If its machine halts, given the
inputs and run from output to output, then the command shows its outputs on a line each, and with
`dump` its memory behind them, and exits with 0.  If it fails, then the command shows the outputs up
to then, and on the error output what failed, and exits with 1.  The command exits with 0 in no
other case; and if there is no program in the file, it says so and exits with 1.  What is logged
comes before the error, and by default nothing is. -/
theorem run_shows (level : LogLevel) (path : String) (file : Except FileError String)
    (typed : Option (List String)) (inputs : List Word) (noun verb : Option Word) (dump : Bool) :
    let shown := fun patience =>
      report patience level (.run path inputs noun verb dump) file typed
    (∀ e, Program.ofFile path file = .error e →
      ∀ patience, shown patience = { status := 1, output := #[], errors := #[bold e.text] }) ∧
    ∀ program, Program.ofFile path file = .ok program →
      let m : Machine Empty := (create ((program.edit 1 noun).edit 2 verb)).reset inputs
      (∀ outputs last, m.RunsTo (.done ()) outputs last →
        ∃ enough, ∀ patience, enough ≤ patience →
          ∃ log, (level.rank < LogLevel.debug.rank → log = #[]) ∧
            shown patience =
              { status := 0
                output := outputs.map Word.text ++
                  if dump then #[memoryLine last.memory] else #[]
                errors := log }) ∧
      (∀ e outputs last, m.RunsTo (.failed e) outputs last →
        ∃ enough, ∀ patience, enough ≤ patience →
          ∃ log, (level.rank < LogLevel.debug.rank → log = #[]) ∧
            shown patience =
              { status := 1
                output := outputs.map Word.text
                errors := log ++ #[bold e.text] }) ∧
      ∀ patience, (shown patience).status = 0 →
        ∃ outputs last, m.RunsTo (.done ()) outputs last := by
  intro shown
  refine ⟨fun e hfile patience => ?_, fun program hfile => ?_⟩
  · simp only [shown, report, Command.path, hfile]
  · intro m
    refine ⟨fun outputs last hruns => ?_, fun e outputs last hruns => ?_,
      fun patience hstatus => ?_⟩
    · obtain ⟨enough, hshown⟩ := report_of_runsTo level typed dump hfile hruns
      exact ⟨enough, fun patience hp => by simpa [conclude] using hshown patience hp⟩
    · obtain ⟨enough, hshown⟩ := report_of_runsTo level typed dump hfile hruns
      exact ⟨enough, fun patience hp => by simpa [conclude] using hshown patience hp⟩
    · rcases hdrive : drive patience #[] (prepare program inputs noun verb).2 with
        ⟨outcome, outputs, last⟩
      obtain ⟨log, -, hshown⟩ := report_run level typed dump hfile hdrive
      obtain rfl := eq_done_of_conclude ((congrArg Report.status hshown).symm.trans hstatus)
      exact ⟨outputs, (kin_prepare program inputs noun verb).symm.runsTo hdrive nofun⟩

/-- A program of one word, with two patches behind its end: it writes the first and halts at the
second.  Without the second it stands in front of a word that is no instruction, and the output
stays.  And a file with an empty record. -/
theorem run_shows_patched :
    let file : Except FileError String := .ok "104"
    let seven := some (Word.wrap 7)
    (∃ enough, ∀ patience, enough ≤ patience →
        report patience .off (.run "p" [] seven (some (.wrap 99)) true) file none =
          { status := 0, output := #["7", "104,7,99"] }) ∧
      (∃ enough, ∀ patience, enough ≤ patience →
        report patience .off (.run "p" [] seven none true) file none =
          { status := 1, output := #["7"], errors := #[bold "INVALID OPCODE AT 2 (0)"] }) ∧
      ∀ patience, report patience .off (.run "p" [] seven none true) (.ok "104,,99") none =
        { status := 1, errors := #[bold "SYNTAX ERROR; EMPTY RECORD 1"] } := by
  have hfile : Program.ofFile "p" (.ok "104") = .ok ⟨#[.wrap 104]⟩ := rfl
  obtain ⟨-, hhalts⟩ :=
    run_shows .off "p" (.ok "104") none [] (some (.wrap 7)) (some (.wrap 99)) true
  obtain ⟨-, hfails⟩ := run_shows .off "p" (.ok "104") none [] (some (.wrap 7)) none true
  obtain ⟨hempty, -⟩ := run_shows .off "p" (.ok "104,,99") none [] (some (.wrap 7)) none true
  obtain ⟨enough, hhalts⟩ :=
    (hhalts _ hfile).1 _ _ (ends_iff_deliverNext.mp (.output rfl (.halted rfl)))
  obtain ⟨enough', hfails⟩ :=
    (hfails _ hfile).2.1 _ _ _ (ends_iff_deliverNext.mp (.output rfl (.failed rfl)))
  refine ⟨⟨enough, fun patience hp => ?_⟩, ⟨enough', fun patience hp => ?_⟩, fun patience => ?_⟩
  · obtain ⟨log, hlog, hshown⟩ := hhalts patience hp
    obtain rfl := hlog (by decide)
    exact hshown.trans (by decide +kernel)
  · obtain ⟨log, hlog, hshown⟩ := hfails patience hp
    obtain rfl := hlog (by decide)
    exact hshown.trans (by decide +kernel)
  · exact (hempty (.emptyRecord 1) rfl patience).trans (by decide +kernel)

end Command

end Intcode
