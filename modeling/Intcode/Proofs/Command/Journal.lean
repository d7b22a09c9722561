import Intcode.Proofs.Command.Run
import Intcode.Proofs.Journal

/-!
# Proofs/Command/Journal — the log of `run` replays the run

The machine of `run` is made and reset, and then runs to its end in the slices of the command.  At
the level `trace` the log of this is that of its instructions, behind a line for the program and one
for each reset.  At `debug` it is what is left of that.

* `LogEntry.showsAt_debug` — what shows at `debug` are the lines that begin so;
* `Command.lifeLog_eq` — the life of the machine as a log of its instructions;
* `Command.log_replays_run` — what the command logs at the two levels.
-/

namespace Intcode

/-- What a text starts with that is not longer than its title is settled by the title. -/
theorem startsWith_append {start title : String} (h : start.toList.length ≤ title.toList.length)
    (rest : String) : (title ++ rest).startsWith start = title.startsWith start := by
  rw [Bool.eq_iff_iff, String.startsWith_string_iff, String.startsWith_string_iff,
    String.toList_append]
  have htitle := List.prefix_append title.toList rest.toList
  exact ⟨fun hstart => List.prefix_of_prefix_length_le hstart htitle h,
    fun hstart => hstart.trans htitle⟩

namespace LogEntry

theorem showsAt_trace (entry : LogEntry) : entry.showsAt .trace = true := by
  cases entry <;> rfl

/-- **What shows at `debug` are the lines that begin so.** -/
theorem showsAt_debug (entry : LogEntry) :
    entry.showsAt .debug = entry.text.startsWith "DEBUG " := by
  cases entry with
  | step | output =>
    change false = _
    dsimp only [text]
    rw [String.append_assoc, String.append_assoc, startsWith_append (by decide)]
    decide +kernel
  | loaded | reset | searched =>
    change true = _
    dsimp only [text]
    rw [String.append_assoc, String.append_assoc, startsWith_append (by decide)]
    decide +kernel
  | halted | fault =>
    change true = _
    dsimp only [text]
    rw [startsWith_append (by decide)]
    decide +kernel

end LogEntry

namespace Command

open Machine

theorem logMessages_trace (log : Unit → Array LogEntry) :
    logMessages .trace log = (log ()).map LogEntry.text := by
  rw [logMessages, if_neg (by decide),
    Array.filter_eq_self.mpr fun entry _ => entry.showsAt_trace]

theorem logMessages_debug (log : Unit → Array LogEntry) :
    logMessages .debug log = ((log ()).map LogEntry.text).filter (·.startsWith "DEBUG ") := by
  rw [logMessages, if_neg (by decide), funext LogEntry.showsAt_debug, Array.filter_map]
  rfl

variable {path : String} {program : Program} {inputs : List Word} {noun verb : Option Word}
  {visits : List (Machine Empty)} {outcome : Outcome Unit} {patience : Nat}

theorem live_prepare (program : Program) (inputs : List Word) (noun verb : Option Word) :
    (prepare program inputs noun verb).2.state.Live := by
  obtain ⟨_, h⟩ := kin_prepare program inputs noun verb
  rw [h]
  trivial

/-- **The log of a machine's life is that of its instructions**, behind its two resets. -/
theorem lifeLog_eq
    (h : ((prepare program inputs noun verb).2.withState .running).Course visits outcome)
    (hend : (drive patience #[] (prepare program inputs noun verb).2).1 ≠ .unfinished) :
    lifeLog patience program ((create program).reset inputs) (prepare program inputs noun verb).2 =
      #[LogEntry.reset program.size 0, .reset program.size inputs.length] ++
        visits.flatMap entries := by
  have hlive := live_prepare program inputs noun verb
  rw [drive_eq_deliver, observe_eq_idle] at hend
  obtain ⟨-, hlength⟩ := slicedLog_eq hlive h hend #[]
  rw [List.sum_replicate_nat] at hlength
  have hcreated : (create program : Machine Empty).resetEntry = .reset program.size 0 := rfl
  have hreset : ((create program : Machine Empty).reset inputs).resetEntry =
      .reset program.size inputs.length := by
    rw [resetEntry, Queue.size_eq, toList_queue_reset]
    rfl
  rw [lifeLog, startLog, journal_of_live hlive, h.journalCycles_eq hlength, hcreated, hreset]

/-- All entries of a run: one for its program, one for each reset of its machine, and then those of
its instructions. -/
def runEntries (path : String) (program : Program) (inputs : List Word) (log : List LogEntry) :
    List LogEntry :=
  .loaded path program.size :: .reset program.size 0 :: .reset program.size inputs.length :: log

/-- **The log of `run` is that of its instructions**, behind the lines for program and resets. -/
theorem runLog_trace
    (h : ((prepare program inputs noun verb).2.withState .running).Course visits outcome)
    (hend : (drive patience #[] (prepare program inputs noun verb).2).1 ≠ .unfinished) :
    runLog .trace patience path program inputs noun verb =
      ((runEntries path program inputs (visits.flatMap entries)).map LogEntry.text).toArray := by
  rw [runLog, logMessages_trace, logMessages_trace, lifeLog_eq h hend, runEntries]
  simp

theorem runLog_debug (patience : Nat) (path : String) (program : Program) (inputs : List Word)
    (noun verb : Option Word) :
    runLog .debug patience path program inputs noun verb =
      (runLog .trace patience path program inputs noun verb).filter (·.startsWith "DEBUG ") := by
  rw [runLog, runLog, logMessages_debug, logMessages_debug, logMessages_trace, logMessages_trace,
    Array.filter_append Array.size_append]

/-- **The log of `run` replays the run**, if that ends.  At the level `trace` it has a line for the
program, one for each reset of the machine, and then those of a log that replays what the machine
does: of each instruction a line for its start, if its word is an instruction at all, and behind it
one for the value that it writes, and in the end one that says how the run came out.  Every way to
cut the run into slices leaves this log behind.  The values that it tells are those that the command
shows, and the error that it tells is the one that the command shows behind it.  At the level
`debug` there are the lines that begin so, and no others. -/
theorem log_replays_run {file : Except FileError String}
    (hfile : Program.ofFile path file = .ok program) (typed : Option (List String))
    (inputs : List Word) (noun verb : Option Word) (dump : Bool) :
    let m := (prepare program inputs noun verb).2
    ∀ outcome outputs last, ComesTo (drive · #[] m) (outcome, outputs, last) →
      ∃ log visits, Replays log m visits #[] (outcome, outputs, last) ∧
        (∀ budgets, (deliver (fun m _ => m) budgets #[] m).1 ≠ .unfinished →
          slicedLog budgets #[] m = log.toArray) ∧
        ∀ patience, (drive patience #[] m).1 ≠ .unfinished →
          let messages := ((runEntries path program inputs log).map LogEntry.text).toArray
          let shown := fun logged : Array String =>
            { status := (conclude outcome).1
              output := outputs.map Word.text ++
                if outcome = .done () ∧ dump then #[memoryLine last.memory] else #[]
              errors := logged ++ (conclude outcome).2 : Report }
          report patience .trace (.run path inputs noun verb dump) file typed = shown messages ∧
          report patience .debug (.run path inputs noun verb dump) file typed =
            shown (messages.filter (·.startsWith "DEBUG ")) := by
  intro m outcome outputs last hcomes
  have hlive : m.state.Live := live_prepare program inputs noun verb
  have hends := ends_iff_drive.mpr hcomes
  obtain ⟨visits, hreplays⟩ := exists_replays hlive (ends_observe_iff.mp hends)
  refine ⟨_, visits, hreplays, fun budgets hend => ?_, fun patience hend => ?_⟩
  · obtain ⟨hlog, -⟩ := slicedLog_eq hlive hreplays.course hend #[]
    rw [hlog]
    simp
  · have hdrive := hends.unique (ends_of_deliver (drive_eq_deliver patience #[] m).symm hend)
    rw [report_run_eq .trace typed dump hfile hdrive, report_run_eq .debug typed dump hfile hdrive,
      runLog_debug, runLog_trace hreplays.course hend]
    exact ⟨rfl, rfl⟩

/-- A program that writes a value, and then reads what nobody gives it: the instruction that fails
has been started. -/
theorem log_replays_run_starved :
    let file : Except FileError String := .ok "104,7,3,0"
    ∃ enough, ∀ patience, enough ≤ patience →
      report patience .trace (.run "p" [] none none false) file none =
          { status := 1
            output := #["7"]
            errors := #["DEBUG loaded program path=p words=4", "DEBUG reset words=4 queued=0",
              "DEBUG reset words=4 queued=0", "TRACE step pc=0 opcode=WRITE",
              "TRACE output value=7 pc=2", "TRACE step pc=2 opcode=READ",
              "DEBUG fault error=INPUT STARVATION AT 2", bold "INPUT STARVATION AT 2"] } ∧
        report patience .debug (.run "p" [] none none false) file none =
          { status := 1
            output := #["7"]
            errors := #["DEBUG loaded program path=p words=4", "DEBUG reset words=4 queued=0",
              "DEBUG reset words=4 queued=0", "DEBUG fault error=INPUT STARVATION AT 2",
              bold "INPUT STARVATION AT 2"] } := by
  let program : Program := ⟨([104, 7, 3, 0].map Word.wrap).toArray⟩
  have hfile : Program.ofFile "p" (.ok "104,7,3,0") = .ok program := rfl
  have hcomes : ComesTo (drive · #[] (prepare program [] none none).2)
      (.failed (.starved 2), #[.wrap 7], _) := ends_iff_drive.mp (.output rfl (.failed rfl))
  obtain ⟨log, visits, -, hsliced, hshown⟩ :=
    log_replays_run hfile none [] none none false _ _ _ hcomes
  obtain ⟨-, enough, hdrive⟩ := hcomes
  -- a slice for each of the two instructions
  have hlog := congrArg Array.toList (hsliced [1, 1] nofun)
  obtain rfl : [.step 0 .write, .output (.wrap 7) 2, .step 2 .read, .fault (.starved 2)] = log :=
    hlog
  refine ⟨enough, fun patience hp => ?_⟩
  have hend := congrArg (·.1 ≠ .unfinished) (hdrive patience hp)
  obtain ⟨htrace, hdebug⟩ := hshown patience (hend.mpr nofun)
  exact ⟨htrace.trans (by decide +kernel), hdebug.trans (by decide +kernel)⟩

end Command

end Intcode
