import Intcode.Proofs.History
import Mathlib.Algebra.GroupWithZero.Nat

/-!
# Proofs/Journal — the log of a run, instruction by instruction

What is logged of a run is what is logged of its instructions, one after the other: an instruction
is logged when it is started, and once more if it writes a value or ends the run.  How the run is
cut into slices does not show.

* `Machine.LoggedAs` — what is logged of one instruction, and `Machine.loggedAs_entries`;
* `Machine.Course` — the instructions of a run to its end;
* `Machine.Course.journalCycles_eq` — the log of a run is that of its instructions;
* `Machine.slicedLog_eq` — and so are the logs of its slices, put together;
* `Machine.exists_replays` — the log of a run that ends tells its outputs and its end.
-/

namespace Intcode

/-! ## Entries -/

theorem appendList_assoc {α : Type} (log : Array α) (xs ys : List α) :
    log ++ xs ++ ys = log ++ (xs ++ ys) := by
  rw [← Array.toList_inj]
  simp only [Array.toList_appendList, List.append_assoc]

namespace LogEntry

/-- The value that an entry shows as written. -/
def written? : LogEntry → Option Word
  | .output value _ => some value
  | .loaded .. | .reset .. | .step .. | .halted _ | .fault _ | .searched .. => none

/-- **The entry that concludes a run**: where the machine halted, or the error that stopped it. -/
inductive Concludes {σ : Type} : LogEntry → Outcome Unit → Machine σ → Prop
  | halted (last : Machine σ) : Concludes (.halted last.pc) (.done ()) last
  | failed (e : Error) (last : Machine σ) : Concludes (.fault e) (.failed e) last

end LogEntry

/-- Of all instructions only `WRITE` writes a value, and only `EXIT` halts. -/
theorem Ideal.event_of_opcode {i : Ideal} {op : Opcode} (h : i.opcode? = some op) :
    (op = .write ↔ ∃ value, i.step.1 = .output value) ∧ (op = .exit ↔ i.step.1 = .halted) := by
  rw [step, h]
  cases op <;> simp

namespace Machine

variable {σ : Type} {m : Machine σ} {op : Opcode} {action : Action}

theorem opcode_of_plan (h : m.plan = .ok (op, action)) :
    (op = .write ↔ ∃ value, action = .emit value) ∧ (op = .exit ↔ action = .halt) := by
  obtain ⟨-, hop, hcarries⟩ := m.plan_meets.of_ok h
  obtain ⟨hwrite, hexit⟩ := Ideal.event_of_opcode hop
  rw [hwrite, hexit, ← hcarries.effect]
  cases action <;> simp [Action.effect]

theorem plan_of_instruction_error {e : Error} (h : m.instruction = .error e) :
    m.plan = .error e := by
  rw [plan, h]
  rfl

theorem startEntries_of_ok {instruction : Instruction} (h : m.instruction = .ok instruction) :
    m.startEntries = [.step m.pc instruction.opcode] := by
  rw [startEntries, h]

theorem startEntries_of_error {e : Error} (h : m.instruction = .error e) :
    m.startEntries = [] := by
  rw [startEntries, h]

theorem level_of_mem_startEntries {entry : LogEntry} (h : entry ∈ m.startEntries) :
    entry.level = .trace := by
  unfold startEntries at h
  split at h
  · rw [List.mem_singleton.mp h]
    rfl
  · cases h

theorem written_startEntries (m : Machine σ) : m.startEntries.filterMap LogEntry.written? = [] := by
  unfold startEntries
  split <;> rfl

/-! ## One instruction -/

variable [Source σ]

/-- **What is logged of the next instruction**: that it is started, if it is one; the value that it
writes, with the address behind it; and the end that it makes of the run. -/
inductive LoggedAs (m : Machine σ) : List LogEntry → Prop
  /-- A word that is no instruction is not started. -/
  | noInstruction {e} (h : m.instruction = .error e) (hresult : m.step.1 = .error e) :
    LoggedAs m [.fault e]
  /-- An instruction that fails has been started. -/
  | fails {instruction e} (h : m.instruction = .ok instruction) (hresult : m.step.1 = .error e) :
    LoggedAs m [.step m.pc instruction.opcode, .fault e]
  /-- One that succeeds, and neither writes nor halts, is only started. -/
  | runs {instruction} (h : m.instruction = .ok instruction) (hwrite : instruction.opcode ≠ .write)
    (hexit : instruction.opcode ≠ .exit) (hresult : m.step.1 = .ok .running) :
    LoggedAs m [.step m.pc instruction.opcode]
  | writes {fields value} (h : m.instruction = .ok ⟨.write, fields⟩)
    (hresult : m.step.1 = .ok (.output value)) :
    LoggedAs m [.step m.pc .write, .output value (m.pc + 2)]
  | halts {fields} (h : m.instruction = .ok ⟨.exit, fields⟩) (hresult : m.step.1 = .ok .halted) :
    LoggedAs m [.step m.pc .exit, .halted m.pc]

/-- What is logged of the result of an instruction. -/
def resultEntries : Except Error Event × Machine σ → List LogEntry
  | (.ok .running, _) => []
  | (.ok (.output value), after) => [.output value after.pc]
  | (.ok .halted, after) => [.halted after.pc]
  | (.error e, _) => [.fault e]

/-- What is logged while the next instruction is executed. -/
def entries (m : Machine σ) : List LogEntry := m.startEntries ++ resultEntries m.step

theorem LoggedAs.of_running (hplan : m.plan = .ok (op, action))
    (hemit : ∀ value, action ≠ .emit value) (hhalt : action ≠ .halt)
    (hresult : m.step.1 = .ok .running) : m.LoggedAs (m.startEntries ++ []) := by
  obtain ⟨fields, hinstruction⟩ := instruction_of_plan_ok hplan
  obtain ⟨hwrite, hexit⟩ := opcode_of_plan hplan
  rw [startEntries_of_ok hinstruction, List.append_nil]
  exact .runs hinstruction (fun h => (hwrite.mp h).elim hemit) (fun h => hhalt (hexit.mp h)) hresult

/-- An instruction that fails has been started, unless it fails for being none. -/
theorem LoggedAs.of_error {e : Error} (hresult : m.step.1 = .error e) :
    m.LoggedAs (m.startEntries ++ [.fault e]) := by
  cases hinstruction : m.instruction with
  | error e' =>
    have hstep := step_of_plan_error (plan_of_instruction_error hinstruction)
    obtain rfl : e' = e := Except.error.inj ((congrArg Prod.fst hstep).symm.trans hresult)
    rw [startEntries_of_error hinstruction]
    exact .noInstruction hinstruction hresult
  | ok instruction =>
    rw [startEntries_of_ok hinstruction]
    exact .fails hinstruction hresult

/-- **Every instruction is logged as it should be.** -/
theorem loggedAs_entries (m : Machine σ) : m.LoggedAs m.entries := by
  have hdoes := m.does
  generalize m.changes = changes at hdoes
  rw [entries]
  generalize hstep : m.step = result at hdoes ⊢
  have hresult := congrArg Prod.fst hstep
  cases hdoes with
  | fails => exact .of_error hresult
  | reads hplan _ hreads =>
    cases hreads with
    | takes | asks => exact .of_running hplan (fun _ => nofun) nofun hresult
    | asksInVain | starves => exact .of_error hresult
  | stores hplan | jumps hplan | passes hplan | rebases hplan =>
    exact .of_running hplan (fun _ => nofun) nofun hresult
  | emits hplan =>
    obtain rfl := (opcode_of_plan hplan).1.mpr ⟨_, rfl⟩
    obtain ⟨fields, hinstruction⟩ := instruction_of_plan_ok hplan
    rw [startEntries_of_ok hinstruction]
    exact .writes hinstruction hresult
  | halts hplan =>
    obtain rfl := (opcode_of_plan hplan).2.mpr rfl
    obtain ⟨fields, hinstruction⟩ := instruction_of_plan_ok hplan
    rw [startEntries_of_ok hinstruction]
    exact .halts hinstruction hresult

theorem entries_withState (m : Machine σ) (s : State) : (m.withState s).entries = m.entries := by
  have hstart : (m.withState s).startEntries = m.startEntries := rfl
  rw [entries, hstart, step_withState, entries]
  rcases m.step with ⟨e | _ | value | _, after⟩ <;> rfl

/-! ## Cycles -/

theorem journalCycles_succ (onward : Bool) (n : Nat) (log : Array LogEntry) (m : Machine σ) :
    journalCycles onward (n + 1) log m =
      match m.step with
      | (.ok .running, after) => journalCycles onward n (log ++ m.entries) after
      | (.ok (.output _), after) =>
        if onward then journalCycles onward n (log ++ m.entries) after else log ++ m.entries
      | _ => log ++ m.entries := by
  rw [journalCycles, entries]
  rcases m.step with ⟨e | _ | value | _, after⟩ <;> simp [resultEntries, ← appendList_assoc]

theorem journalCycles_withState (onward : Bool) (n : Nat) (log : Array LogEntry) (m : Machine σ)
    (s : State) : journalCycles onward n log (m.withState s) = journalCycles onward n log m := by
  induction n generalizing log m with
  | zero => rfl
  | succ n ih =>
    rw [journalCycles_succ, journalCycles_succ, step_withState, entries_withState]
    rcases m.step with ⟨e | _ | value | _, after⟩
    · rfl
    · exact ih _ after
    · cases onward
      · rfl
      · exact ih _ after
    · rfl

theorem journal_of_live (h : m.state.Live) (onward : Bool) (n : Nat) (log : Array LogEntry) :
    m.journal onward n log = journalCycles onward n log (m.withState .running) := by
  rw [journalCycles_withState]
  unfold journal
  split
  next hs => rw [hs] at h; exact h.elim
  next hs => rw [hs] at h; exact h.elim
  all_goals rfl

/-- **The log of a slice is that of its instructions.** -/
theorem journalCycles_eq_visits (n : Nat) (log : Array LogEntry) (m : Machine σ) :
    journalCycles false n log m = log ++ (visits n m).flatMap entries := by
  induction n generalizing log m with
  | zero => simp [journalCycles, visits]
  | succ n ih =>
    rw [journalCycles_succ, visits]
    rcases m.step with ⟨e | _ | value | _, after⟩ <;> simp [ih, appendList_assoc]

theorem length_visits_le (n : Nat) (m : Machine σ) : (visits n m).length ≤ n := by
  induction n generalizing m with
  | zero => exact Nat.le_refl 0
  | succ n ih =>
    rw [visits, List.length_cons]
    refine Nat.succ_le_succ ?_
    split
    next after _ => exact ih after
    next => exact Nat.zero_le n

/-! ## The course of a run -/

/-- **The course of a run**: the machine in front of each of its instructions, and how the last of
them ends it. -/
inductive Course : Machine σ → List (Machine σ) → Outcome Unit → Prop
  | halts {m after} (h : m.step = (.ok .halted, after)) : Course m [m] (.done ())
  | fails {m e after} (h : m.step = (.error e, after)) : Course m [m] (.failed e)
  | goes {m after visits outcome} (h : m.step = (.ok .running, after))
    (rest : Course after visits outcome) : Course m (m :: visits) outcome
  | writes {m value after visits outcome} (h : m.step = (.ok (.output value), after))
    (rest : Course after visits outcome) : Course m (m :: visits) outcome

/-- What is left of a course of which a slice has been executed. -/
def Left (rest : List (Machine σ)) (outcome : Outcome Unit) :
    Except Error Event × Machine σ → Prop
  | (.ok .running, after) | (.ok (.output _), after) =>
    (after.withState .running).Course rest outcome
  | (.ok .halted, _) | (.error _, _) => rest = []

variable {visits : List (Machine σ)} {outcome : Outcome Unit}

/-- **The log of a run is that of its instructions**, if it is given cycles for all of them. -/
theorem Course.journalCycles_eq (h : m.Course visits outcome) {n : Nat} (hn : visits.length ≤ n)
    (log : Array LogEntry) : journalCycles true n log m = log ++ visits.flatMap entries := by
  induction h generalizing n log with
  | halts h | fails h =>
    obtain ⟨n, rfl⟩ := Nat.exists_eq_succ_of_ne_zero (Nat.ne_zero_of_lt hn)
    rw [journalCycles_succ, h]
    simp
  | goes h _ ih | writes h _ ih =>
    obtain ⟨n, rfl⟩ := Nat.exists_eq_succ_of_ne_zero (Nat.ne_zero_of_lt hn)
    rw [journalCycles_succ, h]
    simp [ih (Nat.le_of_succ_le_succ hn), appendList_assoc]

/-- **A course starts with the instructions of its first slice**, however long the slice is. -/
theorem Course.exists_left (h : m.Course visits outcome) (hstate : m.state = .running) (k : Nat) :
    ∃ rest, visits = Machine.visits k m ++ rest ∧ Left rest outcome (cycles k m) := by
  induction k generalizing m visits with
  | zero =>
    refine ⟨visits, rfl, ?_⟩
    rw [cycles, Left, ← hstate]
    exact h
  | succ k ih =>
    have hafter := m.step_state.trans hstate
    cases h with
    | halts h | fails h =>
      rw [Machine.visits, cycles, h]
      exact ⟨[], rfl, rfl⟩
    | goes h hrest =>
      rw [h] at hafter
      obtain ⟨rest, rfl, hleft⟩ := ih hrest hafter
      rw [Machine.visits, cycles, h]
      exact ⟨rest, rfl, hleft⟩
    | @writes _ _ after visits _ h hrest =>
      rw [h] at hafter
      rw [Machine.visits, cycles, h]
      refine ⟨visits, rfl, ?_⟩
      -- resumed behind its output, the machine is again as the step left it
      show (after.withState .running).Course visits outcome
      rw [← hafter]
      exact hrest

/-! ## Slices -/

/-- What is logged when a machine is run for one budget after the other, behind the entries already
there: what each of these runs logs. -/
def slicedLog : List Nat → Array LogEntry → Machine σ → Array LogEntry
  | [], log, _ => log
  | budget :: budgets, log, m =>
    match m.execute budget with
    | (.ok .running, after) | (.ok (.output _), after) =>
      slicedLog budgets (m.journal false budget log) after
    | (.ok .halted, _) | (.error _, _) => m.journal false budget log

/-- **However a run is cut, its log is that of its instructions**, of which there are not more than
cycles. -/
theorem slicedLog_eq {budgets : List Nat} {outputs : Array Word} (hlive : m.state.Live)
    (h : (m.withState .running).Course visits outcome)
    (hend : (deliver (fun m _ => m) budgets outputs m).1 ≠ .unfinished) (log : Array LogEntry) :
    slicedLog budgets log m = log ++ visits.flatMap entries ∧ visits.length ≤ budgets.sum := by
  induction budgets generalizing m visits outputs log with
  | nil => exact absurd rfl hend
  | cons budget budgets ih =>
    obtain ⟨rest, rfl, hleft⟩ := h.exists_left rfl budget
    have hlength := length_visits_le budget (m.withState .running)
    rw [deliver] at hend
    rw [slicedLog, journal_of_live hlive, journalCycles_eq_visits, List.flatMap_append,
      ← appendList_assoc, List.length_append, List.sum_cons]
    rw [← execute_of_live hlive] at hleft
    -- nothing is left behind a slice that ends the run, and the rest is left behind any other
    rcases hrun : m.execute budget with ⟨e | _ | value | _, after⟩ <;> rw [hrun] at hleft hend
    · obtain rfl := hleft
      exact ⟨rfl, Nat.le_add_right_of_le hlength⟩
    · obtain ⟨hlog, hrest⟩ := ih (state_of_execute hrun ▸ trivial) hleft hend _
      exact ⟨hlog, Nat.add_le_add hlength hrest⟩
    · obtain ⟨hlog, hrest⟩ := ih (state_of_execute hrun ▸ trivial) hleft hend _
      exact ⟨hlog, Nat.add_le_add hlength hrest⟩
    · obtain rfl := hleft
      exact ⟨rfl, Nat.le_add_right_of_le hlength⟩

/-! ## The log of a run -/

/-- **A log replays a run** that comes to this result, when these values have been written before.
It tells of the instructions of the run, block by block, from the first to the last.  So it tells
all values that the run writes; and with its last entry, and no other, how the run came out. -/
structure Replays (log : List LogEntry) (m : Machine σ) (visits : List (Machine σ))
    (outputs : Array Word) (result : Outcome Unit × Array Word × Machine σ) : Prop where
  course : (m.withState .running).Course visits result.1
  blocks : ∃ block : Machine σ → List LogEntry,
    (∀ visit ∈ visits, visit.LoggedAs (block visit)) ∧ log = visits.flatMap block
  written : result.2.1.toList = outputs.toList ++ log.filterMap LogEntry.written?
  ending : ∃ front entry, log = front ++ [entry] ∧ entry.Concludes result.1 result.2.2 ∧
    ∀ e ∈ front, e.level = .trace

section Replays

variable {after : Machine σ} {outputs outputs' : Array Word} {entry : LogEntry}
  {result : Outcome Unit × Array Word × Machine σ}

/-- An instruction that ends a run replays it. -/
theorem Replays.of_end (hcourse : (m.withState .running).Course [m.withState .running] outcome)
    (hentries : (m.withState .running).entries = m.startEntries ++ [entry])
    (hconcludes : entry.Concludes outcome after) :
    Replays ([m.withState .running].flatMap entries) m [m.withState .running] outputs
      (outcome, outputs, after) where
  course := hcourse
  blocks := ⟨entries, fun visit _ => visit.loggedAs_entries, rfl⟩
  written := by
    rw [List.flatMap_singleton, hentries, List.filterMap_append, written_startEntries]
    cases hconcludes <;> simp [LogEntry.written?]
  ending := ⟨m.startEntries, entry, by rw [List.flatMap_singleton, hentries], hconcludes,
    fun _ => level_of_mem_startEntries⟩

/-- An instruction behind which a run goes on is put in front of the rest. -/
theorem Replays.cons
    (hcourse : (m.withState .running).Course (m.withState .running :: visits) result.1)
    (htrace : ∀ e ∈ (m.withState .running).entries, e.level = .trace)
    (houtputs : outputs'.toList =
      outputs.toList ++ (m.withState .running).entries.filterMap LogEntry.written?)
    (hrest : Replays (visits.flatMap entries) after visits outputs' result) :
    Replays ((m.withState .running :: visits).flatMap entries) m (m.withState .running :: visits)
      outputs result where
  course := hcourse
  blocks := ⟨entries, fun visit _ => visit.loggedAs_entries, rfl⟩
  written := by
    rw [hrest.written, houtputs, List.flatMap_cons, List.filterMap_append, List.append_assoc]
  ending := by
    obtain ⟨front, entry, hlog, hconcludes, hfront⟩ := hrest.ending
    refine ⟨_ ++ front, entry, ?_, hconcludes, List.forall_mem_append.mpr ⟨htrace, hfront⟩⟩
    rw [List.flatMap_cons, hlog, List.append_assoc]

/-- A budget of one is spent on one instruction, whose result is written down behind it. -/
theorem step_of_execute_one {r : Except Error Event} (hlive : m.state.Live)
    (h : m.execute 1 = (r, after)) :
    (m.withState .running).step = (r, after.withRecord .running m.fault) := by
  rw [execute_one hlive] at h
  obtain ⟨rfl, rfl⟩ := Prod.mk.inj h
  exact m.step_withRecord .running m.fault

/-- Unless it fails, only the state has to be written down. -/
theorem step_of_execute_one_ok {event : Event} (hlive : m.state.Live)
    (h : m.execute 1 = (.ok event, after)) :
    (m.withState .running).step = (.ok event, after.withState .running) := by
  have hfault : after.fault = m.fault := by
    rw [execute_one hlive] at h
    obtain ⟨hr, rfl⟩ := Prod.mk.inj h
    rw [hr]
    exact m.step_fault
  rw [step_of_execute_one hlive h, withState, hfault]

/-- **A run that ends is replayed by the log of its instructions.** -/
theorem exists_replays (hlive : m.state.Live) (h : Ends (fun m _ => m) outputs m result) :
    ∃ visits, Replays (visits.flatMap entries) m visits outputs result := by
  induction h with
  | @halted outputs m last hrun =>
    have hstep := step_of_execute_one_ok hlive hrun
    refine ⟨_, .of_end (.halts hstep) ?_ (.halted last)⟩
    rw [entries, hstep]
    rfl
  | @failed outputs m e last hrun =>
    have hstep := step_of_execute_one hlive hrun
    refine ⟨_, .of_end (.fails hstep) ?_ (.failed e last)⟩
    rw [entries, hstep]
    rfl
  | @running outputs m after result hrun _ ih =>
    have hstep := step_of_execute_one_ok hlive hrun
    obtain ⟨visits, hrest⟩ := ih (state_of_execute hrun ▸ trivial)
    have hentries : (m.withState .running).entries = m.startEntries := by
      rw [entries, hstep]
      exact List.append_nil _
    refine ⟨_, hrest.cons (.goes hstep hrest.course) ?_ ?_⟩
    · rw [hentries]
      exact fun _ => level_of_mem_startEntries
    · rw [hentries, written_startEntries, List.append_nil]
  | @output outputs m value after result hrun _ ih =>
    have hstep := step_of_execute_one_ok hlive hrun
    obtain ⟨visits, hrest⟩ := ih (state_of_execute hrun ▸ trivial)
    have hentries : (m.withState .running).entries =
        m.startEntries ++ [.output value (after.withState .running).pc] := by
      rw [entries, hstep]
      rfl
    refine ⟨_, hrest.cons (.writes hstep hrest.course) ?_ ?_⟩
    · rw [hentries]
      exact List.forall_mem_append.mpr
        ⟨fun _ => level_of_mem_startEntries, List.forall_mem_singleton.mpr rfl⟩
    · rw [hentries, List.filterMap_append, written_startEntries, Array.toList_push]
      rfl

end Replays

end Machine

end Intcode
