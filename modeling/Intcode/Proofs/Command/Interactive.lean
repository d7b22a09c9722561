import Intcode.Proofs.Command.Run
import Intcode.Proofs.Terminal

/-!
# Proofs/Command/Interactive — typing answers is as good as giving them beforehand

The command `interactive` drives a machine whose source is a terminal.  A terminal gives the words
among its lines, so the machine does what it does under `run` with these words behind its inputs.
What is said at the terminal meanwhile is told instruction by instruction.

* `Machine.sourceless` — a machine without a source, whatever kind of source it might have;
* `Machine.Sourced.comesTo_drive_iff` — the two commands' machines come to the same;
* `Machine.Says`, `Machine.Talks` — what is said while an instruction, or a whole run, is executed;
* `Machine.exists_talks` — the transcript of a run accounts for its terminal;
* `Command.interactive_as_run` — both commands show the same, and what the terminal adds to it.
-/

namespace Intcode

/-- A machine is as far from another as the other from it: lockstep goes both ways. -/
theorem Lockstep.symm {σ : Type} [Source σ] {Allowed : Change σ → Prop}
    {R : Machine σ → Machine σ → Prop} (hR : Lockstep Allowed R) :
    Lockstep Allowed fun m other => R other m where
  pc h := (hR.pc h).symm
  state h := (hR.state h).symm
  fault h := (hR.fault h).symm
  plan h := (hR.plan h).symm
  withRecord state fault h := hR.withRecord state fault h
  setPc pc h := hR.setPc pc h
  setBase base h := hR.setBase base h
  setMemory address value h := hR.setMemory address value h
  pop h hplan hm hother :=
    have hpop := hR.pop h ((hR.plan h).trans hplan) hother hm
    ⟨hpop.fst.symm, hpop.snd⟩

/-- Whether a run has failed for want of input. -/
def Outcome.starved {α : Type} : Outcome α → Bool
  | .failed e => e.kind = .inputStarvation
  | .done _ | .unfinished => false

namespace Machine

/-! ## Machines without a source -/

section Sourceless

variable {σ : Type}

/-- The machine as one that might have another kind of source, and has none. -/
def sourceless (m : Machine Empty) : Machine σ where
  program := m.program
  memory := m.memory
  pc := m.pc
  base := m.base
  input := { queue := m.input.queue }
  state := m.state
  fault := m.fault

theorem source_eq_none (m : Machine Empty) : m.input.source = none := by
  cases h : m.input.source with
  | none => rfl
  | some source => exact source.elim

theorem store_sourceless (m : Machine Empty) (target : Nat) (value : Word) (next : Nat) :
    (m.sourceless : Machine σ).store target value next =
      (m.store target value next).map id sourceless := by
  unfold store
  split <;> rfl

variable [Source σ]

theorem step_sourceless (m : Machine Empty) :
    (m.sourceless : Machine σ).step = m.step.map id sourceless := by
  have hplan : (m.sourceless : Machine σ).plan = m.plan := rfl
  cases h : m.plan with
  | error e =>
    rw [step_of_plan_error h, step_of_plan_error (hplan.trans h)]
    rfl
  | ok p =>
    obtain ⟨op, action⟩ := p
    rw [step_of_plan_ok h, step_of_plan_ok (hplan.trans h)]
    cases action with
    | store target value => exact m.store_sourceless target value _
    | receive target =>
      cases hqueue : m.input.queue.toList with
      | nil =>
        rw [perform_receive_of_nil hqueue m.source_eq_none,
          perform_receive_of_nil (m := (m.sourceless : Machine σ)) hqueue rfl]
        rfl
      | cons value rest =>
        rw [perform_receive_of_cons hqueue,
          perform_receive_of_cons (m := (m.sourceless : Machine σ)) hqueue]
        exact store_sourceless { m with input := { m.input with queue := .ofList rest } } target
          value _
    | emit | jump | pass | rebase | halt => rfl

theorem cycles_sourceless (n : Nat) (m : Machine Empty) :
    cycles n (m.sourceless : Machine σ) = (cycles n m).map id sourceless := by
  induction n generalizing m with
  | zero => rfl
  | succ n ih =>
    have hstep := m.step_sourceless (σ := σ)
    rw [cycles, cycles, hstep]
    rcases m.step with ⟨e | _ | value | _, after⟩
    · rfl
    · exact ih after
    · rfl
    · rfl

theorem execute_sourceless (budget : Nat) (m : Machine Empty) :
    (m.sourceless : Machine σ).execute budget = (m.execute budget).map id sourceless := by
  obtain hlive | ⟨r, hs⟩ := m.live_or_stopped
  · rw [execute_of_live hlive, execute_of_live (m := (m.sourceless : Machine σ)) hlive]
    exact cycles_sourceless budget (m.withState .running)
  · have hsourceless : (m.sourceless : Machine σ).Stopped r := hs.of_eq rfl rfl
    rw [execute_of_stopped hs, execute_of_stopped hsourceless]
    rfl

/-- **A machine without a source is driven to the same end**, whatever kind of source it might
have. -/
theorem drive_sourceless (patience : Nat) (outputs : Array Word) (m : Machine Empty) :
    Command.drive patience outputs (m.sourceless : Machine σ) =
      (Command.drive patience outputs m).map id (Prod.map id sourceless) := by
  induction patience generalizing outputs m with
  | zero => rfl
  | succ patience ih =>
    have hrun := m.execute_sourceless (σ := σ) Command.driveCycles
    rw [Command.drive, Command.drive, hrun]
    rcases m.execute Command.driveCycles with ⟨e | _ | value | _, after⟩
    · rfl
    · exact ih outputs after
    · have hobserve : (after.sourceless : Machine σ).observe value =
          (after.observe value).sourceless := by rw [observe_eq]; rfl
      exact (congrArg (Command.drive patience (outputs.push value)) hobserve).trans (ih _ _)
    · rfl

end Sourceless

/-! ## A terminal and a queue -/

/-- What a terminal shows makes no difference to a machine that has its words queued. -/
theorem Sourced.observe {m other : Machine Terminal} (h : Sourced m other) (value : Word) :
    Sourced (m.observe value) (other.observe value) := by
  obtain ⟨t, words, hterminal, hgives, rfl⟩ := h
  refine ⟨Source.observe value t, words, ?_, Terminal.gives_observe hgives value, rfl⟩
  exact congrArg (Option.map (Source.observe value)) hterminal

variable {outcome : Outcome Unit} {outputs : Array Word}

theorem comesTo_of_drive {σ : Type} [Source σ] {patience : Nat} {m : Machine σ}
    {result : Outcome Unit × Array Word × Machine σ}
    (h : Command.drive patience outputs m = result) (hend : result.1 ≠ .unfinished) :
    ComesTo (Command.drive · outputs m) result :=
  ends_iff_drive.mp (ends_of_deliver ((drive_eq_deliver patience outputs m).symm.trans h) hend)

theorem Sourced.comesTo_drive_iff {m other : Machine Terminal} (h : Sourced m other) :
    (∃ last, ComesTo (Command.drive · #[] m) (outcome, outputs, last)) ↔
      ∃ last, ComesTo (Command.drive · #[] other) (outcome, outputs, last) := by
  simp only [← ends_iff_drive]
  constructor
  · rintro ⟨last, hends⟩
    obtain ⟨last', hends', -⟩ := lockstep.ends (fun _ _ value h => h.observe value) h hends
    exact ⟨last', hends'⟩
  · rintro ⟨last, hends⟩
    obtain ⟨last', hends', -⟩ := lockstep.symm.ends (fun _ _ value h => h.observe value) h hends
    exact ⟨last', hends'⟩

theorem comesTo_drive_sourceless_iff {σ : Type} [Source σ] {m : Machine Empty} :
    (∃ last, ComesTo (Command.drive · #[] (m.sourceless : Machine σ)) (outcome, outputs, last)) ↔
      ∃ last, ComesTo (Command.drive · #[] m) (outcome, outputs, last) := by
  constructor
  · rintro ⟨last, hend, enough, heq⟩
    have hdrive := (m.drive_sourceless enough #[]).symm.trans (heq enough (Nat.le_refl enough))
    obtain ⟨rfl, hrest⟩ := Prod.mk.inj hdrive
    obtain ⟨rfl, -⟩ := Prod.mk.inj hrest
    exact ⟨_, comesTo_of_drive rfl hend⟩
  · rintro ⟨last, hend, enough, heq⟩
    refine ⟨last.sourceless, hend, enough, fun patience hp => ?_⟩
    exact (m.drive_sourceless patience #[]).trans
      (congrArg (Prod.map id (Prod.map id sourceless)) (heq patience hp))

/-! ## What is said -/

/-- **What is said at the terminal while an instruction is executed.** -/
inductive Says (m : Machine Terminal) : Transcript → Prop
  /-- Nothing at all, unless a `READ` that knows where to put its value finds the queue empty. -/
  | silent (h : ∀ target, m.plan = .ok (.read, .receive target) → m.input.queue.toList ≠ []) :
    Says m []
  /-- Such a `READ` asks the terminal, and gets the answer. -/
  | asks {target t talk answer after} (hplan : m.plan = .ok (.read, .receive target))
    (hterminal : m.input.source = some t) (hanswers : t.Answers talk (answer, after))
    (hreads : m.Reads target [.asked target answer] m.step)
    (hafter : m.step.2.input.source = some after) : Says m talk

/-- **What is said while a machine runs to its end**, instruction by instruction, with the values
that it writes between them; how the run ends, and the machine afterwards. -/
inductive Talks : Machine Terminal → Transcript → Outcome Unit → Machine Terminal → Prop
  | halts {m talk last} (hsaid : m.Says talk) (h : m.execute 1 = (.ok .halted, last)) :
    Talks m talk (.done ()) last
  | fails {m talk e last} (hsaid : m.Says talk) (h : m.execute 1 = (.error e, last)) :
    Talks m talk (.failed e) last
  | goes {m talk after more outcome last} (hsaid : m.Says talk)
    (h : m.execute 1 = (.ok .running, after)) (hmore : Talks after more outcome last) :
    Talks m (talk ++ more) outcome last
  | writes {m talk value after more outcome last} (hsaid : m.Says talk)
    (h : m.execute 1 = (.ok (.output value), after))
    (hmore : Talks (after.observe value) more outcome last) :
    Talks m (talk ++ .shown value :: more) outcome last

variable {m : Machine Terminal} {t : Terminal} {talk : Transcript}

/-- An instruction that asks no source leaves it as it is. -/
theorem Does.source_eq {σ : Type} [Source σ] {m : Machine σ} {changes : History σ}
    {result : Except Error Event × Machine σ} (h : m.Does changes result)
    (hasks : ∀ target, m.plan = .ok (.read, .receive target) → m.input.queue.toList ≠ []) :
    result.2.input.source = m.input.source := by
  cases h with
  | reads hplan _ hreads =>
    cases hreads with
    | takes | starves => rfl
    | asks hqueue | asksInVain hqueue => exact absurd hqueue (hasks _ hplan)
  | fails | stores | emits | jumps | passes | rebases | halts => rfl

/-- A `READ` that asks the source gets its next answer, and leaves it asked. -/
theorem Reads.source_eq {σ : Type} [Source σ] {m : Machine σ} {target : Nat} {source : σ}
    {answer : Option Word} {result : Except Error Event × Machine σ}
    (h : m.Reads target [.asked target answer] result) (hsource : m.input.source = some source) :
    answer = (Source.next source).1 ∧ result.2.input.source = some (Source.next source).2 := by
  cases h with
  | asks _ hsource' hnext | asksInVain _ hsource' hnext =>
    obtain rfl := Option.some.inj (hsource'.symm.trans hsource)
    rw [hnext]
    exact ⟨rfl, rfl⟩

/-- **Something is said while an instruction is executed**, or nothing. -/
theorem exists_says (hterminal : m.input.source = some t) : ∃ talk, m.Says talk := by
  by_cases hasks : ∃ target, m.plan = .ok (.read, .receive target) ∧ m.input.queue.toList = []
  · obtain ⟨target, hplan, hqueue⟩ := hasks
    have hreads : m.Reads target [.asked target (Source.next t).1] m.step := by
      simpa [changes, hplan, hqueue, hterminal] using reads hplan
    obtain ⟨talk, hanswers⟩ := t.exists_answers
    exact ⟨talk, .asks hplan hterminal hanswers hreads (hreads.source_eq hterminal).2⟩
  · exact ⟨[], .silent fun target hplan hqueue => hasks ⟨target, hplan, hqueue⟩⟩

/-- **What is said in an instruction accounts for its terminal.** -/
theorem Says.accounts (h : m.Says talk) (hterminal : m.input.source = some t) :
    ∃ after, m.step.2.input.source = some after ∧ Terminal.Accounts talk t after := by
  cases h with
  | silent hasks => exact ⟨t, (m.does.source_eq hasks).trans hterminal, .nil t⟩
  | @asks target t' talk answer after _ hterminal' hanswers _ hafter =>
    obtain rfl := Option.some.inj (hterminal'.symm.trans hterminal)
    exact ⟨after, hafter, hanswers.accounts⟩

/-- An instruction has no value shown before it is through. -/
theorem Says.values_eq (h : m.Says talk) : talk.values = [] := by
  cases h with
  | silent => rfl
  | asks _ _ hanswers => exact hanswers.values_eq

/-- **Each prompt takes a line**, but for one more when the instruction starves; and then no line is
left. -/
theorem Says.prompts_eq (h : m.Says talk) :
    ¬Starved m.step.1 ∧ talk.prompts = talk.lines.length ∨
      Starved m.step.1 ∧ talk.prompts = talk.lines.length + 1 ∧
        ∃ after, m.step.2.input.source = some after ∧ after.untyped = [] := by
  cases h with
  | silent hasks =>
    refine .inl ⟨?_, rfl⟩
    rintro ⟨e, he, hkind⟩
    obtain ⟨hplan, -⟩ | ⟨target, hplan, -, hqueue, -⟩ := step_of_error (Prod.ext he rfl)
    · exact (kind_of_plan_error hplan).2.1 hkind
    · exact hasks target hplan hqueue
  | @asks target t' talk answer after _ _ hanswers hreads hafter =>
    generalize m.step = result at hreads hafter ⊢
    cases hreads with
    | asks => exact .inl ⟨not_starved_ok _, hanswers.prompts_eq⟩
    | asksInVain =>
      exact .inr ⟨⟨_, rfl, rfl⟩, hanswers.prompts_eq, after, hafter, hanswers.untyped_eq_nil⟩

/-- **A transcript accounts for a run**: for what has become of the terminal, for the values that
were written, and for the prompts, each of which takes a line but for one more when the run starves
because no line is left. -/
structure Transcribes (talk : Transcript) (t : Terminal) (outputs : Array Word)
    (result : Outcome Unit × Array Word × Machine Terminal) : Prop where
  terminal : ∃ after, result.2.2.input.source = some after ∧ Terminal.Accounts talk t after ∧
    (result.1.starved → after.untyped = [])
  outputs : result.2.1.toList = outputs.toList ++ talk.values
  prompts : talk.prompts = talk.lines.length + if result.1.starved then 1 else 0

section Transcribes

variable {mid : Terminal} {more : Transcript} {outputs' : Array Word} {last : Machine Terminal}
  {result : Outcome Unit × Array Word × Machine Terminal}

/-- What is said before the rest of a run, with every prompt answered, is put in front. -/
theorem Transcribes.prepend (haccounts : Terminal.Accounts talk t mid)
    (houtputs : outputs'.toList = outputs.toList ++ talk.values)
    (hprompts : talk.prompts = talk.lines.length) (h : Transcribes more mid outputs' result) :
    Transcribes (talk ++ more) t outputs result where
  terminal :=
    have ⟨after, hafter, hmore, hleft⟩ := h.terminal
    ⟨after, hafter, haccounts.append hmore, hleft⟩
  outputs := by
    rw [h.outputs, houtputs, Transcript.values_append, List.append_assoc]
  prompts := by
    rw [Transcript.prompts_append, Transcript.lines_append, List.length_append, h.prompts,
      hprompts, Nat.add_assoc]

/-- What is said in the last instruction of a run transcribes it. -/
theorem Says.transcribes (h : m.Says talk) (hterminal : m.input.source = some t)
    (houtcome : outcome.starved ↔ Starved m.step.1)
    (hlast : last.input.source = m.step.2.input.source) :
    Transcribes talk t outputs (outcome, outputs, last) where
  terminal := by
    obtain ⟨after, hafter, haccounts⟩ := h.accounts hterminal
    refine ⟨after, hlast.trans hafter, haccounts, fun hstarved => ?_⟩
    obtain ⟨hnot, -⟩ | ⟨-, -, after', hafter', hleft⟩ := h.prompts_eq
    · exact absurd (houtcome.mp hstarved) hnot
    · obtain rfl := Option.some.inj (hafter.symm.trans hafter')
      exact hleft
  outputs := by rw [h.values_eq, List.append_nil]
  prompts := by
    obtain ⟨hnot, hprompts⟩ | ⟨hstarved, hprompts, -⟩ := h.prompts_eq
    · rw [if_neg (mt houtcome.mp hnot), hprompts]
      rfl
    · rw [if_pos (houtcome.mpr hstarved), hprompts]

/-- Nothing starves where nothing fails. -/
theorem Says.prompts_of_ok (h : m.Says talk) {event : Event} (hstep : m.step.1 = .ok event) :
    talk.prompts = talk.lines.length := by
  obtain ⟨-, hprompts⟩ | ⟨hstarved, -⟩ := h.prompts_eq
  · exact hprompts
  · exact absurd (hstep ▸ hstarved) (not_starved_ok event)

theorem starved_failed_iff {e : Error} :
    (Outcome.failed e : Outcome Unit).starved ↔ Starved (.error e) := by
  simp [Outcome.starved, Starved]

/-- **Every run at a terminal that ends has a transcript**, which accounts for it. -/
theorem exists_talks (hlive : m.state.Live) (hterminal : m.input.source = some t)
    (h : Ends observe outputs m result) :
    ∃ talk, m.Talks talk result.1 result.2.2 ∧ Transcribes talk t outputs result := by
  induction h generalizing t with
  | @halted outputs m last hrun =>
    obtain ⟨talk, hsaid⟩ := exists_says hterminal
    obtain ⟨hstep, hlast⟩ := Prod.mk.inj ((execute_one hlive).symm.trans hrun)
    refine ⟨talk, .halts hsaid hrun, hsaid.transcribes hterminal ?_ (hlast ▸ rfl)⟩
    exact iff_of_false Bool.false_ne_true (hstep ▸ not_starved_ok .halted)
  | @failed outputs m e last hrun =>
    obtain ⟨talk, hsaid⟩ := exists_says hterminal
    obtain ⟨hstep, hlast⟩ := Prod.mk.inj ((execute_one hlive).symm.trans hrun)
    refine ⟨talk, .fails hsaid hrun, hsaid.transcribes hterminal ?_ (hlast ▸ rfl)⟩
    rw [hstep, starved_failed_iff]
  | @running outputs m after result hrun _ ih =>
    obtain ⟨talk, hsaid⟩ := exists_says hterminal
    obtain ⟨hstep, hafter⟩ := Prod.mk.inj ((execute_one hlive).symm.trans hrun)
    obtain ⟨mid, hmid, haccounts⟩ := hsaid.accounts hterminal
    obtain ⟨more, htalks, hmore⟩ :=
      ih (state_of_execute hrun ▸ trivial) ((hafter ▸ rfl : after.input.source = _).trans hmid)
    refine ⟨talk ++ more, .goes hsaid hrun htalks,
      hmore.prepend haccounts ?_ (hsaid.prompts_of_ok hstep)⟩
    rw [hsaid.values_eq, List.append_nil]
  | @output outputs m value after result hrun _ ih =>
    obtain ⟨talk, hsaid⟩ := exists_says hterminal
    obtain ⟨hstep, hafter⟩ := Prod.mk.inj ((execute_one hlive).symm.trans hrun)
    obtain ⟨mid, hmid, haccounts⟩ := hsaid.accounts hterminal
    have hobserve : (after.observe value).input.source = some (Source.observe value mid) := by
      rw [← hafter]
      exact congrArg (Option.map _) hmid
    have hstate : (after.observe value).state = .suspended := state_of_execute hrun
    obtain ⟨more, htalks, hmore⟩ := ih (hstate ▸ trivial) hobserve
    refine ⟨talk ++ .shown value :: more, .writes hsaid hrun htalks, ?_⟩
    -- the value is shown before the rest of the run
    rw [List.append_cons]
    refine hmore.prepend (haccounts.append (Terminal.accounts_observe mid value)) ?_ ?_
    · rw [Array.toList_push, Transcript.values_append, hsaid.values_eq]
      rfl
    · rw [Transcript.prompts_append, Transcript.lines_append, hsaid.prompts_of_ok hstep,
        List.length_append]
      rfl

end Transcribes

end Machine

/-! ## The command -/

namespace Command

open Machine

/-- The machine that `interactive` starts has a terminal for what that of `run` has queued. -/
theorem sourced_prepare (program : Program) (inputs : List Word) (typed : List String) :
    Sourced (((create program).reset inputs).withSource (some (Terminal.mk typed 0 #[])))
      (prepare program (inputs ++ typed.filterMap Terminal.readLine?) none none).2.sourceless := by
  refine ⟨.mk typed 0 #[], _, rfl, Terminal.gives _, ?_⟩
  exact (feed_reset (create program) inputs _).symm

variable (level : LogLevel) {path : String} {file : Except FileError String} {program : Program}
  {inputs : List Word} {typed : List String} {patience : Nat} {outcome : Outcome Unit}
  {outputs : Array Word} {last : Machine Terminal} {terminal : Terminal}

/-- What a run at a terminal that has come out so is reported as. -/
theorem report_interactive (hfile : Program.ofFile path file = .ok program)
    (hdrive : drive patience #[]
      (((create program).reset inputs).withSource (some (Terminal.mk typed 0 #[]))) =
        (outcome, outputs, last))
    (hterminal : last.input.source = some terminal) :
    ∃ log, (level.rank < LogLevel.debug.rank → log = #[]) ∧
      report patience level (.interactive path inputs) file (some typed) =
        { status := (conclude outcome).1
          output := terminal.screen
          errors := log ++ (conclude outcome).2
          prompts := terminal.prompts } := by
  let m := ((create program).reset inputs).withSource (some (Terminal.mk typed 0 #[]))
  refine ⟨logMessages level (fun _ => #[.loaded path program.size]) ++
    logMessages level fun _ => lifeLog patience program m m, fun hquiet => ?_, ?_⟩
  · rw [logMessages_of_quiet hquiet, logMessages_of_quiet hquiet]
    rfl
  · simp only [report, Command.path, hfile, reportInteractive, hdrive, hterminal, Option.getD_some,
      Array.append_assoc, m]

/-- **Typing answers is as good as giving them beforehand.**  The machine that `interactive` starts
comes to what that of `run` comes to which has the words among the typed lines behind its inputs.
If it ends, the transcript of its run tells which lines it took: in their order, and each when a
`READ` found the queue empty, up to the one that it read.  Each prompt took a line, but for one more
if the run starves because no line was left.  Both commands exit alike and show the same error, and
but for the refusals they show the same outputs.  What is logged comes before the error, and by
default nothing is. -/
theorem interactive_as_run (hfile : Program.ofFile path file = .ok program) (inputs : List Word)
    (typed : List String) :
    let queued := inputs ++ typed.filterMap Terminal.readLine?
    let m := ((create program).reset inputs).withSource (some (Terminal.mk typed 0 #[]))
    (∀ outcome outputs, (∃ last, ComesTo (drive · #[] m) (outcome, outputs, last)) ↔
      ∃ last, ComesTo (drive · #[] (prepare program queued none none).2) (outcome, outputs, last)) ∧
    ∀ outcome outputs last, ComesTo (drive · #[] m) (outcome, outputs, last) →
      ∃ talk left, m.Talks talk outcome last ∧ typed = talk.lines ++ left ∧
        (outcome.starved → left = []) ∧
        talk.prompts = talk.lines.length + (if outcome.starved then 1 else 0) ∧
        talk.screen.filter (· ≠ Terminal.refusal) = outputs.toList.map Word.text ∧
        ∃ enough, ∀ patience, enough ≤ patience → ∀ lines,
          ∃ log log', (level.rank < LogLevel.debug.rank → log = #[] ∧ log' = #[]) ∧
            report patience level (.interactive path inputs) file (some typed) =
              { status := (conclude outcome).1
                output := talk.screen.toArray
                errors := log ++ (conclude outcome).2
                prompts := talk.prompts } ∧
            report patience level (.run path queued none none false) file lines =
              { status := (conclude outcome).1
                output := outputs.map Word.text
                errors := log' ++ (conclude outcome).2 } := by
  intro queued m
  have hiff (outcome : Outcome Unit) (outputs : Array Word) :
      (∃ last, ComesTo (drive · #[] m) (outcome, outputs, last)) ↔ ∃ last,
        ComesTo (drive · #[] (prepare program queued none none).2) (outcome, outputs, last) :=
    (sourced_prepare program inputs typed).comesTo_drive_iff.trans comesTo_drive_sourceless_iff
  refine ⟨hiff, fun outcome outputs last hcomes => ?_⟩
  obtain ⟨last', -, enough', hdrive'⟩ := (hiff outcome outputs).mp ⟨last, hcomes⟩
  obtain ⟨talk, htalks, htranscribes⟩ :=
    exists_talks (m := m) trivial rfl (ends_iff_drive.mpr hcomes)
  obtain ⟨terminal, hterminal, haccounts, hleft⟩ := htranscribes.terminal
  have hvalues : outputs.toList = talk.values := htranscribes.outputs
  have hscreen : terminal.screen = talk.screen.toArray := Array.toList_inj.mp haccounts.screen
  have hprompts : terminal.prompts = talk.prompts := haccounts.prompts.trans (Nat.zero_add _)
  refine ⟨talk, terminal.untyped, htalks, haccounts.untyped, hleft, htranscribes.prompts,
    hvalues ▸ talk.screen_filter, ?_⟩
  obtain ⟨-, enough, hdrive⟩ := hcomes
  refine ⟨max enough enough', fun patience hp lines => ?_⟩
  obtain ⟨log, hlog, hshown⟩ := report_interactive level hfile
    (hdrive patience (le_trans (le_max_left _ _) hp)) hterminal
  obtain ⟨log', hlog', hshown'⟩ := report_run level lines false hfile
    (hdrive' patience (le_trans (le_max_right _ _) hp))
  refine ⟨log, log', fun hquiet => ⟨hlog hquiet, hlog' hquiet⟩, ?_, ?_⟩
  · rw [hshown, hscreen, hprompts]
  · simpa using hshown'

/-- A program that writes what it reads, again and again; one answer is refused, one is taken, and
then no more come. -/
theorem interactive_as_run_echo :
    let file : Except FileError String := .ok "3,7,4,7,1105,1,0"
    ∃ screen : List String, screen.filter (· ≠ Terminal.refusal) = ["7"] ∧
      ∃ enough, ∀ patience, enough ≤ patience →
        report patience .off (.interactive "p" []) file (some ["x", " 7 "]) =
          { status := 1
            output := screen.toArray
            errors := #[bold "INPUT STARVATION AT 0"]
            prompts := 3 } ∧
        report patience .off (.run "p" [.wrap 7] none none false) file none =
          { status := 1, output := #["7"], errors := #[bold "INPUT STARVATION AT 0"] } := by
  have hfile : Program.ofFile "p" (.ok "3,7,4,7,1105,1,0") =
      .ok ⟨([3, 7, 4, 7, 1105, 1, 0].map Word.wrap).toArray⟩ := rfl
  have hwords : [] ++ ["x", " 7 "].filterMap Terminal.readLine? = [Word.wrap 7] := rfl
  obtain ⟨-, hends⟩ := interactive_as_run .off hfile [] ["x", " 7 "]
  obtain ⟨talk, left, -, hlines, hleft, hprompts, hscreen, enough, hshown⟩ :=
    hends (.failed (.starved 0)) #[.wrap 7] _
      (ends_iff_drive.mp (.running rfl (.output rfl (.running rfl (.failed rfl)))))
  obtain rfl := hleft rfl
  rw [List.append_nil] at hlines
  refine ⟨talk.screen, hscreen, enough, fun patience hp => ?_⟩
  obtain ⟨log, log', hlog, hshown, hshown'⟩ := hshown patience hp none
  obtain ⟨rfl, rfl⟩ := hlog (by decide)
  rw [hprompts, ← hlines] at hshown
  rw [hwords] at hshown'
  exact ⟨hshown, hshown'.trans (by decide +kernel)⟩

end Command

end Intcode
