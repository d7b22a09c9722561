import Intcode.Proofs.History.Extent

/-!
# Proofs/History/Progress — code that does not jump cannot run away

An instruction that is executed and does not jump leaves the program counter at least two words
further on, since nothing but the end of a run takes one word.  Beyond the end of memory there is no
instruction, and memory is bounded, whatever is written meanwhile.  So only so many instructions can
follow each other until there is a jump.

* `Machine.TakesJump` — the next instruction is a jump whose condition holds;
* `Machine.pc_add_two_le` — any other instruction goes on by two words at least;
* `Machine.Route` — the machines in front of the instructions of a run, each where the one before
  it went on, and `Machine.route_session` — runs as they come of operations;
* `Machine.Route.pc_bound` — a route without jumps is short;
* `Machine.straight_line_ends` — what follows for any session.
-/

namespace Intcode

/-! ## Jumps -/

namespace Operands

variable {ops : Operands} {op : Opcode} {action : Action} {target : Nat}

theorem combine_ne_jump {result : Word → Word → Option Word} :
    ops.combine op result ≠ .ok (.jump target) := by
  intro h
  obtain ⟨⟨a, b⟩, -, h⟩ := exists_of_bind_eq_ok h
  obtain ⟨address, -, h⟩ := exists_of_bind_eq_ok h
  split at h <;> cases h

/-- A jump is asked for only if the first operand is as wanted. -/
theorem wanted_of_branch {wanted : Word → Bool} (h : ops.branch wanted = .ok (.jump target)) :
    ∃ a, ops.value 0 = .ok a ∧ wanted a := by
  obtain ⟨⟨a, b⟩, hpair, h⟩ := exists_of_bind_eq_ok h
  obtain ⟨a', hvalue, hpair⟩ := exists_of_bind_eq_ok hpair
  obtain ⟨b', -, hpair⟩ := exists_of_bind_eq_ok hpair
  cases hpair
  refine ⟨a, hvalue, ?_⟩
  by_contra hwanted
  simp [hwanted] at h
  cases h

end Operands

namespace Machine

variable {σ : Type}

/-- **The next instruction is a jump whose condition holds.** -/
inductive TakesJump (m : Machine σ) : Prop
  | ifTrue {fields value} (h : m.instruction = .ok ⟨.jumpIfTrue, fields⟩)
    (hvalue : (m.operands fields).value 0 = .ok value) (hcondition : value ≠ 0) : TakesJump m
  | ifFalse {fields value} (h : m.instruction = .ok ⟨.jumpIfFalse, fields⟩)
    (hvalue : (m.operands fields).value 0 = .ok value) (hcondition : value = 0) : TakesJump m

variable {m after : Machine σ} {op : Opcode} {action : Action} {target : Nat} {event : Event}

/-- No other instruction asks for a jump. -/
theorem takesJump_of_plan (h : m.plan = .ok (op, .jump target)) : m.TakesJump := by
  obtain ⟨fields, hinstruction, haction⟩ := action_of_plan_ok h
  unfold Operands.action at haction
  cases op with
  | jumpIfTrue =>
    obtain ⟨value, hvalue, hwanted⟩ := Operands.wanted_of_branch haction
    exact .ifTrue hinstruction hvalue (of_decide_eq_true hwanted)
  | jumpIfFalse =>
    obtain ⟨value, hvalue, hwanted⟩ := Operands.wanted_of_branch haction
    exact .ifFalse hinstruction hvalue (of_decide_eq_true hwanted)
  | add | mul | less | equals => exact absurd haction Operands.combine_ne_jump
  | read | write =>
    obtain ⟨_, -, h⟩ := exists_of_bind_eq_ok haction
    cases h
  | adjustBase =>
    obtain ⟨_, -, h⟩ := exists_of_bind_eq_ok haction
    split at h <;> cases h
  | exit => cases haction

/-- Only the instruction that halts takes one word. -/
theorem two_le_width (h : m.plan = .ok (op, action)) (hhalt : action ≠ .halt) : 2 ≤ op.width := by
  obtain ⟨fields, -, haction⟩ := action_of_plan_ok h
  cases op with
  | exit =>
    cases haction
    exact absurd rfl hhalt
  | add | mul | read | write | jumpIfTrue | jumpIfFalse | less | equals | adjustBase => decide

variable [Source σ]

/-- An instruction that is executed stands in memory. -/
theorem pc_lt_size_of_step (h : m.step.1 = .ok event) : m.pc < m.memory.size := by
  cases hplan : m.plan with
  | error e =>
    rw [step_of_plan_error hplan] at h
    cases h
  | ok p =>
    obtain ⟨fields, hinstruction⟩ := instruction_of_plan_ok hplan
    exact pc_lt_size hinstruction

/-- **An instruction that neither jumps nor halts goes on by two words at least.** -/
theorem pc_add_two_le (h : m.step = (.ok event, after)) (hevent : event ≠ .halted)
    (hjump : ¬m.TakesJump) : m.pc + 2 ≤ after.pc := by
  have hdoes := m.does
  generalize m.changes = changes at hdoes
  rw [h] at hdoes
  have hwidth {op : Opcode} {action : Action} (hplan : m.plan = .ok (op, action))
      (hhalt : action ≠ .halt) : m.pc + 2 ≤ m.pc + op.width :=
    Nat.add_le_add_left (two_le_width hplan hhalt) m.pc
  cases hdoes with
  | reads hplan _ hreads =>
    cases hreads with
    | takes | asks => exact hwidth hplan nofun
  | stores hplan | emits hplan | passes hplan | rebases hplan => exact hwidth hplan nofun
  | jumps hplan => exact absurd (takesJump_of_plan hplan) hjump
  | halts => exact absurd rfl hevent

/-- **Beyond the end of memory every instruction fails**, as one with the word zero. -/
theorem step_of_size_le (h : m.memory.size ≤ m.pc) :
    m.step = (.error (.noInstruction m.pc 0), m) := by
  have hplan : m.plan = .error (.noInstruction m.pc 0) := by
    unfold plan instruction
    rw [Memory.read_of_size_le h]
    rfl
  exact step_of_plan_error hplan

/-! ## Routes -/

/-- Where the machine goes on, if it may. -/
def place (m : Machine σ) : Option Nat :=
  match m.state with
  | .ready | .running | .suspended => some m.pc
  | .halted | .faulted => none

/-- Where the next instruction leads, unless it ends the run. -/
def leads (m : Machine σ) : Option Nat :=
  match m.step with
  | (.ok .running, after) | (.ok (.output _), after) => some after.pc
  | (.ok .halted, _) | (.error _, _) => none

omit [Source σ] in
theorem place_of_live (h : m.state.Live) : m.place = some m.pc := by
  cases hs : m.state with
  | ready | running | suspended => rw [place, hs]
  | halted | faulted =>
    rw [hs] at h
    exact h.elim

theorem leads_of_running (h : m.step.1 = .ok .running) : m.leads = some m.step.2.pc := by
  have hstep : m.step = (.ok .running, m.step.2) := Prod.ext h rfl
  rw [leads, hstep]

/-- Unless it jumps, an instruction leads two words further on at least. -/
theorem add_two_le_of_leads {next : Nat} (h : m.leads = some next) (hjump : ¬m.TakesJump) :
    m.pc + 2 ≤ next := by
  rw [leads] at h
  rcases hstep : m.step with ⟨e | _ | value | _, after⟩ <;> rw [hstep] at h
  · cases h
  · obtain rfl := Option.some.inj h
    exact pc_add_two_le hstep nofun hjump
  · obtain rfl := Option.some.inj h
    exact pc_add_two_le hstep nofun hjump
  · cases h

/-- A run that stops at an instruction goes on where that leads. -/
theorem place_of_stop (h : m.step.1 ≠ .ok .running) :
    (m.step.2.recorded m.step.1).place = m.leads := by
  rw [leads]
  generalize m.step = result at h ⊢
  match result, h with
  | (.ok .running, _), h => exact absurd rfl h
  | (.ok (.output _), _), _ | (.ok .halted, _), _ | (.error _, _), _ => rfl

/-- The machine in front of each instruction that is executed in a session. -/
def sessionVisits (patience : Nat) : List (Operation σ) → Machine σ → List (Machine σ)
  | [], _ => []
  | op :: ops, m =>
    m.operateVisits patience op ++ sessionVisits patience ops (m.operate patience op).2

/-- **The machines in front of the instructions of a run**, from one place to another: each of them
stands where the one before it went on, and all are sound. -/
inductive Route (Sound : Machine σ → Prop) : Option Nat → List (Machine σ) → Option Nat → Prop
  | nil (place : Option Nat) : Route Sound place [] place
  | cons {visit visits last} (hsound : Sound visit) (hrest : Route Sound visit.leads visits last) :
    Route Sound (some visit.pc) (visit :: visits) last

variable {Sound : Machine σ → Prop} {start mid last : Option Nat}
  {visits more window : List (Machine σ)}

theorem Route.append (h : Route Sound start visits mid) (hmore : Route Sound mid more last) :
    Route Sound start (visits ++ more) last := by
  induction h with
  | nil => exact hmore
  | cons hsound _ ih => exact .cons hsound (ih hmore)

theorem Route.exists_of_append (h : Route Sound start (visits ++ more) last) :
    ∃ mid, Route Sound start visits mid ∧ Route Sound mid more last := by
  induction visits generalizing start with
  | nil => exact ⟨start, .nil start, h⟩
  | cons visit visits ih =>
    cases h with
    | cons hsound hrest =>
      obtain ⟨mid, hvisits, hmore⟩ := ih hrest
      exact ⟨mid, .cons hsound hvisits, hmore⟩

/-- A part of a route is a route. -/
theorem Route.exists_of_infix (h : Route Sound start visits last) (hwindow : window <:+: visits) :
    ∃ start last, Route Sound start window last := by
  obtain ⟨before, behind, rfl⟩ := hwindow
  obtain ⟨mid, hfront, -⟩ := h.exists_of_append
  obtain ⟨start, -, hwindow⟩ := hfront.exists_of_append
  exact ⟨start, mid, hwindow⟩

section Runs

variable (hP : Kept fun (_ : History σ) m => Sound m) {m : Machine σ} (hm : Sound m)
include hP hm

theorem route_cycles (hrunning : m.state = .running) (n : Nat) :
    Route Sound (some m.pc) (Machine.visits n m) (cycles n m).2.place := by
  induction n generalizing m with
  | zero =>
    have hplace : m.place = some m.pc := place_of_live (by rw [hrunning]; trivial)
    exact hplace ▸ .nil _
  | succ n ih =>
    by_cases hr : m.step.1 = .ok .running
    · have hafter : Sound m.step.2 := @Kept.step _ _ _ hP [] m _ _ m.does hm
      have hrest := ih hafter (m.step_state.trans hrunning)
      rw [visits_succ_of_running hr, cycles_succ_of_running hr]
      exact .cons hm (leads_of_running hr ▸ hrest)
    · rw [visits_succ_of_stop hr, cycles_succ_of_stop hr, place_of_stop hr]
      exact .cons hm (.nil _)

theorem route_execute (n : Nat) :
    Route Sound m.place (m.executeVisits n) (m.execute n).2.place := by
  obtain hlive | ⟨r, hs⟩ := m.live_or_stopped
  · have hresumed : Sound (m.withState .running) := @Kept.resume _ _ _ hP [] m hlive hm
    rw [execute_of_live hlive, executeVisits_of_live hlive, place_of_live hlive]
    exact route_cycles hP hresumed rfl n
  · rw [executeVisits_of_stopped hs, execute_of_stopped hs]
    exact .nil _

theorem route_nextOutput (patience : Nat) :
    Route Sound m.place (m.nextOutputVisits patience) (m.nextOutput patience).2.place := by
  induction patience generalizing m with
  | zero => exact .nil _
  | succ patience ih =>
    have hfirst := route_execute hP hm sliceCycles
    have hafter : Sound (m.execute sliceCycles).2 := hP.execute sliceCycles [] hm
    rw [nextOutputVisits, nextOutput]
    rcases hslice : m.execute sliceCycles with ⟨e | _ | value | _, after⟩ <;>
      rw [hslice] at hfirst hafter
    · exact hfirst.append (.nil _)
    · exact hfirst.append (ih hafter)
    · exact hfirst.append (.nil _)
    · exact hfirst.append (.nil _)

theorem route_collect (patience n : Nat) (outputs : Array Word) :
    Route Sound m.place (m.collectVisits patience n) (m.collect patience n outputs).2.place := by
  induction n generalizing m outputs with
  | zero => exact .nil _
  | succ n ih =>
    have hfirst := route_nextOutput hP hm patience
    have hafter : Sound (m.nextOutput patience).2 := hP.nextOutput patience [] hm
    rw [collectVisits, collect]
    rcases hnext : m.nextOutput patience with ⟨(_ | value) | e | _, after⟩ <;>
      rw [hnext] at hfirst hafter
    · exact hfirst.append (.nil _)
    · exact hfirst.append (ih hafter _)
    · exact hfirst.append (.nil _)
    · exact hfirst.append (.nil _)

/-- **What is executed in an operation is a route**, from where the machine is unless the operation
starts it over. -/
theorem route_operate (patience : Nat) (op : Operation σ) :
    ∃ start, Route Sound start (m.operateVisits patience op) (m.operate patience op).2.place ∧
      (¬op.Restarts → start = m.place) := by
  cases op with
  | reset inputs => exact ⟨_, .nil _, fun h => absurd trivial h⟩
  | runToCompletion inputs =>
    have hreset : Sound (m.reset inputs) := @Kept.reset _ _ _ hP [] m inputs hm
    exact ⟨_, route_collect hP hreset patience patience #[], fun h => absurd trivial h⟩
  | append | peek | withSource => exact ⟨m.place, .nil _, fun _ => rfl⟩
  | poke address value =>
    have hplace : (m.poke address value).2.place = m.place := by
      unfold poke
      split <;> rfl
    exact ⟨m.place, hplace ▸ .nil _, fun _ => rfl⟩
  | execute budget => exact ⟨_, route_execute hP hm budget, fun _ => rfl⟩
  | nextOutput => exact ⟨_, route_nextOutput hP hm patience, fun _ => rfl⟩
  | runToHalt => exact ⟨_, route_collect hP hm patience patience #[], fun _ => rfl⟩

/-- **What is executed in a session is a route**, if nothing but its first operation starts the
machine over. -/
theorem route_session (patience : Nat) (op : Operation σ) {later : List (Operation σ)}
    (hlater : ∀ op ∈ later, ¬op.Restarts) :
    ∃ start, Route Sound start (m.sessionVisits patience (op :: later))
        (m.session patience (op :: later)).2.place ∧ (¬op.Restarts → start = m.place) := by
  induction later generalizing m op with
  | nil =>
    obtain ⟨start, hroute, hstart⟩ := route_operate hP hm patience op
    exact ⟨start, hroute.append (.nil _), hstart⟩
  | cons next later ih =>
    obtain ⟨hnext, hlater⟩ := List.forall_mem_cons.mp hlater
    obtain ⟨start, hroute, hstart⟩ := route_operate hP hm patience op
    obtain ⟨start', hrest, hstart'⟩ := ih (hP.operate patience op [] hm) next hlater
    rw [hstart' hnext] at hrest
    exact ⟨start, hroute.append hrest, hstart⟩

end Runs

/-! ## Straight on -/

/-- **A route without jumps is short**: each of its instructions is in memory, and two words behind
the one before it. -/
theorem Route.pc_bound {limit : Nat} (h : Route Sound start visits last) (hne : visits ≠ [])
    (hsize : ∀ m, Sound m → m.memory.size ≤ limit)
    (hok : ∀ m ∈ visits, ∃ event, m.step.1 = .ok event) (hjump : ∀ m ∈ visits, ¬m.TakesJump) :
    ∃ pc, start = some pc ∧ pc + 2 * visits.length ≤ limit + 1 := by
  induction h with
  | nil => exact absurd rfl hne
  | @cons visit visits last hsound hrest ih =>
    refine ⟨visit.pc, rfl, ?_⟩
    obtain ⟨⟨event, hevent⟩, hok⟩ := List.forall_mem_cons.mp hok
    obtain ⟨hstays, hjump⟩ := List.forall_mem_cons.mp hjump
    have hpc := pc_lt_size_of_step hevent
    have hlimit := hsize visit hsound
    rw [List.length_cons]
    by_cases hnil : visits = []
    · rw [hnil, List.length_nil]
      omega
    · obtain ⟨next, hleads, hbound⟩ := ih hnil hok hjump
      have hgoes := add_two_le_of_leads hleads hstays
      omega

/-- A budget that is spent has been spent on instructions that were executed. -/
theorem visits_of_running {n : Nat} (h : cycles n m = (.ok .running, after)) :
    (Machine.visits n m).length = n ∧ ∀ v ∈ Machine.visits n m, v.step.1 = .ok .running := by
  induction n generalizing m with
  | zero => exact ⟨rfl, List.forall_mem_nil _⟩
  | succ n ih =>
    by_cases hr : m.step.1 = .ok .running
    · rw [cycles_succ_of_running hr] at h
      obtain ⟨hlength, hok⟩ := ih h
      rw [visits_succ_of_running hr]
      exact ⟨congrArg (· + 1) hlength, List.forall_mem_cons.mpr ⟨hr, hok⟩⟩
    · rw [cycles_succ_of_stop hr] at h
      exact absurd (congrArg Prod.fst h) hr

theorem executeVisits_of_running {n : Nat} (h : m.execute n = (.ok .running, after)) :
    (m.executeVisits n).length = n ∧ ∀ v ∈ m.executeVisits n, v.step.1 = .ok .running := by
  obtain hlive | ⟨r, hs⟩ := m.live_or_stopped
  · rw [execute_of_live hlive] at h
    rw [executeVisits_of_live hlive]
    exact visits_of_running h
  · rw [execute_of_stopped hs] at h
    exact absurd (congrArg Prod.fst h) hs.ne_running

/-- **Code that does not jump cannot run away.**  Memory has at most so many words as the program or
as there are addresses, whichever is more, and half of them, rounded up, is all that can be executed
without a jump: among one instruction more, executed one after the other in a row of operations of
which none but the first starts the machine over, one is a jump that is taken.  So no larger budget
is spent without a jump or an end of the run.  Beyond the end of memory every instruction fails, as
one with the word zero. -/
theorem straight_line_ends (program : Program) (patience : Nat) (ops : List (Operation σ)) :
    let last := (session patience ops (create program)).2
    let limit := max program.image.size (maxAddress + 1)
    (∀ patience op later, (∀ op ∈ later, ¬op.Restarts) →
        ∀ window, window <:+: last.sessionVisits patience (op :: later) →
          window.length = (limit + 1) / 2 + 1 → (∀ m ∈ window, ∃ event, m.step.1 = .ok event) →
            ∃ m ∈ window, m.TakesJump) ∧
      (∀ n, (limit + 1) / 2 < n → (∀ m ∈ last.executeVisits n, ¬m.TakesJump) →
        (last.execute n).1 ≠ .ok .running) ∧
      ∀ m : Machine σ, m.memory.size ≤ m.pc →
        m.step = (.error (.noInstruction m.pc 0), m) ∧
          (m.state.Live → ∀ n, m.execute (n + 1) = (.error (.noInstruction m.pc 0),
            m.recorded (.error (.noInstruction m.pc 0)))) := by
  intro last limit
  have hbounded := History.bounded (σ := σ) program
  have hlast : last.Bounded program := hbounded.session patience ops [] (.of_create program)
  refine ⟨fun patience op later hlater window hwindow hlength hok => ?_,
    fun n hn hjump hrunning => ?_, fun m hout => ⟨step_of_size_le hout, fun hlive n => ?_⟩⟩
  · by_contra hnone
    obtain ⟨start, hroute, -⟩ := route_session hbounded hlast patience op hlater
    obtain ⟨start', last', hroute⟩ := hroute.exists_of_infix hwindow
    obtain ⟨pc, -, hbound⟩ := hroute.pc_bound (List.ne_nil_of_length_eq_add_one hlength)
      (fun m hm => hm.size) hok fun m hm hjump => hnone ⟨m, hm, hjump⟩
    omega
  · have hrun : last.execute n = (.ok .running, _) := Prod.ext hrunning rfl
    obtain ⟨hlength, hok⟩ := executeVisits_of_running hrun
    have hne : last.executeVisits n ≠ [] := List.ne_nil_of_length_pos (by omega)
    obtain ⟨pc, -, hbound⟩ := (route_execute hbounded hlast n).pc_bound hne
      (fun m hm => hm.size) (fun m hm => ⟨_, hok m hm⟩) hjump
    omega
  · have hstep : (m.withState .running).step = (.error (.noInstruction m.pc 0), _) :=
      step_of_size_le hout
    rw [execute_of_live hlive, cycles_succ_of_stop (by rw [hstep]; exact nofun), hstep]
    rfl

/-- A program that jumps to its own start, again and again, and one that comes to the end of memory
after its only instruction. -/
theorem straight_line_ends_loop :
    let loop : Machine Empty := create ⟨([1105, 1, 0].map Word.wrap).toArray⟩
    let straight : Machine Empty := create ⟨([1101, 1, 2, 0].map Word.wrap).toArray⟩
    (∃ m ∈ loop.sessionVisits 1 [.execute 8388609], m.TakesJump) ∧
      (straight.execute 8388609).1 ≠ .ok .running ∧
      ∃ after, straight.execute 1 = (.ok .running, after) ∧
        after.step = (.error (.noInstruction 4 0), after) := by
  intro loop straight
  obtain ⟨hjumps, -, -⟩ := straight_line_ends (σ := Empty) loop.program 1 []
  obtain ⟨-, hends, hfails⟩ := straight_line_ends (σ := Empty) straight.program 1 []
  -- the loop comes back to the same machine
  have hplan : (loop.withState .running).plan = .ok (.jumpIfTrue, .jump 0) := by
    unfold loop
    rfl
  have hstep : (loop.withState .running).step = (.ok .running, loop.withState .running) :=
    step_of_plan_ok hplan
  have hvisits (n : Nat) : Machine.visits n (loop.withState .running) =
      List.replicate n (loop.withState .running) := by
    induction n with
    | zero => rfl
    | succ n ih =>
      rw [visits_succ_of_running (by rw [hstep]), hstep, ih]
      rfl
  have hwindow : loop.sessionVisits 1 [.execute 8388609] =
      List.replicate 8388609 (loop.withState .running) :=
    (List.append_nil _).trans (hvisits 8388609)
  -- the other program has two instructions in front of it, of which the second is none
  have hstraight (n : Nat) : straight.executeVisits (n + 2) =
      [straight.withState .running, (straight.execute 1).2] := by
    unfold straight
    rfl
  have hout : (straight.execute 1).2.memory.size ≤ (straight.execute 1).2.pc := by
    unfold straight
    exact Nat.le_refl 4
  have hnone : ∀ m ∈ straight.executeVisits (8388607 + 2), ¬m.TakesJump := by
    rw [hstraight]
    refine List.forall_mem_cons.mpr ⟨?_, List.forall_mem_singleton.mpr ?_⟩
    · rintro (⟨h, -, -⟩ | ⟨h, -, -⟩) <;> cases h
    · rintro (⟨h, -, -⟩ | ⟨h, -, -⟩) <;> exact absurd (pc_lt_size h) (Nat.not_lt.mpr hout)
  have hpc : (straight.execute 1).2.pc = 4 := by
    unfold straight
    rfl
  obtain ⟨hfails, -⟩ := hfails _ hout
  rw [hpc] at hfails
  refine ⟨?_, hends 8388609 (by decide) hnone, (straight.execute 1).2, ?_, hfails⟩
  · refine hjumps 1 (.execute 8388609) [] (List.forall_mem_nil _) _ List.infix_rfl ?_ ?_
    · rw [hwindow, List.length_replicate]
      decide
    · rw [hwindow]
      intro m hm
      rw [List.eq_of_mem_replicate hm, hstep]
      exact ⟨.running, rfl⟩
  · unfold straight
    rfl

end Machine

end Intcode
