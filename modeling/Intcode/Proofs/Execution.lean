import Intcode.Machine.Run

/-!
# Proofs/Execution — runs, taken apart at any instruction

A run is a row of steps of which all but the last say that nothing happened.  What the last one says
is recorded in the state and, if it is an error, in the fault, and these two are all that a step
never looks at.

* `Machine.step_withRecord` — a step is the same with every state and fault;
* `Machine.execute_add` — a budget may be spent in two parts;
* `Machine.exists_of_execute_stop` — a run that stops does so at one instruction, before which
  nothing happened;
* `Machine.execute_of_stopped` — a machine that has stopped does not run any more.
-/

namespace Intcode

namespace State

/-- The machine may go on. -/
def Live : State → Prop
  | .ready | .running | .suspended => True
  | .halted | .faulted => False

theorem Live.ne_faulted {s : State} (h : s.Live) : s ≠ .faulted := by
  rintro rfl
  exact h

/-- The state in which a result leaves the machine. -/
def after : Except Error Event → State
  | .ok .running => .running
  | .ok (.output _) => .suspended
  | .ok .halted => .halted
  | .error _ => .faulted

theorem after_ok_ne_faulted (event : Event) : after (.ok event) ≠ .faulted := by
  cases event <;> exact nofun

end State

namespace Machine

variable {σ : Type}

/-- The machine in another state, and with another fault. -/
def withRecord (m : Machine σ) (s : State) (fault : Option Error) : Machine σ :=
  { m with state := s, fault := fault }

/-- The machine in another state. -/
def withState (m : Machine σ) (s : State) : Machine σ := m.withRecord s m.fault

@[simp] theorem withState_state (m : Machine σ) : m.withState m.state = m := rfl

/-- The fault in which a result leaves the machine: an error is a new one. -/
def faultAfter (m : Machine σ) : Except Error Event → Option Error
  | .ok _ => m.fault
  | .error e => some e

/-- A fault is an error that has just come up, or was there before. -/
theorem eq_error_or_of_faultAfter {m : Machine σ} {r : Except Error Event} {e : Error}
    (h : m.faultAfter r = some e) : r = .error e ∨ m.fault = some e := by
  cases r with
  | ok event => exact .inr h
  | error cause =>
    cases h
    exact .inl rfl

/-- The machine with the result of its last step written down. -/
def recorded (m : Machine σ) (r : Except Error Event) : Machine σ :=
  m.withRecord (.after r) (m.faultAfter r)

/-- **A machine has stopped for good**, and this is what its runs say of it: that it has halted, or
its fault.  Of a machine that has failed without a fault they say that it was not written down. -/
inductive Stopped (m : Machine σ) : Except Error Event → Prop
  | halted (h : m.state = .halted) : Stopped m (.ok .halted)
  | faulted {e : Error} (h : m.state = .faulted) (hfault : m.fault.getD .faultNotRecorded = e) :
    Stopped m (.error e)

/-- A machine may go on, or has stopped. -/
theorem live_or_stopped (m : Machine σ) : m.state.Live ∨ ∃ r, m.Stopped r := by
  cases h : m.state with
  | ready | running | suspended => exact .inl trivial
  | halted => exact .inr ⟨_, .halted h⟩
  | faulted => exact .inr ⟨_, .faulted h rfl⟩

namespace Stopped

variable {m : Machine σ} {r : Except Error Event}

theorem state_eq (h : m.Stopped r) : m.state = .after r := by
  cases h with
  | halted h | faulted h => exact h

theorem not_live (h : m.Stopped r) : ¬m.state.Live := by
  cases h with
  | halted h | faulted h => exact h ▸ id

theorem ne_running (h : m.Stopped r) : r ≠ .ok .running := by
  cases h <;> exact nofun

/-- Whether a machine has stopped depends on its state and its fault alone. -/
theorem of_eq {τ : Type} {other : Machine τ} (h : m.Stopped r) (hstate : other.state = m.state)
    (hfault : other.fault = m.fault) : other.Stopped r := by
  cases h with
  | halted h => exact .halted (hstate.trans h)
  | faulted h he => exact .faulted (hstate.trans h) (hfault ▸ he)

end Stopped

/-- Goes on from a result in which nothing happened; any other stays as it is. -/
def andThen (r : Except Error Event × Machine σ)
    (go : Machine σ → Except Error Event × Machine σ) : Except Error Event × Machine σ :=
  match r with
  | (.ok .running, m) => go m
  | stopped => stopped

theorem andThen_of_stop {r : Except Error Event × Machine σ} (h : r.1 ≠ .ok .running)
    (go : Machine σ → Except Error Event × Machine σ) : andThen r go = r := by
  obtain ⟨x, m⟩ := r
  match x, h with
  | .ok .running, h => exact absurd rfl h
  | .ok (.output _), _ | .ok .halted, _ | .error _, _ => rfl

/-! ## One step -/

theorem store_of_le {m : Machine σ} {target : Nat} (h : target ≤ maxAddress) (value : Word)
    (next : Nat) :
    m.store target value next =
      (.ok .running, { m with memory := m.memory.set target value, pc := next }) := by
  unfold store
  split
  next e he =>
    rw [Memory.refusal?, if_neg (by omega)] at he
    cases he
  next => rfl

theorem store_withRecord (m : Machine σ) (s : State) (fault : Option Error) (target : Nat)
    (value : Word) (next : Nat) :
    (m.withRecord s fault).store target value next =
      ((m.store target value next).1, (m.store target value next).2.withRecord s fault) := by
  unfold store
  split <;> rfl

/-- A store takes nothing from the input. -/
theorem store_input (m : Machine σ) (target : Nat) (value : Word) (next : Nat) :
    (m.store target value next).2.input = m.input := by
  unfold store
  split <;> rfl

variable [Source σ]

theorem step_of_plan_error {m : Machine σ} {e : Error} (h : m.plan = .error e) :
    m.step = (.error e, m) := by
  rw [step, h]

theorem step_of_plan_ok {m : Machine σ} {op : Opcode} {a : Action} (h : m.plan = .ok (op, a)) :
    m.step = m.perform (m.pc + op.width) a := by
  rw [step, h]

theorem perform_receive_of_some {m : Machine σ} {value : Word} {input : Input σ}
    (h : m.input.pop = (some value, input)) (next target : Nat) :
    m.perform next (.receive target) = store { m with input := input } target value next := by
  rw [perform, h]

theorem perform_receive_of_none {m : Machine σ} {input : Input σ}
    (h : m.input.pop = (none, input)) (next target : Nat) :
    m.perform next (.receive target) = (.error (.starved m.pc), { m with input := input }) := by
  rw [perform, h]

theorem perform_receive_of_cons {m : Machine σ} {x : Word} {rest : List Word}
    (h : m.input.queue.toList = x :: rest) (next target : Nat) :
    m.perform next (.receive target) =
      store { m with input := { m.input with queue := .ofList rest } } target x next :=
  perform_receive_of_some (Input.pop_of_cons h) next target

theorem perform_receive_of_nil {m : Machine σ} (h : m.input.queue.toList = [])
    (hsource : m.input.source = none) (next target : Nat) :
    m.perform next (.receive target) = (.error (.starved m.pc), m) :=
  perform_receive_of_none (Input.pop_of_nil h hsource) next target

theorem perform_withRecord (m : Machine σ) (s : State) (fault : Option Error) (next : Nat)
    (a : Action) :
    (m.withRecord s fault).perform next a =
      ((m.perform next a).1, (m.perform next a).2.withRecord s fault) := by
  cases a with
  | store target value => exact m.store_withRecord s fault target value next
  | receive target =>
    rcases hpop : m.input.pop with ⟨_ | value, input⟩
    · rw [perform_receive_of_none hpop, perform_receive_of_none (m := m.withRecord s fault) hpop]
      rfl
    · rw [perform_receive_of_some hpop, perform_receive_of_some (m := m.withRecord s fault) hpop]
      exact store_withRecord { m with input := input } s fault target value next
  | emit value | jump target | pass | rebase base | halt => rfl

/-- **A step is the same with every state and fault**, and leaves both as they are. -/
theorem step_withRecord (m : Machine σ) (s : State) (fault : Option Error) :
    (m.withRecord s fault).step = (m.step.1, m.step.2.withRecord s fault) := by
  have hplan : (m.withRecord s fault).plan = m.plan := rfl
  cases h : m.plan with
  | error e => rw [step_of_plan_error h, step_of_plan_error (hplan.trans h)]
  | ok p =>
    rw [step_of_plan_ok h, step_of_plan_ok (hplan.trans h)]
    exact m.perform_withRecord s fault _ p.2

theorem step_state (m : Machine σ) : m.step.2.state = m.state :=
  congrArg (fun r => r.2.state) (m.step_withRecord m.state m.fault)

theorem step_fault (m : Machine σ) : m.step.2.fault = m.fault :=
  congrArg (fun r => r.2.fault) (m.step_withRecord m.state m.fault)

theorem step_withState (m : Machine σ) (s : State) :
    (m.withState s).step = (m.step.1, m.step.2.withState s) := by
  rw [withState, step_withRecord, withState, step_fault]

/-- A machine without a source gets none by executing. -/
theorem step_source_eq_none {m : Machine σ} (h : m.input.source = none) :
    m.step.2.input.source = none := by
  cases hplan : m.plan with
  | error e =>
    rw [step_of_plan_error hplan]
    exact h
  | ok p =>
    obtain ⟨op, a⟩ := p
    rw [step_of_plan_ok hplan]
    cases a with
    | store target value =>
      rw [perform, store_input]
      exact h
    | receive target =>
      cases hqueue : m.input.queue.toList with
      | nil =>
        rw [perform_receive_of_nil hqueue h]
        exact h
      | cons x rest =>
        rw [perform_receive_of_cons hqueue, store_input]
        exact h
    | emit value | jump target | pass | rebase base | halt => exact h

/-! ## Cycles -/

theorem cycles_succ_of_running {m : Machine σ} (h : m.step.1 = .ok .running) (n : Nat) :
    cycles (n + 1) m = cycles n m.step.2 := by
  have hstep : m.step = (.ok .running, m.step.2) := Prod.ext h rfl
  rw [cycles, hstep]

theorem cycles_succ_of_stop {m : Machine σ} (h : m.step.1 ≠ .ok .running) (n : Nat) :
    cycles (n + 1) m = (m.step.1, m.step.2.recorded m.step.1) := by
  rw [cycles]
  generalize m.step = stepped at h ⊢
  obtain ⟨r, after⟩ := stepped
  match r, h with
  | .ok .running, h => exact absurd rfl h
  | .ok (.output _), _ | .ok .halted, _ | .error _, _ => rfl

theorem cycles_state {n : Nat} {m after : Machine σ} (h : cycles n m = (.ok .running, after)) :
    after.state = m.state := by
  induction n generalizing m with
  | zero =>
    cases h
    rfl
  | succ n ih =>
    by_cases hr : m.step.1 = .ok .running
    · rw [cycles_succ_of_running hr] at h
      exact (ih h).trans m.step_state
    · rw [cycles_succ_of_stop hr] at h
      exact absurd (congrArg Prod.fst h) hr

/-- **Cycles add up**: the second part is spent only if nothing happened in the first. -/
theorem cycles_add (a b : Nat) (m : Machine σ) :
    cycles (a + b) m = andThen (cycles a m) (cycles b) := by
  induction a generalizing m with
  | zero =>
    rw [Nat.zero_add]
    rfl
  | succ a ih =>
    rw [Nat.add_right_comm]
    by_cases hr : m.step.1 = .ok .running
    · rw [cycles_succ_of_running hr, cycles_succ_of_running hr, ih]
    · rw [cycles_succ_of_stop hr, cycles_succ_of_stop hr, andThen_of_stop (by exact hr)]

theorem cycles_source_eq_none {n : Nat} {m : Machine σ} (h : m.input.source = none) :
    (cycles n m).2.input.source = none := by
  induction n generalizing m with
  | zero => exact h
  | succ n ih =>
    by_cases hr : m.step.1 = .ok .running
    · rw [cycles_succ_of_running hr]
      exact ih (step_source_eq_none h)
    · rw [cycles_succ_of_stop hr]
      exact step_source_eq_none h

/-- A run that stops took some steps in which nothing happened, and then one more. -/
theorem exists_of_cycles_stop {n : Nat} {m last : Machine σ} {r : Except Error Event}
    (h : cycles n m = (r, last)) (hr : r ≠ .ok .running) :
    ∃ k < n, ∃ before after, cycles k m = (.ok .running, before) ∧ before.step = (r, after) ∧
      last = after.recorded r := by
  induction n generalizing m with
  | zero =>
    cases h
    exact absurd rfl hr
  | succ n ih =>
    by_cases hstep : m.step.1 = .ok .running
    · rw [cycles_succ_of_running hstep] at h
      obtain ⟨k, hk, before, after, hbefore, hafter⟩ := ih h
      refine ⟨k + 1, Nat.succ_lt_succ hk, before, after, ?_, hafter⟩
      rw [cycles_succ_of_running hstep, hbefore]
    · rw [cycles_succ_of_stop hstep] at h
      cases h
      exact ⟨0, Nat.succ_pos n, m, m.step.2, rfl, rfl, rfl⟩

/-! ## Budgets -/

theorem execute_of_live {m : Machine σ} (h : m.state.Live) (n : Nat) :
    m.execute n = cycles n (m.withState .running) := by
  unfold execute
  split
  next hs => rw [hs] at h; exact h.elim
  next hs => rw [hs] at h; exact h.elim
  next => rfl
  next => rfl
  next => rfl

/-- **A run of a machine that has stopped does nothing**, and says what the last one said. -/
theorem execute_of_stopped {m : Machine σ} {r : Except Error Event} (h : m.Stopped r) (n : Nat) :
    m.execute n = (r, m) := by
  cases h with
  | halted h => rw [execute, h]
  | faulted h he => rw [execute, h, he]

/-- Only a machine that may go on can fail anew. -/
theorem live_of_error {m after : Machine σ} {n : Nat} {e : Error} (hstate : m.state ≠ .faulted)
    (h : m.execute n = (.error e, after)) : m.state.Live := by
  obtain hlive | ⟨r, hs⟩ := m.live_or_stopped
  · exact hlive
  · rw [execute_of_stopped hs] at h
    obtain ⟨rfl, -⟩ := Prod.mk.inj h
    exact absurd hs.state_eq hstate

/-- A machine that has spent its budget is running. -/
theorem execute_state {n : Nat} {m after : Machine σ} (h : m.execute n = (.ok .running, after)) :
    after.state = .running := by
  obtain hlive | ⟨r, hs⟩ := m.live_or_stopped
  · rw [execute_of_live hlive] at h
    exact cycles_state h
  · rw [execute_of_stopped hs] at h
    exact absurd (congrArg Prod.fst h) hs.ne_running

/-- A running machine needs no state of its own to be written down first. -/
theorem execute_of_running {m : Machine σ} (h : m.state = .running) (n : Nat) :
    m.execute n = cycles n m := by
  rw [execute_of_live (by rw [h]; trivial), ← h, withState_state]

theorem execute_source_eq_none {m : Machine σ} (h : m.input.source = none) (n : Nat) :
    (m.execute n).2.input.source = none := by
  obtain hlive | ⟨r, hs⟩ := m.live_or_stopped
  · rw [execute_of_live hlive]
    exact cycles_source_eq_none (m := m.withState .running) h
  · rw [execute_of_stopped hs]
    exact h

/-- **A budget of one is one step**, with its result recorded. -/
theorem execute_one {m : Machine σ} (h : m.state.Live) :
    m.execute 1 = (m.step.1, m.step.2.recorded m.step.1) := by
  have hstep := m.step_withState .running
  rw [execute_of_live h]
  by_cases hr : (m.withState .running).step.1 = .ok .running
  · rw [cycles_succ_of_running hr, cycles, hstep]
    rw [hstep] at hr
    rw [show m.step.1 = .ok .running from hr]
    rfl
  · rw [cycles_succ_of_stop hr, hstep]
    rfl

/-- **A budget may be spent in two parts**, of which the second is spent only if nothing happened in
the first. -/
theorem execute_add (a b : Nat) (m : Machine σ) :
    m.execute (a + b) = andThen (m.execute a) (execute b) := by
  obtain hlive | ⟨r, hs⟩ := m.live_or_stopped
  · rw [execute_of_live hlive, execute_of_live hlive, cycles_add]
    by_cases hr : (cycles a (m.withState .running)).1 = .ok .running
    · have h : cycles a (m.withState .running) = (.ok .running, _) := Prod.ext hr rfl
      rw [h]
      exact (execute_of_running (cycles_state h) b).symm
    · rw [andThen_of_stop hr, andThen_of_stop hr]
  · rw [execute_of_stopped hs, execute_of_stopped hs, andThen_of_stop hs.ne_running]

/-- **A run that stops does so at one instruction**: before that nothing happened, and its result is
what the run gives and what is recorded. -/
theorem exists_of_execute_stop {n : Nat} {m last : Machine σ} {r : Except Error Event}
    (hlive : m.state.Live) (h : m.execute n = (r, last)) (hr : r ≠ .ok .running) :
    ∃ k < n, ∃ before after, m.execute k = (.ok .running, before) ∧ before.step = (r, after) ∧
      last = after.recorded r := by
  rw [execute_of_live hlive] at h
  obtain ⟨k, hk, before, after, hbefore, hafter⟩ := exists_of_cycles_stop h hr
  exact ⟨k, hk, before, after, (execute_of_live hlive k).trans hbefore, hafter⟩

/-- A run leaves the state that its result stands for. -/
theorem state_of_execute {m after : Machine σ} {n : Nat} {r : Except Error Event}
    (h : m.execute n = (r, after)) : after.state = .after r := by
  obtain hlive | ⟨result, hs⟩ := m.live_or_stopped
  · by_cases hr : r = .ok .running
    · subst hr
      exact execute_state h
    · obtain ⟨k, -, before, last, -, -, rfl⟩ := exists_of_execute_stop hlive h hr
      rfl
  · rw [execute_of_stopped hs] at h
    obtain ⟨rfl, rfl⟩ := Prod.mk.inj h
    exact hs.state_eq

/-- A run that fails leaves the machine stopped with its error. -/
theorem stopped_of_execute {m after : Machine σ} {n : Nat} {e : Error}
    (h : m.execute n = (.error e, after)) : after.Stopped (.error e) := by
  obtain hlive | ⟨r, hs⟩ := m.live_or_stopped
  · obtain ⟨k, -, before, last, -, -, rfl⟩ := exists_of_execute_stop hlive h nofun
    exact .faulted rfl rfl
  · rw [execute_of_stopped hs] at h
    obtain ⟨rfl, rfl⟩ := Prod.mk.inj h
    exact hs

end Machine

end Intcode
