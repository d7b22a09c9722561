import Intcode.Proofs.Execution
import Intcode.Proofs.Ideal.Planning

/-!
# Proofs/Faults — an instruction that fails changes nothing

There are two ways for an instruction to fail: while it is worked out, when nothing has been touched
yet, and for want of input, when only a source may have been asked.  Behind that it cannot fail any
more, since a destination that was resolved is never beyond the last address.

* `Machine.step_of_error` — the two ways;
* `Machine.failsWith_of_step` — what there is to say of a failing instruction, which leaves the
  machine in front of it and is named by its error.

That no error is placed twice is part of what `Error.place` asks for: it takes an error only with
the proof that it has no address yet.
-/

namespace Intcode

open Obstacle (require)

/-! ## Obstacles before the input -/

theorem Obstacle.eq_of_mem_require {c : Prop} [Decidable c] {o x : Obstacle}
    (h : x ∈ require c o) : x = o := by
  unfold require at h
  split at h
  · cases h
  · exact List.mem_singleton.mp h

theorem ExactOperand.ne_starved_of_mem_source {x : ExactOperand} {o : Obstacle}
    (h : o ∈ x.sourceObstacles) : o ≠ .starved := by
  rintro rfl
  simp only [sourceObstacles, modeObstacles, addressObstacles, List.mem_append] at h
  obtain h | h | h := h <;> cases Obstacle.eq_of_mem_require h

theorem ExactOperand.ne_starved_of_mem_target {x : ExactOperand} {o : Obstacle}
    (h : o ∈ x.targetObstacles) : o ≠ .starved := by
  rintro rfl
  simp only [targetObstacles, modeObstacles, addressObstacles, List.mem_append] at h
  obtain (h | h) | h | h := h <;> cases Obstacle.eq_of_mem_require h

/-- Until the input is looked at, there is no want of it. -/
theorem Ideal.ne_starved_of_mem {i : Ideal} {o : Obstacle} (h : o ∈ i.planObstacles) :
    o ≠ .starved := by
  unfold planObstacles at h
  cases hop : i.opcode? with
  | none =>
    rw [hop] at h
    rw [List.mem_singleton.mp h]
    exact nofun
  | some op =>
    rw [hop] at h
    obtain h | h := List.mem_append.mp h
    · obtain h | h := List.mem_append.mp h
      · obtain ⟨k, -, h⟩ := List.mem_flatMap.mp h
        exact ExactOperand.ne_starved_of_mem_source h
      · cases htarget : op.target? with
        | none =>
          rw [htarget] at h
          cases h
        | some k =>
          rw [htarget] at h
          exact ExactOperand.ne_starved_of_mem_target h
    · rintro rfl
      cases op with
      | add | mul | jumpIfTrue | jumpIfFalse | adjustBase => cases Obstacle.eq_of_mem_require h
      | less | equals | read | write | exit => cases h

/-! ## Errors of an instruction -/

/-- The kinds of error that an instruction can fail with. -/
def ErrorKind.ofExecution : List ErrorKind :=
  [.invalidOpcode, .inputStarvation, .invalidAddress, .invalidMode, .immediateWrite, .overflow]

/-- The input after its source, if there is one, was asked once. -/
def Input.asked {σ : Type} [Source σ] (input : Input σ) : Input σ :=
  input.withSource (input.source.map fun s => (Source.next s).2)

/-- An input gives nothing only if its queue is empty, and then its source has been asked. -/
theorem Input.pop_of_none {σ : Type} [Source σ] {input after : Input σ}
    (h : input.pop = (none, after)) : input.queue.toList = [] ∧ after = input.asked := by
  cases hqueue : input.queue.toList with
  | cons x rest =>
    rw [pop_of_cons hqueue] at h
    cases congrArg Prod.fst h
  | nil =>
    refine ⟨rfl, ?_⟩
    cases hsource : input.source with
    | none =>
      rw [pop_of_nil hqueue hsource] at h
      rw [← (Prod.mk.inj h).2, asked, hsource, Option.map_none, ← hsource]
      rfl
    | some s =>
      rw [pop, Queue.pop?_eq, hqueue, hsource] at h
      rw [← (Prod.mk.inj h).2, asked, hsource]
      rfl

namespace Machine

variable {σ : Type} [Source σ]

/-- **What there is to say of a failing instruction**, from the machine in front of it, the machine
behind it and the error. -/
structure FailsWith (before after : Machine σ) (e : Error) : Prop where
  memory : after.memory = before.memory
  pc : after.pc = before.pc
  base : after.base = before.base
  queue : after.input.queue = before.input.queue
  program : after.program = before.program
  /-- The error is placed at the instruction. -/
  address : e.address = some after.pc
  kind : e.kind ∈ ErrorKind.ofExecution
  state : after.state = .faulted
  fault : after.fault = some e
  /-- Other than for want of input the instruction fails with any source, and with none, and leaves
  it as it was. -/
  unasked : e.kind ≠ .inputStarvation → after.input.source = before.input.source ∧
    ∀ source, (before.withSource source).execute 1 = (.error e, after.withSource source)
  /-- For want of input the queue is empty, and the source, if there is one, has been asked once. -/
  asked : e.kind = .inputStarvation → before.input.queue.toList = [] ∧
    after.input = before.input.asked

omit [Source σ] in
theorem kind_of_plan_error {m : Machine σ} {e : Error} (h : m.plan = .error e) :
    e.kind ∈ ErrorKind.ofExecution ∧ e.kind ≠ .inputStarvation ∧ e.address = some m.pc := by
  obtain ⟨o, hmem, ho⟩ := m.plan_meets.exists_of_error h
  have hne := Ideal.ne_starved_of_mem hmem
  rw [ho.kind]
  refine ⟨?_, ?_, ho.address⟩
  · cases o with
    | noInstruction _ => exact .head _
    | starved => exact absurd rfl hne
    | noRelativeAddress | noResult _ | noBase | noMode _ | immediateTarget _ | noAddress _ =>
      simp [Obstacle.kind, ErrorKind.ofExecution]
  · cases o with
    | starved => exact absurd rfl hne
    | noInstruction _ | noMode _ | immediateTarget _ | noRelativeAddress | noAddress _
    | noResult _ | noBase => exact nofun

/-- **The two ways for an instruction to fail**: while it is worked out, with everything as it was,
or in front of an empty queue with a source, if there is one, that has nothing to give. -/
theorem step_of_error {m after : Machine σ} {e : Error} (h : m.step = (.error e, after)) :
    (m.plan = .error e ∧ after = m) ∨
      ∃ target, m.plan = .ok (.read, .receive target) ∧ e = .starved m.pc ∧
        m.input.queue.toList = [] ∧ after = { m with input := m.input.asked } := by
  cases hplan : m.plan with
  | error e' =>
    rw [step_of_plan_error hplan] at h
    cases h
    exact .inl ⟨rfl, rfl⟩
  | ok p =>
    obtain ⟨op, a⟩ := p
    obtain ⟨-, -, hcarries⟩ := m.plan_meets.of_ok hplan
    rw [step_of_plan_ok hplan] at h
    cases a with
    | store target value =>
      rw [perform, store_of_le hcarries.inRange] at h
      cases congrArg Prod.fst h
    | receive target =>
      have hop : op = .read := hcarries.receives.mp rfl
      rcases hpop : m.input.pop with ⟨_ | value, input⟩
      · rw [perform_receive_of_none hpop] at h
        obtain ⟨he, hafter⟩ := Prod.mk.inj h
        obtain ⟨hqueue, rfl⟩ := Input.pop_of_none hpop
        exact .inr ⟨target, by rw [hop], (Except.error.inj he).symm, hqueue, hafter.symm⟩
      · rw [perform_receive_of_some hpop, store_of_le hcarries.inRange] at h
        cases congrArg Prod.fst h
    | emit value | jump target | pass | rebase base | halt => cases congrArg Prod.fst h

theorem failsWith_of_step {m after : Machine σ} {e : Error} (hlive : m.state.Live)
    (h : m.step = (.error e, after)) : FailsWith m (after.recorded (.error e)) e := by
  obtain ⟨hplan, rfl⟩ | ⟨target, -, rfl, hqueue, rfl⟩ := step_of_error h
  · obtain ⟨hkind, hne, haddress⟩ := kind_of_plan_error hplan
    exact {
      memory := rfl
      pc := rfl
      base := rfl
      queue := rfl
      program := rfl
      address := haddress
      kind := hkind
      state := rfl
      fault := rfl
      unasked := fun _ => ⟨rfl, fun source => by
        have hsource : (after.withSource source).plan = .error e := hplan
        have hlive' : (after.withSource source).state.Live := hlive
        rw [execute_one hlive', step_of_plan_error hsource]
        rfl⟩
      asked := fun hstarved => absurd hstarved hne }
  · exact {
      memory := rfl
      pc := rfl
      base := rfl
      queue := rfl
      program := rfl
      address := rfl
      kind := List.mem_of_elem_eq_true rfl
      state := rfl
      fault := rfl
      unasked := fun hne => absurd rfl hne
      asked := fun _ => ⟨hqueue, rfl⟩ }

/-- **A run that fails has changed nothing since the failing instruction**, before which nothing
happened that the caller would have to know of: its memory, its registers and its queue are those
of the machine in front of it.  The error names that instruction and is recorded, and only an
instruction that starves has asked a source.  The two errors that come from memory are placed once,
by the instruction. -/
theorem execute_of_error {m after : Machine σ} {n : Nat} {e : Error} (hstate : m.state ≠ .faulted)
    (h : m.execute n = (.error e, after)) :
    (∃ k < n, ∃ before, m.execute k = (.ok .running, before) ∧ FailsWith before after e) ∧
      (∀ word cause, Memory.address word = .error cause → cause.address = none) ∧
      ∀ target cause, Memory.refusal? target = some cause → cause.address = none := by
  refine ⟨?_, fun _ _ => Memory.address_eq_none_of_address,
    fun _ _ => Memory.address_eq_none_of_refusal?⟩
  obtain ⟨k, hk, before, last, hbefore, hstep, rfl⟩ :=
    exists_of_execute_stop (live_of_error hstate h) h nofun
  have hlive : before.state.Live := by
    rw [execute_state hbefore]
    trivial
  exact ⟨k, hk, before, hbefore, failsWith_of_step hlive hstep⟩

/-- A jump to -1 behind another instruction, with a source that would have something to give. -/
theorem execute_of_error_jump :
    let m : Machine Supply := (create ⟨([109, 5, 1105, 1, -1].map Word.wrap).toArray⟩).withSource
      (some (.counting 1 1))
    m.state ≠ .faulted ∧ ∃ e after, m.execute 2 = (.error e, after) ∧ e.kind = .invalidAddress ∧
      e.address = some 2 ∧ after.input.source = some (.counting 1 1) ∧
      ∃ k < 2, ∃ before, m.execute k = (.ok .running, before) ∧ FailsWith before after e := by
  refine ⟨by decide, (Error.noAddress (.wrap (-1))).atAddress 2, _, Prod.ext rfl rfl, rfl, rfl, rfl,
    ?_⟩
  exact (execute_of_error (by decide) (Prod.ext rfl rfl)).1

end Machine

end Intcode
