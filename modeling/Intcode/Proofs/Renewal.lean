import Intcode.Proofs.Lockstep

/-!
# Proofs/Renewal — a reset leaves nothing of what was before

A machine that is started over has its program and its source, and nothing else, from the time
before.  So two machines with one program differ after a reset at most in their sources, and that
makes no difference until one of the sources is asked.

* `Machine.Twin` — machines that differ at most in their sources;
* `Machine.twin_reset`, `Machine.reset_eq` — what a reset makes of machines with one program;
* `Machine.Twin.lockstep` — twins go in lockstep as long as no source is asked;
* `Machine.reset_renews` — so their owner cannot tell them apart, and a machine without a source
  runs like a new one, as often as it is started over.
-/

namespace Intcode

/-- Whether a change is that a source was asked. -/
def Change.Asks {σ : Type} : Change σ → Prop
  | .asked .. => True
  | .started _ | .appended _ | .sourced _ | .stored .. | .took .. => False

namespace Machine

variable {σ : Type}

/-! ## Resets -/

/-- Machines are **twins** if they differ at most in their sources. -/
def Twin (m other : Machine σ) : Prop := ∃ source, other = m.withSource source

/-- **After a reset, machines with one program are twins.** -/
theorem twin_reset {m other : Machine σ} (hprogram : m.program = other.program)
    (inputs : List Word) : Twin (m.reset inputs) (other.reset inputs) := by
  refine ⟨other.input.source, ?_⟩
  unfold reset
  rw [← hprogram]
  rfl

/-- After a reset, machines with one program and the same source are the same. -/
theorem reset_eq {m other : Machine σ} (hprogram : m.program = other.program)
    (hsource : m.input.source = other.input.source) (inputs : List Word) :
    m.reset inputs = other.reset inputs := by
  unfold reset Input.reset
  rw [hprogram, hsource]

/-! ## Twins -/

namespace Twin

variable [Source σ] {m other : Machine σ}

/-- A `READ` in front of an empty queue that asks no source has none. -/
theorem source_eq_none {op : Opcode} {target : Nat} (hplan : m.plan = .ok (op, .receive target))
    (hqueue : m.input.queue.toList = []) (hm : ∀ c ∈ m.changes, ¬c.Asks) :
    m.input.source = none := by
  cases hsource : m.input.source with
  | none => rfl
  | some source =>
    have hchanges : m.changes = [.asked target (Source.next source).1] := by
      simp [changes, hplan, hqueue, hsource]
    exact absurd trivial (hm (.asked target (Source.next source).1) (by simp [hchanges]))

/-- **Twins go in lockstep as long as no source is asked.** -/
theorem lockstep : Lockstep (fun c => ¬c.Asks) (Twin (σ := σ)) where
  pc := fun ⟨_, h⟩ => h ▸ rfl
  state := fun ⟨_, h⟩ => h ▸ rfl
  fault := fun ⟨_, h⟩ => h ▸ rfl
  plan := fun ⟨_, h⟩ => h ▸ rfl
  withRecord _ _ := fun ⟨source, h⟩ => ⟨source, h ▸ rfl⟩
  setPc _ := fun ⟨source, h⟩ => ⟨source, h ▸ rfl⟩
  setBase _ := fun ⟨source, h⟩ => ⟨source, h ▸ rfl⟩
  setMemory _ _ := fun ⟨source, h⟩ => ⟨source, h ▸ rfl⟩
  pop := by
    rintro m _ op target ⟨source, rfl⟩ hplan hm hother
    have hqueue' : (m.withSource source).input.queue = m.input.queue := rfl
    cases hqueue : m.input.queue.toList with
    | cons x rest =>
      rw [Input.pop_of_cons hqueue, Input.pop_of_cons (hqueue' ▸ hqueue)]
      exact ⟨rfl, source, rfl⟩
    | nil =>
      have hnone := source_eq_none hplan hqueue hm
      have hnone' := source_eq_none (m := m.withSource source) hplan hqueue hother
      rw [Input.pop_of_nil hqueue hnone, Input.pop_of_nil (hqueue' ▸ hqueue) hnone']
      exact ⟨rfl, source, rfl⟩

/-- Whatever their owner does with both of them, twins stay twins as long as no source is asked. -/
theorem operate (h : Twin m other) (patience : Nat) (op : Operation σ)
    (hm : ∀ c ∈ m.operateHistory patience op, ¬c.Asks)
    (hother : ∀ c ∈ other.operateHistory patience op, ¬c.Asks) :
    Likewise Twin (m.operate patience op) (other.operate patience op) := by
  obtain ⟨source, rfl⟩ := h
  cases op with
  | reset | append | peek => exact ⟨rfl, source, rfl⟩
  | withSource source' => exact ⟨rfl, source', rfl⟩
  | poke address value => exact (lockstep.poke ⟨source, rfl⟩ address value).map Reply.poked
  | execute | nextOutput | runToHalt =>
    exact lockstep.operate ⟨source, rfl⟩ patience trivial hm hother
  | runToCompletion inputs =>
    have hreset : Twin (m.reset inputs) ((m.withSource source).reset inputs) := ⟨source, rfl⟩
    exact (lockstep.collect hreset patience patience #[] (List.forall_mem_append.mp hm).2
      (List.forall_mem_append.mp hother).2).map Reply.outputs

/-- **A session goes likewise with twins**, as long as no source is asked. -/
theorem session (h : Twin m other) (patience : Nat) (ops : List (Operation σ))
    (hm : ∀ c ∈ m.history patience ops, ¬c.Asks)
    (hother : ∀ c ∈ other.history patience ops, ¬c.Asks) :
    Likewise Twin (m.session patience ops) (other.session patience ops) :=
  likewise_session (fun op _ _ _ h => h.operate patience op) h hm hother

end Twin

/-! ## Machines without a source -/

variable [Source σ] {m : Machine σ}

/-- **A machine without a source that is started over runs like a new one.** -/
theorem runToCompletion_eq (hsource : m.input.source = none) (patience : Nat)
    (inputs : List Word) :
    m.runToCompletion patience inputs = (create m.program).runToCompletion patience inputs := by
  have hprogram : m.program = (create m.program : Machine σ).program := rfl
  have hreset : m.reset inputs = (create m.program).reset inputs := reset_eq hprogram hsource inputs
  rw [runToCompletion, hreset, runToCompletion]

theorem source_runToCompletions (hsource : m.input.source = none) (patience : Nat)
    (rows : List (List Word)) :
    (m.session patience (rows.map .runToCompletion)).2.input.source = none := by
  induction rows generalizing m with
  | nil => exact hsource
  | cons inputs rows ih =>
    have hreset : (m.reset inputs).input.source = none := hsource
    exact ih (collect_preserves (P := fun m => m.input.source = none)
      (fun _ h => execute_source_eq_none h sliceCycles) hreset patience #[])

/-- **A reset leaves nothing of what was before**, the program and the source apart.  Two machines
with one program, whatever was done with them, give the same replies after a reset in any session,
and are the same but for their sources, as long as none of these is asked; and with the same source
they are the same machine.  A machine without a source that is run to completion, again and again,
does so each time like a new one.  Nothing changes the program. -/
theorem reset_renews (program : Program) (p p' : Nat) (before before' : List (Operation σ)) :
    let used : Machine σ := (session p before (create program)).2
    let other : Machine σ := (session p' before' (create program)).2
    (∀ inputs patience later,
        (∀ c ∈ (used.reset inputs).history patience later, ¬c.Asks) →
        (∀ c ∈ (other.reset inputs).history patience later, ¬c.Asks) →
          let one := (used.reset inputs).session patience later
          let two := (other.reset inputs).session patience later
          one.1 = two.1 ∧ one.2.memory = two.2.memory ∧ one.2.pc = two.2.pc ∧
            one.2.base = two.2.base ∧ one.2.input.queue = two.2.input.queue ∧
            one.2.state = two.2.state ∧ one.2.fault = two.2.fault) ∧
      (used.input.source = other.input.source →
        ∀ inputs, used.reset inputs = other.reset inputs) ∧
      (used.input.source = none → ∀ patience (rows : List (List Word)) inputs,
        (used.session patience (rows.map .runToCompletion)).2.runToCompletion patience inputs =
          (create program).runToCompletion patience inputs) ∧
      used.program.image = program.image := by
  intro used other
  have hused : used.program = program := program_session (create program) p before
  have hother : other.program = program := program_session (create program) p' before'
  refine ⟨fun inputs patience later hone htwo => ?_,
    fun hsource inputs => reset_eq (hused.trans hother.symm) hsource inputs,
    fun hsource patience rows inputs => ?_, congrArg Program.image hused⟩
  · have htwin := twin_reset (hused.trans hother.symm) inputs
    obtain ⟨hreplies, source, hlast⟩ := htwin.session patience later hone htwo
    intro one two
    have hlast : two.2 = one.2.withSource source := hlast
    rw [hlast]
    exact ⟨hreplies, rfl, rfl, rfl, rfl, rfl, rfl⟩
  · rw [runToCompletion_eq (source_runToCompletions hsource patience rows), program_session, hused]

/-- A program that reads a value, writes it and halts: a machine that has read from a source and was
patched behind its program, beside a new one; and a machine that has starved, run again. -/
theorem reset_renews_echo :
    let program : Program := ⟨([3, 5, 4, 5, 99].map Word.wrap).toArray⟩
    let used : Machine Supply := (session 2 [.withSource (some (.counting 1 1)), .runToHalt,
      .poke 30 1, .append 1] (create program)).2
    let starved : Machine Supply := (session 1 [.runToHalt] (create program)).2
    let later : List (Operation Supply) := [.execute 2, .peek 30, .execute 1]
    used.memory.size = 31 ∧ used.state = .halted ∧ starved.fault = some (.starved 0) ∧
      (∀ c ∈ (used.reset [.wrap 7]).history 1 later, ¬c.Asks) ∧
      ((used.reset [.wrap 7]).session 1 later).1 =
        [.event (.ok (.output (.wrap 7))), .word 0, .event (.ok .halted)] ∧
      (starved.session 3 ([[.wrap 7], []].map .runToCompletion)).2.runToCompletion 3 [.wrap 8] =
        (create program).runToCompletion 3 [.wrap 8] ∧
      ((create program : Machine Supply).runToCompletion 3 [.wrap 8]).1 = .done #[.wrap 8] := by
  -- both histories come to this, whatever was done before
  have hasks : ∀ c ∈ ([.took 5 (.wrap 7)] : History Supply), ¬c.Asks := by simp [Change.Asks]
  obtain ⟨hreplies, -, -⟩ := reset_renews ⟨([3, 5, 4, 5, 99].map Word.wrap).toArray⟩ 2 1
    ([.withSource (some (.counting 1 1)), .runToHalt, .poke 30 1, .append 1] :
      List (Operation Supply)) []
  obtain ⟨-, -, hagain, -⟩ := reset_renews ⟨([3, 5, 4, 5, 99].map Word.wrap).toArray⟩ 1 1
    ([.runToHalt] : List (Operation Supply)) []
  have hlater := hreplies [.wrap 7] 1 [.execute 2, .peek 30, .execute 1] hasks hasks
  exact ⟨rfl, rfl, rfl, hasks, hlater.1, hagain rfl 3 [[.wrap 7], []] [.wrap 8], rfl⟩

end Machine

end Intcode
