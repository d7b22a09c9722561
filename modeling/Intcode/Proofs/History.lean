import Intcode.Proofs.Session

/-!
# Proofs/History — what happens to a machine's memory and to its input

In a session memory and input change now by the owner's hand and now by an instruction.  The
**history** of a session is the row of these changes.  It is told by the machines in front of the
instructions that were executed (`Machine.visits`) and by what each of these instructions is going
to change (`Machine.changes`).

* `Machine.does` — all that an instruction can do, together with its changes;
* `Kept` — a property of histories and machines that everything keeps that can be done to a machine;
* `Kept.session` — a whole session keeps it.
-/

namespace Intcode

/-- What comes of one computation after the other comes of both. -/
theorem exists_of_bind_eq_ok {ε α β : Type} {x : Except ε α} {f : α → Except ε β} {b : β}
    (h : (x >>= f) = .ok b) : ∃ a, x = .ok a ∧ f a = .ok b := by
  cases x with
  | error e => cases h
  | ok a => exact ⟨a, rfl, h⟩

theorem Machine.poke_of_le {σ : Type} {m : Machine σ} {address : Nat} (h : address ≤ maxAddress)
    (value : Word) :
    m.poke address value = (.ok (), { m with memory := m.memory.set address value }) := by
  rw [poke, Memory.refusal?_eq_none_iff.mpr h]

/-- When the queue is empty, what the source gives is read. -/
theorem Input.pop_of_source {σ : Type} [Source σ] {input : Input σ} {source : σ}
    (hqueue : input.queue.toList = []) (hsource : input.source = some source) :
    input.pop =
      ((Source.next source).1, { input with source := some (Source.next source).2 }) := by
  rw [pop, Queue.pop?_eq, hqueue, hsource]

/-- A change of a machine's memory or of its input. -/
inductive Change (σ : Type)
  /-- The machine is started over, with these values to read. -/
  | started (inputs : List Word)
  /-- A value is added to those to be read. -/
  | appended (value : Word)
  /-- A source is installed, or taken away. -/
  | sourced (source : Option σ)
  /-- A word is put at an address, by the owner or by an instruction other than `READ`. -/
  | stored (address : Nat) (value : Word)
  /-- A `READ` takes the first value of the queue and puts it at an address. -/
  | took (address : Nat) (value : Word)
  /-- A `READ` that finds the queue empty asks the source, and puts the answer at an address, if
  there is one. -/
  | asked (address : Nat) (answer : Option Word)

/-- Changes, one after the other. -/
abbrev History (σ : Type) : Type := List (Change σ)

namespace Machine

variable {σ : Type} [Source σ]

/-! ## One instruction -/

/-- What the next instruction changes of memory and input. -/
def changes (m : Machine σ) : History σ :=
  match m.plan with
  | .ok (_, .store target value) => [.stored target value]
  | .ok (_, .receive target) =>
    match m.input.queue.toList, m.input.source with
    | value :: _, _ => [.took target value]
    | [], some source => [.asked target (Source.next source).1]
    | [], none => []
  | _ => []

/-- **What a `READ` does that knows where to put its value**: its changes, its result and the
machine afterwards. -/
inductive Reads (m : Machine σ) (target : Nat) : History σ → Except Error Event × Machine σ → Prop
  /-- It takes the first value of the queue. -/
  | takes {value rest} (hqueue : m.input.queue.toList = value :: rest) :
    Reads m target [.took target value]
      (.ok .running, { m with
        memory := m.memory.set target value
        pc := m.pc + Opcode.read.width
        input := { m.input with queue := .ofList rest } })
  /-- It finds the queue empty, and the source has a value to give. -/
  | asks {source value source'} (hqueue : m.input.queue.toList = [])
    (hsource : m.input.source = some source) (hnext : Source.next source = (some value, source')) :
    Reads m target [.asked target (some value)]
      (.ok .running, { m with
        memory := m.memory.set target value
        pc := m.pc + Opcode.read.width
        input := { m.input with source := some source' } })
  /-- It finds the queue empty, and the source has nothing to give. -/
  | asksInVain {source source'} (hqueue : m.input.queue.toList = [])
    (hsource : m.input.source = some source) (hnext : Source.next source = (none, source')) :
    Reads m target [.asked target none]
      (.error (.starved m.pc), { m with input := { m.input with source := some source' } })
  /-- It finds the queue empty, and there is no source. -/
  | starves (hqueue : m.input.queue.toList = []) (hsource : m.input.source = none) :
    Reads m target [] (.error (.starved m.pc), m)

/-- **All that an instruction can do**: its changes, its result and the machine afterwards. -/
inductive Does (m : Machine σ) : History σ → Except Error Event × Machine σ → Prop
  | fails {e} (h : m.plan = .error e) : Does m [] (.error e, m)
  | reads {target changes result} (h : m.plan = .ok (.read, .receive target))
    (hrange : target ≤ maxAddress) (hreads : m.Reads target changes result) : Does m changes result
  | stores {op target value} (h : m.plan = .ok (op, .store target value))
    (hrange : target ≤ maxAddress) :
    Does m [.stored target value]
      (.ok .running, { m with memory := m.memory.set target value, pc := m.pc + op.width })
  | emits {op value} (h : m.plan = .ok (op, .emit value)) :
    Does m [] (.ok (.output value), { m with pc := m.pc + op.width })
  | jumps {op target} (h : m.plan = .ok (op, .jump target)) (hrange : target ≤ maxAddress) :
    Does m [] (.ok .running, { m with pc := target })
  | passes {op} (h : m.plan = .ok (op, .pass)) :
    Does m [] (.ok .running, { m with pc := m.pc + op.width })
  | rebases {op base} (h : m.plan = .ok (op, .rebase base)) :
    Does m [] (.ok .running, { m with base := base, pc := m.pc + op.width })
  | halts {op} (h : m.plan = .ok (op, .halt)) : Does m [] (.ok .halted, m)

/-- **A `READ` does as queue and source have it.** -/
theorem reads {m : Machine σ} {target : Nat} (h : m.plan = .ok (.read, .receive target)) :
    m.Reads target m.changes m.step := by
  obtain ⟨-, -, hcarries⟩ := m.plan_meets.of_ok h
  rw [step_of_plan_ok h]
  cases hqueue : m.input.queue.toList with
  | cons value rest =>
    rw [perform_receive_of_cons hqueue, store_of_le hcarries.inRange]
    simpa [changes, h, hqueue] using Reads.takes hqueue
  | nil =>
    cases hsource : m.input.source with
    | none =>
      rw [perform_receive_of_nil hqueue hsource]
      simpa [changes, h, hqueue, hsource] using Reads.starves hqueue hsource
    | some source =>
      have hpop := Input.pop_of_source hqueue hsource
      rcases hnext : Source.next source with ⟨_ | value, source'⟩ <;> rw [hnext] at hpop
      · rw [perform_receive_of_none hpop]
        simpa [changes, h, hqueue, hsource, hnext] using Reads.asksInVain hqueue hsource hnext
      · rw [perform_receive_of_some hpop, store_of_le hcarries.inRange]
        simpa [changes, h, hqueue, hsource, hnext] using Reads.asks hqueue hsource hnext

omit [Source σ] in
/-- What is worked out is what an instruction asks for. -/
theorem action_of_plan_ok {m : Machine σ} {op : Opcode} {action : Action}
    (h : m.plan = .ok (op, action)) :
    ∃ fields, m.instruction = .ok ⟨op, fields⟩ ∧ (m.operands fields).action op = .ok action := by
  obtain ⟨instruction, hinstruction, h⟩ := exists_of_bind_eq_ok h
  obtain ⟨found, haction, h⟩ := exists_of_bind_eq_ok h
  cases h
  exact ⟨instruction.fields, hinstruction, haction⟩

omit [Source σ] in
/-- Only what is an instruction can be worked out. -/
theorem instruction_of_plan_ok {m : Machine σ} {op : Opcode} {action : Action}
    (h : m.plan = .ok (op, action)) : ∃ fields, m.instruction = .ok ⟨op, fields⟩ :=
  have ⟨fields, hinstruction, _⟩ := action_of_plan_ok h
  ⟨fields, hinstruction⟩

/-- **An instruction does one of the things that instructions can do.** -/
theorem does (m : Machine σ) : m.Does m.changes m.step := by
  cases h : m.plan with
  | error e => simpa [changes, h, step_of_plan_error h] using Does.fails h
  | ok p =>
    obtain ⟨op, action⟩ := p
    obtain ⟨-, -, hcarries⟩ := m.plan_meets.of_ok h
    cases action with
    | receive target =>
      obtain rfl : op = .read := hcarries.receives.mp rfl
      exact .reads h hcarries.inRange (reads h)
    | store target value =>
      rw [step_of_plan_ok h, perform, store_of_le hcarries.inRange]
      simpa [changes, h] using Does.stores h hcarries.inRange
    | emit value => simpa [changes, h, step_of_plan_ok h, perform] using Does.emits h
    | jump target =>
      simpa [changes, h, step_of_plan_ok h, perform] using Does.jumps h hcarries.inRange
    | pass => simpa [changes, h, step_of_plan_ok h, perform] using Does.passes h
    | rebase base => simpa [changes, h, step_of_plan_ok h, perform] using Does.rebases h
    | halt => simpa [changes, h, step_of_plan_ok h, perform] using Does.halts h

/-! ## Runs -/

/-- The machine in front of each instruction that is executed in so many cycles. -/
def visits : Nat → Machine σ → List (Machine σ)
  | 0, _ => []
  | n + 1, m =>
    m :: match m.step with
      | (.ok .running, m) => visits n m
      | _ => []

theorem visits_succ_of_running {m : Machine σ} (h : m.step.1 = .ok .running) (n : Nat) :
    visits (n + 1) m = m :: visits n m.step.2 := by
  have hstep : m.step = (.ok .running, m.step.2) := Prod.ext h rfl
  rw [visits, hstep]

theorem visits_succ_of_stop {m : Machine σ} (h : m.step.1 ≠ .ok .running) (n : Nat) :
    visits (n + 1) m = [m] := by
  rw [visits]
  split
  next after hstep => exact absurd (congrArg Prod.fst hstep) h
  next => rfl

/-- The machine in front of each instruction that is executed for a budget. -/
def executeVisits (budget : Nat) (m : Machine σ) : List (Machine σ) :=
  match m.state with
  | .halted | .faulted => []
  | .ready | .running | .suspended => visits budget (m.withState .running)

theorem executeVisits_of_live {m : Machine σ} (h : m.state.Live) (budget : Nat) :
    m.executeVisits budget = visits budget (m.withState .running) := by
  unfold executeVisits
  split
  next hs => rw [hs] at h; exact h.elim
  next hs => rw [hs] at h; exact h.elim
  all_goals rfl

theorem executeVisits_of_stopped {m : Machine σ} {r : Except Error Event} (h : m.Stopped r)
    (budget : Nat) : m.executeVisits budget = [] := by
  cases h with
  | halted h | faulted h => rw [executeVisits, h]

/-- The machine in front of each instruction up to the next output. -/
def nextOutputVisits : Nat → Machine σ → List (Machine σ)
  | 0, _ => []
  | patience + 1, m =>
    m.executeVisits sliceCycles ++
      match m.execute sliceCycles with
      | (.ok .running, m) => nextOutputVisits patience m
      | _ => []

/-- The machine in front of each instruction from output to output. -/
def collectVisits (patience : Nat) : Nat → Machine σ → List (Machine σ)
  | 0, _ => []
  | n + 1, m =>
    m.nextOutputVisits patience ++
      match m.nextOutput patience with
      | (.done (some _), m) => collectVisits patience n m
      | _ => []

/-! ## Sessions -/

/-- What an operation changes by itself, before it lets the machine run. -/
def ownChanges : Operation σ → History σ
  | .reset inputs | .runToCompletion inputs => [.started inputs]
  | .append value => [.appended value]
  | .poke address value =>
    match Memory.refusal? address with
    | none => [.stored address value]
    | some _ => []
  | .withSource source => [.sourced source]
  | .peek _ | .execute _ | .nextOutput | .runToHalt => []

/-- The machine in front of each instruction that is executed in an operation. -/
def operateVisits (patience : Nat) (m : Machine σ) : Operation σ → List (Machine σ)
  | .execute budget => m.executeVisits budget
  | .nextOutput => m.nextOutputVisits patience
  | .runToHalt => m.collectVisits patience patience
  | .runToCompletion inputs => (m.reset inputs).collectVisits patience patience
  | .reset _ | .append _ | .poke .. | .peek _ | .withSource _ => []

/-- The changes made in an operation: its own, and those of the instructions that it executes. -/
def operateHistory (patience : Nat) (m : Machine σ) (op : Operation σ) : History σ :=
  ownChanges op ++ (m.operateVisits patience op).flatMap changes

/-- **The history of a session**: all changes made in it, in their order. -/
def history (patience : Nat) : List (Operation σ) → Machine σ → History σ
  | [], _ => []
  | op :: ops, m =>
    m.operateHistory patience op ++ history patience ops (m.operate patience op).2

end Machine

/-! ## What is kept -/

open Machine

variable {σ : Type} [Source σ]

/-- **Everything keeps a property of histories and machines**: whatever an instruction or the owner
does to a machine that has it, the machine has it afterwards, with the changes added. -/
structure Kept (P : History σ → Machine σ → Prop) : Prop where
  step : ∀ {past m changes result}, Does m changes result → P past m → P (past ++ changes) result.2
  /-- A run begins. -/
  resume : ∀ {past m}, m.state.Live → P past m → P past (m.withState .running)
  /-- A run ends, and its last result is recorded. -/
  stop : ∀ {past m} (before : Machine σ), m.state = .running → P past m →
    P past (m.recorded before.step.1)
  reset : ∀ {past m} inputs, P past m → P (past ++ [.started inputs]) (m.reset inputs)
  append : ∀ {past m} value, P past m → P (past ++ [.appended value]) (m.append value)
  withSource : ∀ {past m} source, P past m → P (past ++ [.sourced source]) (m.withSource source)
  poke : ∀ {past m address} value, address ≤ maxAddress → P past m →
    P (past ++ [.stored address value]) { m with memory := m.memory.set address value }

namespace Kept

variable {P : History σ → Machine σ → Prop} {m : Machine σ}

theorem cycles (hP : Kept P) (n : Nat) (past : History σ) (hstate : m.state = .running)
    (h : P past m) : P (past ++ (visits n m).flatMap changes) (cycles n m).2 := by
  induction n generalizing past m with
  | zero => simpa [visits, Machine.cycles] using h
  | succ n ih =>
    have hafter := hP.step m.does h
    have hrunning := m.step_state.trans hstate
    by_cases hr : m.step.1 = .ok .running
    · simpa [visits_succ_of_running hr, cycles_succ_of_running hr] using ih _ hrunning hafter
    · simpa [visits_succ_of_stop hr, cycles_succ_of_stop hr] using hP.stop m hrunning hafter

theorem execute (hP : Kept P) (budget : Nat) (past : History σ) (h : P past m) :
    P (past ++ (m.executeVisits budget).flatMap changes) (m.execute budget).2 := by
  obtain hlive | ⟨r, hs⟩ := m.live_or_stopped
  · rw [execute_of_live hlive, executeVisits_of_live hlive]
    exact hP.cycles budget past rfl (hP.resume hlive h)
  -- a machine that has stopped visits nothing more, so nothing is added to the past
  · simpa [executeVisits_of_stopped hs, execute_of_stopped hs] using h

theorem nextOutput (hP : Kept P) (patience : Nat) (past : History σ) (h : P past m) :
    P (past ++ (m.nextOutputVisits patience).flatMap changes) (m.nextOutput patience).2 := by
  induction patience generalizing past m with
  | zero => simpa [nextOutputVisits, Machine.nextOutput] using h
  | succ patience ih =>
    have hafter := hP.execute sliceCycles past h
    rcases hslice : m.execute sliceCycles with ⟨e | _ | value | _, after⟩ <;> rw [hslice] at hafter
    · simpa [nextOutputVisits, Machine.nextOutput, hslice] using hafter
    · simpa [nextOutputVisits, Machine.nextOutput, hslice] using ih _ hafter
    · simpa [nextOutputVisits, Machine.nextOutput, hslice] using hafter
    · simpa [nextOutputVisits, Machine.nextOutput, hslice] using hafter

theorem collect (hP : Kept P) (patience n : Nat) (outputs : Array Word) (past : History σ)
    (h : P past m) :
    P (past ++ (m.collectVisits patience n).flatMap changes) (m.collect patience n outputs).2 := by
  induction n generalizing past m outputs with
  | zero => simpa [collectVisits, Machine.collect] using h
  | succ n ih =>
    have hafter := hP.nextOutput patience past h
    rcases hnext : m.nextOutput patience with ⟨(_ | value) | e | _, after⟩ <;> rw [hnext] at hafter
    · simpa [collectVisits, Machine.collect, hnext] using hafter
    · simpa [collectVisits, Machine.collect, hnext] using ih _ _ hafter
    · simpa [collectVisits, Machine.collect, hnext] using hafter
    · simpa [collectVisits, Machine.collect, hnext] using hafter

/-- An operation keeps what everything keeps. -/
theorem operate (hP : Kept P) (patience : Nat) (op : Operation σ) (past : History σ)
    (h : P past m) :
    P (past ++ m.operateHistory patience op) (m.operate patience op).2 := by
  cases op with
  | reset inputs => exact hP.reset inputs h
  | append value => exact hP.append value h
  | poke address value =>
    cases hok : Memory.refusal? address with
    | none =>
      have hpoke := hP.poke value (Memory.refusal?_eq_none_iff.mp hok) h
      simpa [operateHistory, ownChanges, operateVisits, Machine.operate, Machine.poke, hok]
    | some e =>
      simpa [operateHistory, ownChanges, operateVisits, Machine.operate, Machine.poke, hok] using h
  | peek address => simpa [operateHistory, ownChanges, operateVisits, Machine.operate] using h
  | withSource source => exact hP.withSource source h
  | execute budget => exact hP.execute budget past h
  | nextOutput => exact hP.nextOutput patience past h
  | runToHalt => exact hP.collect patience patience #[] past h
  | runToCompletion inputs =>
    -- the reset comes first in the history, and the run finds it in its past
    have hreset := hP.collect patience patience #[] _ (hP.reset inputs h)
    rwa [List.append_assoc] at hreset

/-- **A session keeps what everything keeps.** -/
theorem session (hP : Kept P) (patience : Nat) (ops : List (Operation σ)) (past : History σ)
    (h : P past m) :
    P (past ++ m.history patience ops) (m.session patience ops).2 := by
  induction ops generalizing past m with
  | nil => simpa [history] using h
  | cons op ops ih => simpa [history] using ih _ (hP.operate patience op past h)

/-- Nothing changes a machine's program. -/
theorem program (p : Program) : Kept fun (_ : History σ) m => m.program = p where
  step := by
    intro past m changes result hdoes h
    cases hdoes with
    | reads _ _ hreads => cases hreads <;> exact h
    | fails | stores | emits | jumps | passes | rebases | halts => exact h
  resume _ h := h
  stop _ _ h := h
  reset _ h := h
  append _ h := h
  withSource _ h := h
  poke _ _ h := h

end Kept

theorem Machine.program_operate (m : Machine σ) (patience : Nat) (op : Operation σ) :
    (m.operate patience op).2.program = m.program :=
  (Kept.program m.program).operate patience op [] rfl

theorem Machine.program_session (m : Machine σ) (patience : Nat) (ops : List (Operation σ)) :
    (m.session patience ops).2.program = m.program :=
  (Kept.program m.program).session patience ops [] rfl

end Intcode
