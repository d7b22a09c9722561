import Intcode.Proofs.Faults
import Intcode.Proofs.History

/-!
# Proofs/Lifecycle — where a machine is between two calls

The state of a machine says how its last run came out, and its fault with what error.  These are
written down apart, and a run that finds the one without the other replies an error of its own; so
it has to be shown that this never happens to a machine that comes of calls.

A machine that has halted or failed does not run any more until it is started over: its owner may
still give it something to read, patch its memory or change its source, but a run does nothing
except to say once more what the last one said.

* `Machine.accountable` — there is a fault just when the machine has failed, and then the error is
  one of an instruction;
* `Machine.Accountable.candid` — the state says how a run came out, and the fault with what error;
* `Machine.rests_session` — what becomes of a machine that has stopped;
* `Machine.lifecycle` — all this of the machines that come of calls.
-/

namespace Intcode

namespace Reply

variable {e : Error}

/-- The error that a call replies, if it does. -/
def error? : Reply → Option Error
  | .poked (.error e) | .event (.error e) | .answer (.failed e) | .outputs (.failed e) => some e
  | .nothing | .poked (.ok _) | .word _ | .event (.ok _) | .answer (.done _) | .answer .unfinished
  | .outputs (.done _) | .outputs .unfinished => none

theorem error?_poked {result : Except Error Unit} :
    (poked result).error? = some e ↔ result = .error e := by
  cases result <;> simp [error?]

theorem error?_event {result : Except Error Event} :
    (event result).error? = some e ↔ result = .error e := by
  cases result <;> simp [error?]

theorem error?_answer {outcome : Outcome (Option Word)} :
    (answer outcome).error? = some e ↔ outcome = .failed e := by
  cases outcome <;> simp [error?]

theorem error?_outputs {outcome : Outcome (Array Word)} :
    (outputs outcome).error? = some e ↔ outcome = .failed e := by
  cases outcome <;> simp [error?]

end Reply

/-- A write is refused with an error that an instruction can fail with. -/
theorem Memory.kind_of_refusal? {address : Nat} {e : Error} (h : refusal? address = some e) :
    e.kind ∈ ErrorKind.ofExecution := by
  unfold refusal? at h
  split at h
  · cases h
    exact List.mem_of_elem_eq_true rfl
  · cases h

namespace Operation

variable {σ : Type}

/-- The value that an operation adds to those to be read. -/
def appended? : Operation σ → Option Word
  | .append value => some value
  | .reset _ | .poke .. | .peek _ | .withSource _ | .execute _ | .nextOutput | .runToHalt
  | .runToCompletion _ => none

/-- The source after an operation that does not let the machine run. -/
def installed (before : Option σ) : Operation σ → Option σ
  | .withSource source => source
  | .reset _ | .append _ | .poke .. | .peek _ | .execute _ | .nextOutput | .runToHalt
  | .runToCompletion _ => before

/-- The memory after an operation that neither starts the machine over nor lets it run. -/
def patched (before : Memory) : Operation σ → Memory
  | .poke address value => if address ≤ maxAddress then before.set address value else before
  | .reset _ | .append _ | .peek _ | .withSource _ | .execute _ | .nextOutput | .runToHalt
  | .runToCompletion _ => before

end Operation

namespace Machine

variable {σ : Type}

/-! ## State and fault -/

/-- **The machine accounts for its errors**: it has a fault when and only when it has failed, and
that is an error that an instruction fails with. -/
structure Accountable (m : Machine σ) : Prop where
  recorded : m.fault.isSome ↔ m.state = .faulted
  kind : ∀ e, m.fault = some e → e.kind ∈ ErrorKind.ofExecution

/-- A new machine has not failed. -/
theorem accountable_create (program : Program) : (create program : Machine σ).Accountable where
  recorded := iff_of_false nofun nofun
  kind _ he := nomatch he

namespace Accountable

variable {m : Machine σ} (h : m.Accountable)
include h

theorem fault_eq_none (hs : m.state ≠ .faulted) : m.fault = none :=
  Option.not_isSome_iff_eq_none.mp fun hsome => hs (h.recorded.mp hsome)

/-- What stopped an accountable machine was written down. -/
theorem fault_eq_some {e : Error} (hs : m.Stopped (.error e)) :
    m.state = .faulted ∧ m.fault = some e := by
  obtain _ | ⟨hstate, hfault⟩ := hs
  obtain ⟨cause, hcause⟩ := Option.isSome_iff_exists.mp (h.recorded.mpr hstate)
  rw [hcause, Option.getD_some] at hfault
  exact ⟨hstate, hfault ▸ hcause⟩

theorem append (value : Word) : (m.append value).Accountable := { h with }

end Accountable

variable [Source σ] {patience : Nat} {m after : Machine σ}

/-! ## The state after a run -/

/-- A run to the next output leaves the state that its outcome stands for. -/
theorem state_of_nextOutput {r : Outcome (Option Word)} :
    m.nextOutput patience = (r, after) → match r with
    | .done (some _) => after.state = .suspended
    | .done none => after.state = .halted
    | .failed e => after.Stopped (.error e)
    | .unfinished => True := by
  intro h
  by_cases hend : r = .unfinished
  · rw [hend]
    trivial
  · obtain ⟨before, result, hslice, rfl⟩ := exists_last_slice h hend
    have hstate := state_of_execute hslice
    obtain e | _ | value | _ := result
    · exact stopped_of_execute hslice
    · trivial
    · exact hstate
    · exact hstate

/-- A run to the end leaves the machine halted, or stopped with the error that it fails with. -/
theorem state_of_collect {n : Nat} {outputs : Array Word} {r : Outcome (Array Word)} :
    m.collect patience n outputs = (r, after) → match r with
    | .done _ => after.state = .halted
    | .failed e => after.Stopped (.error e)
    | .unfinished => True := by
  intro h
  induction n generalizing m outputs with
  | zero =>
    obtain ⟨rfl, -⟩ := Prod.mk.inj h
    trivial
  | succ n ih =>
    rw [collect] at h
    rcases hnext : m.nextOutput patience with ⟨(_ | value) | e | _, mid⟩ <;> rw [hnext] at h
    · obtain ⟨rfl, rfl⟩ := Prod.mk.inj h
      exact state_of_nextOutput hnext
    · exact ih h
    · obtain ⟨rfl, rfl⟩ := Prod.mk.inj h
      exact state_of_nextOutput hnext
    · obtain ⟨rfl, -⟩ := Prod.mk.inj h
      trivial

/-- A machine that fails on the way to its next output has stopped with that error. -/
theorem stopped_of_nextOutput_failed {e : Error} (h : m.nextOutput patience = (.failed e, after)) :
    after.Stopped (.error e) :=
  state_of_nextOutput h

/-! ## Errors -/

theorem kind_of_step_error {e : Error} (h : m.step.1 = .error e) :
    e.kind ∈ ErrorKind.ofExecution := by
  have hstep : m.step = (.error e, m.step.2) := Prod.ext h rfl
  obtain ⟨hplan, -⟩ | ⟨target, -, rfl, -⟩ := step_of_error hstep
  · exact (kind_of_plan_error hplan).1
  · exact List.mem_of_elem_eq_true rfl

/-- A running machine has no fault, so its last result alone decides whether it has one then. -/
theorem accountable_recorded (h : m.Accountable) (hrunning : m.state = .running)
    (before : Machine σ) : (m.recorded before.step.1).Accountable where
  recorded := by
    have hnone : m.fault = none := h.fault_eq_none (by rw [hrunning]; exact nofun)
    cases before.step.1 with
    | ok event =>
      exact iff_of_false (Option.not_isSome_iff_eq_none.mpr hnone) (State.after_ok_ne_faulted event)
    | error e => exact iff_of_true rfl rfl
  kind e he := (eq_error_or_of_faultAfter he).elim kind_of_step_error (h.kind e)

/-- **A run goes wrong in an instruction, and then its error is written down.**  Nothing that is
done to a machine parts its fault from its state. -/
theorem accountable : Kept fun (_ : History σ) m => m.Accountable where
  step := by
    intro past m changes result hdoes h
    cases hdoes with
    | reads _ _ hreads => cases hreads <;> exact { h with }
    | fails | stores | emits | jumps | passes | rebases | halts => exact { h with }
  resume hlive h :=
    have hnone := h.fault_eq_none hlive.ne_faulted
    { h with recorded := iff_of_false (Option.not_isSome_iff_eq_none.mpr hnone) nofun }
  stop before hrunning h := accountable_recorded h hrunning before
  reset _ _ := ⟨iff_of_false nofun nofun, fun _ he => nomatch he⟩
  append _ h := { h with }
  withSource _ h := { h with }
  poke _ _ h := { h with }

theorem accountable_of_nextOutput (hm : m.Accountable) (patience : Nat) :
    (m.nextOutput patience).2.Accountable :=
  accountable.nextOutput patience [] hm

/-- A call other than a patch that replies an error leaves the machine stopped with it. -/
theorem stopped_of_reply {op : Operation σ} {e : Error}
    (h : (m.operate patience op).1.error? = some e) :
    (∃ address value, op = .poke address value) ∨
      (m.operate patience op).2.Stopped (.error e) := by
  cases op with
  | reset | append | peek | withSource => cases h
  | poke address value => exact .inl ⟨address, value, rfl⟩
  | execute budget =>
    have hrun : m.execute budget = (.error e, (m.execute budget).2) :=
      Prod.ext (Reply.error?_event.mp h) rfl
    exact .inr (stopped_of_execute hrun)
  | nextOutput =>
    have hrun : m.nextOutput patience = (.failed e, (m.nextOutput patience).2) :=
      Prod.ext (Reply.error?_answer.mp h) rfl
    exact .inr (state_of_nextOutput hrun)
  | runToHalt =>
    have hrun : m.runToHalt patience = (.failed e, (m.runToHalt patience).2) :=
      Prod.ext (Reply.error?_outputs.mp h) rfl
    exact .inr (state_of_collect hrun)
  | runToCompletion inputs =>
    have hrun : (m.reset inputs).runToHalt patience =
        (.failed e, ((m.reset inputs).runToHalt patience).2) :=
      Prod.ext (Reply.error?_outputs.mp h) rfl
    exact .inr (state_of_collect hrun)

/-- Whatever is asked of an accountable machine, it replies no error but one of an instruction or of
a write. -/
theorem kind_of_reply (hm : m.Accountable) {op : Operation σ} {e : Error}
    (h : (m.operate patience op).1.error? = some e) : e.kind ∈ ErrorKind.ofExecution := by
  obtain ⟨address, value, rfl⟩ | hstopped := stopped_of_reply h
  · have hpoke : (m.poke address value).1 = .error e := Reply.error?_poked.mp h
    unfold poke at hpoke
    split at hpoke
    next cause hrefusal => exact Except.error.inj hpoke ▸ Memory.kind_of_refusal? hrefusal
    next => cases hpoke
  · have hafter := accountable.operate patience op [] hm
    exact hafter.kind e (hafter.fault_eq_some hstopped).2

theorem kind_of_session (hm : m.Accountable) (ops : List (Operation σ)) :
    ∀ reply ∈ (m.session patience ops).1, ∀ e, reply.error? = some e →
      e.kind ∈ ErrorKind.ofExecution := by
  induction ops generalizing m with
  | nil => exact fun _ h => nomatch h
  | cons op ops ih =>
    exact List.forall_mem_cons.mpr ⟨fun e h => kind_of_reply hm h,
      ih (accountable.operate patience op [] hm)⟩

/-! ## Machines that have stopped -/

/-- What a run to the end makes of the result with which a machine has stopped. -/
def closing : Except Error Event → Outcome (Array Word)
  | .ok _ => .done #[]
  | .error e => .failed e

variable {r : Except Error Event} {op : Operation σ} {later : List (Operation σ)}

theorem nextOutput_of_stopped (h : m.Stopped r) (patience : Nat) :
    m.nextOutput (patience + 1) = (answer r, m) := by
  rw [nextOutput, execute_of_stopped h]
  cases h <;> rfl

theorem runToHalt_of_stopped (h : m.Stopped r) (patience : Nat) :
    m.runToHalt (patience + 1) = (closing r, m) := by
  rw [runToHalt, collect, nextOutput_of_stopped h]
  cases h <;> rfl

theorem operate_of_stopped (h : m.Stopped r) (patience : Nat) (hop : op.Runs) :
    (m.operate patience op).2 = m := by
  have hslice : ∀ x, x = m → (x.execute sliceCycles).2 = m := by
    rintro x rfl
    rw [execute_of_stopped h]
  cases op with
  | execute budget => exact congrArg Prod.snd (execute_of_stopped h budget)
  | nextOutput => exact nextOutput_preserves hslice rfl
  | runToHalt => exact collect_preserves hslice rfl patience #[]
  | reset | append | poke | peek | withSource | runToCompletion => exact hop.elim

theorem operateVisits_of_stopped (h : m.Stopped r) (hop : ¬op.Restarts) :
    m.operateVisits patience op = [] := by
  have hnext (patience : Nat) : m.nextOutputVisits patience = [] := by
    cases patience with
    | zero => rfl
    | succ patience =>
      rw [nextOutputVisits, executeVisits_of_stopped h, execute_of_stopped h]
      cases h <;> rfl
  cases op with
  | reset | runToCompletion => exact absurd trivial hop
  | append | poke | peek | withSource => rfl
  | execute budget => exact executeVisits_of_stopped h budget
  | nextOutput => exact hnext patience
  | runToHalt =>
    cases patience with
    | zero => rfl
    | succ patience =>
      rw [operateVisits, collectVisits, hnext, nextOutput_of_stopped h]
      cases h <;> rfl

/-- **What becomes of a machine that has stopped**, by later calls that do not start it over: it
keeps its place and its fault, what it is given to read is queued behind what was there, and its
memory and its source are changed by its owner alone. -/
structure Rests (m after : Machine σ) (later : List (Operation σ)) : Prop where
  state : after.state = m.state
  pc : after.pc = m.pc
  base : after.base = m.base
  fault : after.fault = m.fault
  queue : after.input.queue.toList = m.input.queue.toList ++ later.filterMap Operation.appended?
  source : after.input.source = later.foldl Operation.installed m.input.source
  memory : after.memory = later.foldl Operation.patched m.memory

omit [Source σ] in
theorem Rests.cons {mid : Machine σ} (hop : m.Rests mid [op]) (hlater : mid.Rests after later) :
    m.Rests after (op :: later) where
  state := hlater.state.trans hop.state
  pc := hlater.pc.trans hop.pc
  base := hlater.base.trans hop.base
  fault := hlater.fault.trans hop.fault
  queue := by
    rw [hlater.queue, hop.queue, List.append_assoc, ← List.filterMap_append, List.singleton_append]
  source := by
    rw [hlater.source, hop.source]
    rfl
  memory := by
    rw [hlater.memory, hop.memory]
    rfl

omit [Source σ] in
theorem poke_eq_patched (m : Machine σ) (address : Nat) (value : Word) :
    (m.poke address value).2 =
      { m with memory := (Operation.poke address value : Operation σ).patched m.memory } := by
  rw [Operation.patched]
  split
  next h => rw [poke_of_le h]
  next h =>
    cases hrefusal : Memory.refusal? address with
    | none => exact absurd (Memory.refusal?_eq_none_iff.mp hrefusal) h
    | some e => rw [poke, hrefusal]

/-- **A machine that has stopped is left at rest** by any operation that does not start it over. -/
theorem rests_operate (h : m.Stopped r) (hop : ¬op.Restarts) :
    m.Rests (m.operate patience op).2 [op] := by
  have hruns : op.Runs → (m.operate patience op).2 = m := operate_of_stopped h patience
  cases op with
  | reset | runToCompletion => exact absurd trivial hop
  | append value => exact ⟨rfl, rfl, rfl, rfl, toList_queue_append m value, rfl, rfl⟩
  | poke address value =>
    rw [show (m.operate patience (.poke address value)).2 = _ from poke_eq_patched m address value]
    exact ⟨rfl, rfl, rfl, rfl, (List.append_nil _).symm, rfl, rfl⟩
  | peek | withSource => exact ⟨rfl, rfl, rfl, rfl, (List.append_nil _).symm, rfl, rfl⟩
  | execute | nextOutput | runToHalt =>
    rw [hruns trivial]
    exact ⟨rfl, rfl, rfl, rfl, (List.append_nil _).symm, rfl, rfl⟩

/-- **So it is by all operations up to the next start**, and none of them executes an
instruction. -/
theorem rests_session (h : m.Stopped r) (hlater : ∀ op ∈ later, ¬op.Restarts) :
    m.Rests (m.session patience later).2 later ∧
      m.history patience later = later.flatMap ownChanges := by
  induction later generalizing m with
  | nil => exact ⟨⟨rfl, rfl, rfl, rfl, (List.append_nil _).symm, rfl, rfl⟩, rfl⟩
  | cons op later ih =>
    obtain ⟨hop, hlater⟩ := List.forall_mem_cons.mp hlater
    have hrests : m.Rests (m.operate patience op).2 [op] := rests_operate h hop
    obtain ⟨hrest, hhistory⟩ := ih (h.of_eq hrests.state hrests.fault) hlater
    refine ⟨hrests.cons hrest, ?_⟩
    rw [history, hhistory, operateHistory, operateVisits_of_stopped h hop]
    simp

/-! ## The life of a machine -/

/-- **The state of a machine says how a run of it came out**, and its fault with what error. -/
structure Candid (m : Machine σ) : Prop where
  execute : ∀ n r after, m.execute n = (r, after) →
    after.state = .after r ∧ ∀ e, after.fault = some e ↔ r = .error e
  nextOutput_some : ∀ patience value after, m.nextOutput patience = (.done (some value), after) →
    after.state = .suspended
  nextOutput_none : ∀ patience after, m.nextOutput patience = (.done none, after) →
    after.state = .halted
  nextOutput_failed : ∀ patience e after, m.nextOutput patience = (.failed e, after) →
    after.state = .faulted ∧ after.fault = some e
  runToHalt_done : ∀ patience outputs after, m.runToHalt patience = (.done outputs, after) →
    after.state = .halted
  runToHalt_failed : ∀ patience e after, m.runToHalt patience = (.failed e, after) →
    after.state = .faulted ∧ after.fault = some e

theorem Accountable.candid (hm : m.Accountable) : m.Candid where
  execute n r after h := by
    have hstate := state_of_execute h
    have hafter : after.Accountable := by
      have hkept := accountable.execute n [] hm
      rwa [h] at hkept
    refine ⟨hstate, fun e => ?_⟩
    cases r with
    | ok event =>
      have hnone := hafter.fault_eq_none (hstate ▸ State.after_ok_ne_faulted event)
      rw [hnone]
      exact iff_of_false nofun nofun
    | error cause =>
      rw [(hafter.fault_eq_some (stopped_of_execute h)).2, Option.some.injEq, Except.error.injEq]
  nextOutput_some _ _ _ h := state_of_nextOutput h
  nextOutput_none _ _ h := state_of_nextOutput h
  nextOutput_failed patience e after h := by
    have hafter := accountable.nextOutput patience [] hm
    rw [h] at hafter
    exact hafter.fault_eq_some (state_of_nextOutput h)
  runToHalt_done _ _ _ h := state_of_collect h
  runToHalt_failed patience e after h := by
    have hafter := accountable.collect patience patience #[] [] hm
    rw [show m.collect patience patience #[] = (.failed e, after) from h] at hafter
    exact hafter.fault_eq_some (state_of_collect h)

/-- **The life of a machine**, in any session.  The state says how each run came out.  A fault is
recorded when and only when the machine has failed, and no call ever replies an internal error, such
as that a fault was not recorded.  A machine that has halted or failed stays so, whatever is done
except to start it over: it keeps its place and its fault, takes nothing from its queue and asks no
source, and its memory is changed by patches alone; each run of it says what the last one said. -/
theorem lifecycle (program : Program) (p : Nat) (ops : List (Operation σ)) :
    let m : Machine σ := (session p ops (create program)).2
    m.Candid ∧ (m.fault.isSome ↔ m.state = .faulted) ∧
      (∀ reply ∈ (session p ops (create program : Machine σ)).1, ∀ e, reply.error? = some e →
        e.kind ≠ .internalError) ∧
      ∀ patience later, (∀ op ∈ later, ¬op.Restarts) →
        let after := (m.session patience later).2
        (m.state = .halted → m.Rests after later ∧
            m.history patience later = later.flatMap ownChanges ∧
            ∀ n q, after.execute n = (.ok .halted, after) ∧
              after.nextOutput (q + 1) = (.done none, after) ∧
              after.runToHalt (q + 1) = (.done #[], after)) ∧
          (m.state = .faulted → ∃ e, m.fault = some e ∧ m.Rests after later ∧
            m.history patience later = later.flatMap ownChanges ∧
            ∀ n q, after.execute n = (.error e, after) ∧
              after.nextOutput (q + 1) = (.failed e, after) ∧
              after.runToHalt (q + 1) = (.failed e, after)) := by
  intro m
  have hnew : (create program : Machine σ).Accountable := accountable_create program
  have hm : m.Accountable := accountable.session p ops [] hnew
  refine ⟨hm.candid, hm.recorded, fun reply hreply e he hkind => ?_,
    fun patience later hlater => ?_⟩
  · have hmem := kind_of_session hnew ops reply hreply e he
    rw [hkind] at hmem
    exact absurd hmem (by decide)
  · intro after
    have hstays {r : Except Error Event} (h : m.Stopped r) : m.Rests after later ∧
        m.history patience later = later.flatMap ownChanges ∧
        ∀ n q, after.execute n = (r, after) ∧ after.nextOutput (q + 1) = (answer r, after) ∧
          after.runToHalt (q + 1) = (closing r, after) := by
      obtain ⟨hrests, hhistory⟩ := rests_session h hlater
      have hafter : after.Stopped r := h.of_eq hrests.state hrests.fault
      exact ⟨hrests, hhistory, fun n q => ⟨execute_of_stopped hafter n,
        nextOutput_of_stopped hafter q, runToHalt_of_stopped hafter q⟩⟩
    refine ⟨fun hs => hstays (.halted hs), fun hs => ?_⟩
    obtain ⟨e, he⟩ := Option.isSome_iff_exists.mp (hm.recorded.mpr hs)
    exact ⟨e, he, hstays (.faulted hs (by rw [he, Option.getD_some]))⟩

/-- A program that reads, with nothing to read: that it is given a value and a source afterwards,
and a patch over its first instruction, is of no use any more.  And a program that halts at once. -/
theorem lifecycle_starved :
    let starved : Machine Supply :=
      (session 1 [.execute 5] (create ⟨([3, 0, 99].map Word.wrap).toArray⟩)).2
    let halted : Machine Supply :=
      (session 1 [.runToHalt] (create ⟨([99].map Word.wrap).toArray⟩)).2
    let later : List (Operation Supply) := [.append (.wrap 7), .withSource (some (.counting 1 1)),
      .poke 0 (.wrap 99), .runToHalt, .poke maxAddress.succ 1]
    starved.state = .faulted ∧ starved.fault = some (.starved 0) ∧ halted.state = .halted ∧
      starved.Rests (starved.session 1 later).2 later ∧
      (starved.session 1 later).2.execute 3 = (.error (.starved 0), (starved.session 1 later).2) ∧
      (starved.session 1 later).2.input.queue.toList = [.wrap 7] ∧
      (starved.session 1 later).2.memory.read 0 = .wrap 99 ∧
      (halted.session 1 later).2.runToHalt 1 = (.done #[], (halted.session 1 later).2) := by
  have hlater : ∀ op ∈ ([.append (.wrap 7), .withSource (some (.counting 1 1)), .poke 0 (.wrap 99),
      .runToHalt, .poke maxAddress.succ 1] : List (Operation Supply)), ¬op.Restarts := by
    simp [Operation.Restarts]
  obtain ⟨-, -, -, hstarved⟩ :=
    lifecycle ⟨([3, 0, 99].map Word.wrap).toArray⟩ 1 ([.execute 5] : List (Operation Supply))
  obtain ⟨-, -, -, hhalted⟩ :=
    lifecycle ⟨([99].map Word.wrap).toArray⟩ 1 ([.runToHalt] : List (Operation Supply))
  obtain ⟨e, he, hrests, -, hruns⟩ := (hstarved 1 _ hlater).2 rfl
  obtain rfl : Error.starved 0 = e := Option.some.inj he
  obtain ⟨-, -, hends⟩ := (hhalted 1 _ hlater).1 rfl
  exact ⟨rfl, rfl, rfl, hrests, (hruns 3 0).1, hrests.queue, rfl, (hends 0 0).2.2⟩

end Machine

end Intcode
