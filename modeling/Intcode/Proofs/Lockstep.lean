import Intcode.Proofs.History

/-!
# Proofs/Lockstep — two machines that do the same

Two runs are compared through a relation between machines that every instruction keeps.  What the
next instruction is, a machine works out by itself, and of what it does then there is little to be
said for each relation anew: that the registers and memory may be set alike, and that a `READ` gets
the same.  A relation of which this is known is in **lockstep**, and whole runs keep it.

A relation may be kept only as long as nothing but certain changes are made, so these are left open.

* `Lockstep.step` — one instruction;
* `Lockstep.execute`, `Lockstep.nextOutput`, `Lockstep.collect` — runs of many;
* `Lockstep.ends` — runs to the end, instruction by instruction;
* `Lockstep.operate` — what an owner does who lets the machines run on;
* `likewise_session` — a session, if each of its operations is known to keep the relation.
-/

namespace Intcode

/-- Two calls come out **likewise** if they give the same and leave what is alike. -/
structure Likewise {α S : Type} (alike : S → S → Prop) (x y : α × S) : Prop where
  fst : x.1 = y.1
  snd : alike x.2 y.2

theorem Likewise.exists_eq {α S : Type} {alike : S → S → Prop} {x y : α × S}
    (h : Likewise alike x y) : ∃ a s t, x = (a, s) ∧ y = (a, t) ∧ alike s t :=
  ⟨x.1, x.2, y.2, rfl, Prod.ext h.fst.symm rfl, h.snd⟩

/-- What one call is known to come to, the other comes to likewise. -/
theorem Likewise.exists_of_eq {α S : Type} {alike : S → S → Prop} {x y : α × S}
    (h : Likewise alike x y) {a : α} {s : S} (hx : x = (a, s)) : ∃ t, y = (a, t) ∧ alike s t := by
  subst hx
  exact ⟨y.2, Prod.ext h.fst.symm rfl, h.snd⟩

theorem Likewise.map {α β S : Type} {alike : S → S → Prop} {x y : α × S}
    (h : Likewise alike x y) (f : α → β) : Likewise alike (x.map f id) (y.map f id) :=
  ⟨congrArg f h.fst, h.snd⟩

open Machine

variable {σ : Type} [Source σ]

/-- **Machines so related go in lockstep**, as long as nothing but what is allowed is changed: they
stand in front of the same instruction in the same state and with the same fault, and whatever the
instruction sets or reads leaves them so related. -/
structure Lockstep (Allowed : Change σ → Prop) (R : Machine σ → Machine σ → Prop) : Prop where
  pc : ∀ {m other}, R m other → m.pc = other.pc
  state : ∀ {m other}, R m other → m.state = other.state
  fault : ∀ {m other}, R m other → m.fault = other.fault
  plan : ∀ {m other}, R m other → m.plan = other.plan
  withRecord : ∀ {m other} state fault, R m other →
    R (m.withRecord state fault) (other.withRecord state fault)
  setPc : ∀ {m other} pc, R m other → R { m with pc := pc } { other with pc := pc }
  setBase : ∀ {m other} base, R m other → R { m with base := base } { other with base := base }
  setMemory : ∀ {m other} address value, R m other →
    R { m with memory := m.memory.set address value }
      { other with memory := other.memory.set address value }
  /-- A `READ` that knows where to put its value gets the same. -/
  pop : ∀ {m other op target}, R m other → m.plan = .ok (op, .receive target) →
    (∀ c ∈ m.changes, Allowed c) → (∀ c ∈ other.changes, Allowed c) →
    Likewise (fun input input' => R { m with input := input } { other with input := input' })
      m.input.pop other.input.pop

namespace Lockstep

variable {Allowed : Change σ → Prop} {R : Machine σ → Machine σ → Prop} {m other : Machine σ}

theorem withState (hR : Lockstep Allowed R) (h : R m other) (state : State) :
    R (m.withState state) (other.withState state) := by
  rw [Machine.withState, Machine.withState, hR.fault h]
  exact hR.withRecord state _ h

theorem recorded (hR : Lockstep Allowed R) (h : R m other) (r : Except Error Event) :
    R (m.recorded r) (other.recorded r) := by
  have hfault : m.faultAfter r = other.faultAfter r := by
    cases r with
    | ok event => exact hR.fault h
    | error e => rfl
  rw [Machine.recorded, Machine.recorded, hfault]
  exact hR.withRecord _ _ h

theorem store (hR : Lockstep Allowed R) (h : R m other) (target : Nat) (value : Word) (next : Nat) :
    Likewise R (m.store target value next) (other.store target value next) := by
  unfold Machine.store
  -- whether a write is refused depends on its address alone, so one split serves both machines
  split
  next e _ => exact ⟨by rw [hR.pc h], h⟩
  next => exact ⟨rfl, hR.setPc next (hR.setMemory target value h)⟩

/-- **Machines in lockstep execute their next instruction likewise.** -/
theorem step (hR : Lockstep Allowed R) (h : R m other) (hm : ∀ c ∈ m.changes, Allowed c)
    (hother : ∀ c ∈ other.changes, Allowed c) : Likewise R m.step other.step := by
  have hplan := hR.plan h
  cases hp : m.plan with
  | error e =>
    rw [step_of_plan_error hp, step_of_plan_error (hplan ▸ hp)]
    exact ⟨rfl, h⟩
  | ok p =>
    obtain ⟨op, action⟩ := p
    rw [step_of_plan_ok hp, step_of_plan_ok (hplan ▸ hp), hR.pc h]
    cases action with
    | store target value => exact hR.store h target value _
    | receive target =>
      obtain ⟨read, input, input', hpop, hpop', hread⟩ := (hR.pop h hp hm hother).exists_eq
      cases read with
      | none =>
        rw [perform_receive_of_none hpop, perform_receive_of_none hpop']
        exact ⟨by rw [hR.pc h], hread⟩
      | some value =>
        rw [perform_receive_of_some hpop, perform_receive_of_some hpop']
        exact hR.store hread target value _
    | emit | pass | jump => exact ⟨rfl, hR.setPc _ h⟩
    | rebase base => exact ⟨rfl, hR.setPc _ (hR.setBase base h)⟩
    | halt => exact ⟨rfl, h⟩

/-! ## Runs -/

theorem cycles (hR : Lockstep Allowed R) (h : R m other) (n : Nat)
    (hm : ∀ c ∈ (visits n m).flatMap changes, Allowed c)
    (hother : ∀ c ∈ (visits n other).flatMap changes, Allowed c) :
    Likewise R (Machine.cycles n m) (Machine.cycles n other) := by
  induction n generalizing m other with
  | zero => exact ⟨rfl, h⟩
  | succ n ih =>
    have hstep := hR.step h (List.forall_mem_append.mp hm).1 (List.forall_mem_append.mp hother).1
    by_cases hr : m.step.1 = .ok .running
    · have hr' : other.step.1 = .ok .running := hstep.fst ▸ hr
      rw [visits_succ_of_running hr] at hm
      rw [visits_succ_of_running hr'] at hother
      rw [cycles_succ_of_running hr, cycles_succ_of_running hr']
      exact ih hstep.snd (List.forall_mem_append.mp hm).2 (List.forall_mem_append.mp hother).2
    · rw [cycles_succ_of_stop hr, cycles_succ_of_stop (hstep.fst ▸ hr), ← hstep.fst]
      exact ⟨rfl, hR.recorded hstep.snd _⟩

theorem execute (hR : Lockstep Allowed R) (h : R m other) (budget : Nat)
    (hm : ∀ c ∈ (m.executeVisits budget).flatMap changes, Allowed c)
    (hother : ∀ c ∈ (other.executeVisits budget).flatMap changes, Allowed c) :
    Likewise R (m.execute budget) (other.execute budget) := by
  have hstate := hR.state h
  obtain hlive | ⟨r, hs⟩ := m.live_or_stopped
  · rw [executeVisits_of_live hlive] at hm
    rw [executeVisits_of_live (hstate ▸ hlive)] at hother
    rw [execute_of_live hlive, execute_of_live (hstate ▸ hlive)]
    exact hR.cycles (hR.withState h .running) budget hm hother
  · rw [execute_of_stopped hs, execute_of_stopped (hs.of_eq hstate.symm (hR.fault h).symm)]
    exact ⟨rfl, h⟩

theorem nextOutput (hR : Lockstep Allowed R) (h : R m other) (patience : Nat)
    (hm : ∀ c ∈ (m.nextOutputVisits patience).flatMap changes, Allowed c)
    (hother : ∀ c ∈ (other.nextOutputVisits patience).flatMap changes, Allowed c) :
    Likewise R (m.nextOutput patience) (other.nextOutput patience) := by
  induction patience generalizing m other with
  | zero => exact ⟨rfl, h⟩
  | succ patience ih =>
    rw [nextOutputVisits, List.flatMap_append, List.forall_mem_append] at hm hother
    obtain ⟨r, after, after', hrun, hrun', hafter⟩ :=
      (hR.execute h sliceCycles hm.1 hother.1).exists_eq
    have hrest := hm.2
    have hrest' := hother.2
    rw [hrun] at hrest
    rw [hrun'] at hrest'
    rw [Machine.nextOutput, Machine.nextOutput, hrun, hrun']
    obtain e | _ | value | _ := r
    · exact ⟨rfl, hafter⟩
    · exact ih hafter hrest hrest'
    · exact ⟨rfl, hafter⟩
    · exact ⟨rfl, hafter⟩

theorem collect (hR : Lockstep Allowed R) (h : R m other) (patience n : Nat) (outputs : Array Word)
    (hm : ∀ c ∈ (m.collectVisits patience n).flatMap changes, Allowed c)
    (hother : ∀ c ∈ (other.collectVisits patience n).flatMap changes, Allowed c) :
    Likewise R (m.collect patience n outputs) (other.collect patience n outputs) := by
  induction n generalizing m other outputs with
  | zero => exact ⟨rfl, h⟩
  | succ n ih =>
    rw [collectVisits, List.flatMap_append, List.forall_mem_append] at hm hother
    obtain ⟨r, after, after', hrun, hrun', hafter⟩ :=
      (hR.nextOutput h patience hm.1 hother.1).exists_eq
    have hrest := hm.2
    have hrest' := hother.2
    rw [hrun] at hrest
    rw [hrun'] at hrest'
    rw [Machine.collect, Machine.collect, hrun, hrun']
    obtain (_ | value) | e | _ := r
    · exact ⟨rfl, hafter⟩
    · exact ih hafter _ hrest hrest'
    · exact ⟨rfl, hafter⟩
    · exact ⟨rfl, hafter⟩

/-- **Machines in lockstep end likewise**: in the same way, with the same outputs. -/
theorem ends (hR : Lockstep (fun _ => True) R) {hear : Machine σ → Word → Machine σ}
    (hhear : ∀ m other value, R m other → R (hear m value) (hear other value)) (h : R m other)
    {outputs : Array Word} {result : Outcome Unit × Array Word × Machine σ}
    (hends : Ends hear outputs m result) :
    ∃ last, Ends hear outputs other (result.1, result.2.1, last) ∧ R result.2.2 last := by
  have hone {m other : Machine σ} (h : R m other) :
      Likewise R (m.execute 1) (other.execute 1) :=
    hR.execute h 1 (fun _ _ => trivial) fun _ _ => trivial
  induction hends generalizing other with
  | halted hrun =>
    obtain ⟨last, hrun', hlast⟩ := (hone h).exists_of_eq hrun
    exact ⟨last, .halted hrun', hlast⟩
  | failed hrun =>
    obtain ⟨last, hrun', hlast⟩ := (hone h).exists_of_eq hrun
    exact ⟨last, .failed hrun', hlast⟩
  | running hrun _ ih =>
    obtain ⟨after, hrun', hafter⟩ := (hone h).exists_of_eq hrun
    obtain ⟨last, hrest, hlast⟩ := ih hafter
    exact ⟨last, .running hrun' hrest, hlast⟩
  | output hrun _ ih =>
    obtain ⟨after, hrun', hafter⟩ := (hone h).exists_of_eq hrun
    obtain ⟨last, hrest, hlast⟩ := ih (hhear _ _ _ hafter)
    exact ⟨last, .output hrun' hrest, hlast⟩

/-! ## Operations -/

theorem poke (hR : Lockstep Allowed R) (h : R m other) (address : Nat) (value : Word) :
    Likewise R (m.poke address value) (other.poke address value) := by
  unfold Machine.poke
  split
  next => exact ⟨rfl, h⟩
  next => exact ⟨rfl, hR.setMemory address value h⟩

/-- **Machines in lockstep run on likewise**, however they are let run. -/
theorem operate (hR : Lockstep Allowed R) (h : R m other) (patience : Nat) {op : Operation σ}
    (hop : op.Runs) (hm : ∀ c ∈ m.operateHistory patience op, Allowed c)
    (hother : ∀ c ∈ other.operateHistory patience op, Allowed c) :
    Likewise R (m.operate patience op) (other.operate patience op) := by
  cases op with
  | execute budget => exact (hR.execute h budget hm hother).map Reply.event
  | nextOutput => exact (hR.nextOutput h patience hm hother).map Reply.answer
  | runToHalt => exact (hR.collect h patience patience #[] hm hother).map Reply.outputs
  | reset | append | poke | peek | withSource | runToCompletion => exact hop.elim

end Lockstep

/-- **A session goes likewise if each of its operations does**, as long as nothing but what is
allowed is changed. -/
theorem likewise_session {Allowed : Change σ → Prop} {R : Machine σ → Machine σ → Prop}
    {patience : Nat} {ops : List (Operation σ)}
    (hops : ∀ op ∈ ops, ∀ m other, R m other → (∀ c ∈ m.operateHistory patience op, Allowed c) →
      (∀ c ∈ other.operateHistory patience op, Allowed c) →
        Likewise R (m.operate patience op) (other.operate patience op))
    {m other : Machine σ} (h : R m other) (hm : ∀ c ∈ m.history patience ops, Allowed c)
    (hother : ∀ c ∈ other.history patience ops, Allowed c) :
    Likewise R (m.session patience ops) (other.session patience ops) := by
  induction ops generalizing m other with
  | nil => exact ⟨rfl, h⟩
  | cons op ops ih =>
    obtain ⟨hop, hrest⟩ := List.forall_mem_cons.mp hops
    obtain ⟨hm, hmrest⟩ := List.forall_mem_append.mp hm
    obtain ⟨hother, hotherrest⟩ := List.forall_mem_append.mp hother
    have hfirst := hop m other h hm hother
    have hthen := ih hrest hfirst.snd hmrest hotherrest
    exact ⟨congrArg₂ List.cons hfirst.fst hthen.fst, hthen.snd⟩

end Intcode
