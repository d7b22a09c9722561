import Intcode.Proofs.Execution
import Intcode.Proofs.Ideal.Planning

/-!
# Proofs/Ideal/Refinement — a machine of words follows the ideal machine

As long as nothing stands in the way a machine does what the ideal machine does, and else it fails
with the first obstacle:

* `Machine.step_exact` — at one instruction;
* `Machine.cycles_follows` — in a run of any length, cut anywhere.
-/

namespace Intcode

/-- A result of the ideal machine, and the same result of a machine of words: equal events and equal
machines, or the error that tells of the obstacle. -/
def Machine.Follows {σ : Type} (r : Except Error Event × Machine σ)
    (exact : Except Obstacle Ideal.Event × Ideal) : Prop :=
  match r, exact with
  | (.ok event, m), (.ok event', i) => event.exact = event' ∧ m.ideal = i
  | (.error e, m), (.error o, i) => o.Tells i.pc e ∧ m.ideal = i
  | (.ok _, _), (.error _, _) | (.error _, _), (.ok _, _) => False

namespace Machine

variable {σ : Type}

/-! ## Memory -/

/-- **A write changes its cell and no other**, in memory seen as a total function. -/
theorem toInt_read_set (memory : Memory) (target : Nat) (value : Word) :
    (fun a => ((memory.set target value).read a).toInt) =
      Function.update (fun a => (memory.read a).toInt) target value.toInt := by
  funext a
  rw [Memory.read_set, Function.update_apply]
  split <;> rfl

theorem ideal_set (m : Machine σ) (target : Nat) (value : Word) (next : Nat) :
    ideal { m with memory := m.memory.set target value, pc := next } =
      { m.ideal with
        memory := Function.update m.ideal.memory target value.toInt
        pc := next } :=
  congrArg (fun memory => Ideal.mk memory next _ _) (toInt_read_set m.memory target value)

/-! ## One instruction -/

variable [Source σ]

/-- **An action in range is performed exactly**, if there is something to read when it reads. -/
theorem perform_exact (m : Machine σ) {a : Action} (hrange : a.InRange)
    (hqueue : a.receives = true → m.input.queue.toList ≠ []) (next : Nat) :
    ∃ event after, m.perform next a = (.ok event, after) ∧
      (event.exact, after.ideal) = a.effect m.ideal next := by
  cases a with
  | store target value =>
    exact ⟨_, _, store_of_le hrange value next,
      congrArg (Prod.mk _) (m.ideal_set target value next)⟩
  | receive target =>
    cases hlist : m.input.queue.toList with
    | nil => exact absurd hlist (hqueue rfl)
    | cons x rest =>
      refine ⟨.running, { m with
        memory := m.memory.set target x
        pc := next
        input := { m.input with queue := .ofList rest } }, ?_, ?_⟩
      · rw [perform_receive_of_cons hlist]
        exact store_of_le hrange x next
      · have hqueue : m.ideal.queue = x.toInt :: rest.map Word.toInt :=
          congrArg (List.map Word.toInt) hlist
        rw [Action.effect, hqueue, List.headD_cons, List.tail_cons]
        refine congrArg (Prod.mk _) (Ideal.ext (toInt_read_set m.memory target x) rfl rfl ?_)
        exact congrArg (List.map Word.toInt) (Queue.toList_ofList rest)
  | emit value | jump target | pass | rebase base | halt => exact ⟨_, _, rfl, rfl⟩

/-- **One step of a machine without a source**: the ideal step if nothing stands in its way, and
else the error of the first obstacle, with the machine as it was. -/
theorem step_exact (m : Machine σ) (hsource : m.input.source = none) :
    (m.ideal.obstacles = [] ∧ ∃ event after, m.step = (.ok event, after) ∧
        (event.exact, after.ideal) = m.ideal.step) ∨
      ∃ o rest e, m.ideal.obstacles = o :: rest ∧ m.step = (.error e, m) ∧ o.Tells m.pc e := by
  have hmeets := m.plan_meets
  rw [Ideal.obstacles]
  cases hplan : m.ideal.planObstacles with
  | cons o rest =>
    rw [hplan] at hmeets
    obtain ⟨e, he, ho⟩ := hmeets
    exact .inr ⟨o, _, e, rfl, step_of_plan_error he, ho⟩
  | nil =>
    rw [hplan] at hmeets
    obtain ⟨⟨op, a⟩, hok, hop, hcarries⟩ := hmeets
    rw [List.nil_append, hop, step_of_plan_ok hok, ← hcarries.effect]
    by_cases hread : op = .read → m.ideal.queue ≠ []
    · refine .inl ⟨?_, m.perform_exact hcarries.inRange (fun hreceives => ?_) _⟩
      · exact if_pos fun h => hread (Option.some.inj h)
      · exact fun hnil => hread (hcarries.receives.mp hreceives)
          (congrArg (List.map Word.toInt) hnil)
    · obtain ⟨hop', hnil⟩ := Classical.not_imp.mp hread
      have hreceives : a.receives = true := hcarries.receives.mpr hop'
      have hlist : m.input.queue.toList = [] := List.map_eq_nil_iff.mp (not_not.mp hnil)
      refine .inr ⟨.starved, [], .starved m.pc, ?_, ?_, rfl, rfl, rfl, rfl⟩
      · exact if_neg fun h => hread fun hr => h (congrArg some hr)
      · cases a with
        | receive target => exact perform_receive_of_nil hlist hsource _ target
        | store _ _ | emit _ | jump _ | pass | rebase _ | halt => cases hreceives

/-! ## Runs -/

theorem cycles_follows (n : Nat) (m : Machine σ) (hsource : m.input.source = none) :
    Follows (cycles n m) (m.ideal.run n) := by
  induction n generalizing m with
  | zero => exact ⟨rfl, rfl⟩
  | succ n ih =>
    rw [Ideal.run]
    obtain ⟨hnone, event, after, hstep, hexact⟩ | ⟨o, rest, e, hsome, hstep, ho⟩ :=
      m.step_exact hsource
    · rw [hnone, ← hexact]
      have hafter : m.step.2 = after := congrArg Prod.snd hstep
      cases event with
      | running =>
        rw [cycles_succ_of_running (congrArg Prod.fst hstep), hafter]
        exact ih after (hafter ▸ step_source_eq_none hsource)
      | output value | halted =>
        rw [cycles_succ_of_stop (by rw [hstep]; exact nofun), hstep]
        exact ⟨rfl, rfl⟩
    · rw [hsome, cycles_succ_of_stop (by rw [hstep]; exact nofun), hstep]
      exact ⟨ho, rfl⟩

/-- **A machine without a source follows the ideal machine.**  An instruction succeeds exactly if
there is no obstacle, and does then what the instruction table says; if it fails, the error tells of
the first obstacle, and nothing has changed.  So it is in a run of any length. -/
theorem execute_follows (m : Machine σ) (hlive : m.state.Live) (hsource : m.input.source = none) :
    ((∃ event after, m.execute 1 = (.ok event, after)) ↔ m.ideal.obstacles = []) ∧
      (∀ event after, m.execute 1 = (.ok event, after) →
        event.exact = m.ideal.step.1 ∧ after.ideal = m.ideal.step.2) ∧
      (∀ e after, m.execute 1 = (.error e, after) →
        (∃ o rest, m.ideal.obstacles = o :: rest ∧ o.Tells m.pc e) ∧ after.ideal = m.ideal) ∧
      ∀ n, Follows (m.execute n) (m.ideal.run n) := by
  have hfollows : ∀ n, Follows (m.execute n) (m.ideal.run n) := fun n => by
    rw [execute_of_live hlive]
    exact cycles_follows n (m.withState .running) hsource
  rw [execute_one hlive]
  obtain ⟨hnone, event, after, hstep, hexact⟩ | ⟨o, rest, e, hsome, hstep, ho⟩ :=
    m.step_exact hsource
  · rw [hstep]
    refine ⟨iff_of_true ⟨_, _, rfl⟩ hnone, ?_, ?_, hfollows⟩
    · rintro _ _ ⟨rfl, rfl⟩
      exact Prod.mk.inj hexact
    · intro e after h
      cases congrArg Prod.fst h
  · rw [hstep, hsome]
    refine ⟨iff_of_false ?_ (List.cons_ne_nil o rest), ?_, ?_, hfollows⟩
    · rintro ⟨event, after, h⟩
      cases congrArg Prod.fst h
    · intro event after h
      cases congrArg Prod.fst h
    · rintro _ _ ⟨rfl, rfl⟩
      exact ⟨⟨o, rest, rfl, ho⟩, rfl⟩

/-- A sum one beyond the greatest word, put at an address beyond the last one: the address is met
first. -/
theorem execute_follows_add :
    let m : Machine Empty := .create ⟨([1101, 9223372036854775807, 1, 16777216].map Word.wrap).toArray⟩
    m.state.Live ∧ m.input.source = none ∧
      m.ideal.obstacles = [.noAddress 16777216, .noResult .add] ∧
      ∃ e after, m.execute 1 = (.error e, after) ∧
        (∃ o rest, m.ideal.obstacles = o :: rest ∧ o.Tells m.pc e) ∧ after.ideal = m.ideal := by
  refine ⟨trivial, rfl, by decide, _, _, rfl, ?_⟩
  exact (execute_follows (.create ⟨([1101, 9223372036854775807, 1, 16777216].map Word.wrap).toArray⟩)
    trivial rfl).2.2.1 _ _ rfl

end Machine

end Intcode
