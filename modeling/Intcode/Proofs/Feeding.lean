import Intcode.Proofs.Faults
import Intcode.Proofs.Slicing

/-!
# Proofs/Feeding — more input changes nothing that was computed without it

A machine looks at its queue only to take the first value of it, so values further behind ride along
untouched until their `READ` comes.  `Machine.feed` puts such values there:

* `Machine.step_feed`, `Machine.execute_feed` — a machine that does not starve does the same when it
  is fed;
* `Machine.execute_feed_of_starved` — one that starves comes to the same `READ`, and goes on;
* `Machine.deliver_feed_prefix` — what was delivered stays delivered;
* `Machine.calls_append_earlier` — an append may as well come before other calls.
-/

namespace Intcode

/-- Whether a machine has come to a `READ` with nothing to read. -/
def Starved (r : Except Error Event) : Prop := ∃ e, r = .error e ∧ e.kind = .inputStarvation

theorem not_starved_ok (event : Event) : ¬Starved (.ok event) := by
  rintro ⟨e, he, -⟩
  cases he

/-- A call of a machine by its owner. -/
inductive Call
  | append (value : Word)
  | execute (budget : Nat)
  | reset (inputs : List Word)

namespace Machine

variable {σ : Type}

/-- The machine with more to read behind what it has queued. -/
def feed (m : Machine σ) (xs : List Word) : Machine σ :=
  { m with input := { m.input with queue := .ofList (m.input.queue.toList ++ xs) } }

@[simp] theorem toList_feed (m : Machine σ) (xs : List Word) :
    (m.feed xs).input.queue.toList = m.input.queue.toList ++ xs := Queue.toList_ofList _

theorem append_eq_feed (m : Machine σ) (value : Word) : m.append value = m.feed [value] := by
  refine congrArg (fun q => { m with input := { m.input with queue := q } }) (Queue.ext ?_)
  rw [Queue.toList_push, Queue.toList_ofList]

theorem feed_reset (m : Machine σ) (inputs xs : List Word) :
    (m.reset inputs).feed xs = m.reset (inputs ++ xs) := by
  unfold feed reset Input.reset
  simp only [Queue.toList_ofList]

/-! ## One instruction -/

theorem store_feed (m : Machine σ) (xs : List Word) (target : Nat) (value : Word) (next : Nat) :
    (m.feed xs).store target value next =
      ((m.store target value next).1, (m.store target value next).2.feed xs) := by
  unfold store
  split <;> rfl

variable [Source σ]

/-- **An instruction that does not starve does the same when the machine is fed.** -/
theorem step_feed {m : Machine σ} (hsource : m.input.source = none) (h : ¬Starved m.step.1)
    (xs : List Word) : (m.feed xs).step = (m.step.1, m.step.2.feed xs) := by
  have hfed : (m.feed xs).plan = m.plan := rfl
  cases hplan : m.plan with
  | error e =>
    rw [step_of_plan_error (hfed.trans hplan), step_of_plan_error hplan]
  | ok p =>
    obtain ⟨op, a⟩ := p
    rw [step_of_plan_ok hplan] at h ⊢
    rw [step_of_plan_ok (hfed.trans hplan)]
    cases a with
    | store target value => exact m.store_feed xs target value _
    | receive target =>
      cases hqueue : m.input.queue.toList with
      | nil =>
        -- nothing is queued, so the `READ` starves
        rw [perform_receive_of_nil hqueue hsource] at h
        exact absurd ⟨_, rfl, rfl⟩ h
      | cons x rest =>
        have hqueue' : (m.feed xs).input.queue.toList = x :: (rest ++ xs) := by
          rw [toList_feed, hqueue, List.cons_append]
        rw [perform_receive_of_cons hqueue, perform_receive_of_cons hqueue', ← store_feed]
        refine congrArg (store · target x _) ?_
        unfold feed
        simp only [Queue.toList_ofList]
    | emit value | jump target | pass | rebase base | halt => rfl

/-! ## Runs -/

theorem cycles_feed {n : Nat} {m : Machine σ} (hsource : m.input.source = none)
    (h : ¬Starved (cycles n m).1) (xs : List Word) :
    cycles n (m.feed xs) = ((cycles n m).1, (cycles n m).2.feed xs) := by
  induction n generalizing m with
  | zero => rfl
  | succ n ih =>
    by_cases hr : m.step.1 = .ok .running
    · have hstep := step_feed hsource (hr ▸ not_starved_ok .running) xs
      rw [cycles_succ_of_running hr] at h ⊢
      rw [cycles_succ_of_running (by rw [hstep]; exact hr), hstep]
      exact ih (step_source_eq_none hsource) h
    · rw [cycles_succ_of_stop hr] at h ⊢
      have hstep := step_feed hsource h xs
      rw [cycles_succ_of_stop (by rw [hstep]; exact hr), hstep]
      rfl

/-- **A run that does not starve is the same when the machine is fed.** -/
theorem execute_feed {m : Machine σ} {n : Nat} (hsource : m.input.source = none)
    (h : ¬Starved (m.execute n).1) (xs : List Word) :
    (m.feed xs).execute n = ((m.execute n).1, (m.execute n).2.feed xs) := by
  obtain hlive | ⟨r, hs⟩ := m.live_or_stopped
  · rw [execute_of_live hlive] at h ⊢
    rw [execute_of_live (m := m.feed xs) hlive]
    exact cycles_feed (m := m.withState .running) hsource h xs
  · have hfed : (m.feed xs).Stopped r := hs.of_eq rfl rfl
    rw [execute_of_stopped hs, execute_of_stopped hfed]

/-- **A run that starves goes on when the machine is fed**: it reaches the same `READ`, where it now
finds what it was fed with, and nothing else. -/
theorem execute_feed_of_starved {m after : Machine σ} {n : Nat} {e : Error}
    (hstate : m.state ≠ .faulted) (hsource : m.input.source = none)
    (h : m.execute n = (.error e, after)) (he : e.kind = .inputStarvation) :
    ∃ k < n, ∃ before, m.execute k = (.ok .running, before) ∧ before.input.queue.toList = [] ∧
      ∃ target, before.plan = .ok (.read, .receive target) ∧
        ∀ xs, ∃ fed, (m.feed xs).execute k = (.ok .running, fed) ∧ fed.input.queue.toList = xs ∧
          fed.plan = .ok (.read, .receive target) ∧ fed.memory = after.memory ∧
          fed.pc = after.pc ∧ fed.base = after.base := by
  obtain ⟨k, hk, before, last, hbefore, hstep, rfl⟩ :=
    exists_of_execute_stop (live_of_error hstate h) h nofun
  obtain ⟨hplan, -⟩ | ⟨target, hplan, -, hqueue, rfl⟩ := step_of_error hstep
  · exact absurd he (kind_of_plan_error hplan).2.1
  · refine ⟨k, hk, before, hbefore, hqueue, target, hplan, fun xs => ⟨before.feed xs, ?_⟩⟩
    refine ⟨?_, by rw [toList_feed, hqueue, List.nil_append], hplan, rfl, rfl, rfl⟩
    rw [execute_feed hsource (hbefore ▸ not_starved_ok .running), hbefore]

/-! ## Outputs -/

theorem prefix_deliver (hear : Machine σ → Word → Machine σ) (budgets : List Nat)
    (outputs : Array Word) (m : Machine σ) :
    outputs.toList <+: (deliver hear budgets outputs m).2.1.toList := by
  induction budgets generalizing outputs m with
  | nil => exact List.prefix_refl _
  | cons budget budgets ih =>
    rw [deliver]
    obtain ⟨e | _ | value | _, after⟩ := m.execute budget
    · exact List.prefix_refl _
    · exact ih outputs after
    · refine List.IsPrefix.trans ?_ (ih (outputs.push value) (hear after value))
      rw [Array.toList_push]
      exact List.prefix_append _ _
    · exact List.prefix_refl _

/-- **What was delivered stays delivered when the machine is fed.** -/
theorem deliver_feed_prefix {m : Machine σ} (hsource : m.input.source = none) (budgets : List Nat)
    (outputs : Array Word) (xs : List Word) :
    (deliver (fun m _ => m) budgets outputs m).2.1.toList <+:
      (deliver (fun m _ => m) budgets outputs (m.feed xs)).2.1.toList := by
  induction budgets generalizing outputs m with
  | nil => exact List.prefix_refl _
  | cons budget budgets ih =>
    by_cases h : Starved (m.execute budget).1
    · -- the run ends here, and the fed one goes on from the same outputs
      obtain ⟨e, he, -⟩ := h
      have hslice : m.execute budget = (.error e, (m.execute budget).2) := Prod.ext he rfl
      rw [deliver, hslice]
      exact prefix_deliver _ (budget :: budgets) outputs (m.feed xs)
    · have hrest := execute_source_eq_none hsource budget
      rw [deliver, deliver, execute_feed hsource h]
      generalize m.execute budget = slice at hrest ⊢
      obtain ⟨e | _ | value | _, after⟩ := slice
      · exact List.prefix_refl _
      · exact ih hrest outputs
      · exact ih hrest (outputs.push value)
      · exact List.prefix_refl _

/-! ## Calls -/

/-- Makes one call after the other: what the executions among them come to, and the machine
afterwards. -/
def calls : List Call → Machine σ → List (Except Error Event) × Machine σ
  | [], m => ([], m)
  | .append value :: rest, m => calls rest (m.append value)
  | .reset inputs :: rest, m => calls rest (m.reset inputs)
  | .execute budget :: rest, m =>
    ((m.execute budget).1 :: (calls rest (m.execute budget).2).1,
      (calls rest (m.execute budget).2).2)

theorem calls_append (before after : List Call) (m : Machine σ) :
    m.calls (before ++ after) =
      ((m.calls before).1 ++ ((m.calls before).2.calls after).1,
        ((m.calls before).2.calls after).2) := by
  induction before generalizing m with
  | nil => rfl
  | cons call before ih =>
    cases call with
    | append value => exact ih (m.append value)
    | reset inputs => exact ih (m.reset inputs)
    | execute budget => rw [List.cons_append, calls, ih, calls, List.cons_append]

theorem calls_source_eq_none {m : Machine σ} (h : m.input.source = none) (row : List Call) :
    (m.calls row).2.input.source = none := by
  induction row generalizing m with
  | nil => exact h
  | cons call row ih =>
    cases call with
    | append value => exact ih (m := m.append value) h
    | reset inputs => exact ih (m := m.reset inputs) h
    | execute budget => exact ih (execute_source_eq_none h budget)

/-- **A value that is appended after some calls may as well be there before them**, if none of them
starves or resets the machine, and if none appends another value, which would have to stay in front
of it. -/
theorem calls_feed {m : Machine σ} (hsource : m.input.source = none) {value : Word}
    {row : List Call} (hrow : ∀ call ∈ row, call = .append value ∨ ∃ budget, call = .execute budget)
    (h : ∀ r ∈ (m.calls row).1, ¬Starved r) :
    (m.feed [value]).calls row = ((m.calls row).1, (m.calls row).2.feed [value]) := by
  induction row generalizing m with
  | nil => rfl
  | cons call row ih =>
    obtain ⟨hcall, hrest⟩ := List.forall_mem_cons.mp hrow
    obtain rfl | ⟨budget, rfl⟩ := hcall
    · rw [calls, calls, append_eq_feed, append_eq_feed]
      exact ih (m := m.feed [value]) hsource hrest (append_eq_feed m value ▸ h)
    · obtain ⟨hr, h⟩ := List.forall_mem_cons.mp h
      rw [calls, calls, execute_feed hsource hr,
        ih (execute_source_eq_none hsource budget) hrest h]

/-- **The moment of an append does not matter**: it may as well be made earlier. -/
theorem calls_append_earlier {m : Machine σ} (hsource : m.input.source = none) {value : Word}
    (before after : List Call) {middle : List Call}
    (hmiddle : ∀ call ∈ middle, call = .append value ∨ ∃ budget, call = .execute budget)
    (h : ∀ r ∈ (m.calls (before ++ middle ++ .append value :: after)).1, ¬Starved r) :
    m.calls (before ++ .append value :: middle ++ after) =
      m.calls (before ++ middle ++ .append value :: after) := by
  rw [List.append_assoc, calls_append] at h
  simp only [List.append_assoc, List.cons_append, calls_append before]
  have hsource' := calls_source_eq_none hsource before
  generalize (m.calls before).2 = n at h hsource' ⊢
  have hfeed := calls_feed hsource' hmiddle fun r hr => h r (by
    rw [calls_append]
    exact List.mem_append_right _ (List.mem_append_left _ hr))
  rw [calls, append_eq_feed, calls_append, hfeed, calls_append middle, calls, append_eq_feed]

/-- **More input changes nothing that was computed without it.**  For a machine without a source that
has not failed: a run that does not starve is the same with more in the queue, and leaves that
there; a run that starves reaches the same `READ` with more in the queue, and finds there what was
added.  So the values delivered from some inputs are the first ones of those delivered from more,
and an append may be made at any earlier time since the last reset, as long as the values are queued
in the same order. -/
theorem feeding_unobservable (m : Machine σ) (hstate : m.state ≠ .faulted)
    (hsource : m.input.source = none) :
    (∀ n xs, ¬Starved (m.execute n).1 →
        (m.feed xs).execute n = ((m.execute n).1, (m.execute n).2.feed xs)) ∧
      (∀ n e after, m.execute n = (.error e, after) → e.kind = .inputStarvation →
        ∃ k < n, ∃ before, m.execute k = (.ok .running, before) ∧
          before.input.queue.toList = [] ∧ ∃ target, before.plan = .ok (.read, .receive target) ∧
          ∀ xs, ∃ fed, (m.feed xs).execute k = (.ok .running, fed) ∧
            fed.input.queue.toList = xs ∧ fed.plan = .ok (.read, .receive target) ∧
            fed.memory = after.memory ∧ fed.pc = after.pc ∧ fed.base = after.base) ∧
      (∀ inputs xs budgets,
        (deliver (fun m _ => m) budgets #[] (m.reset inputs)).2.1.toList <+:
          (deliver (fun m _ => m) budgets #[] (m.reset (inputs ++ xs))).2.1.toList) ∧
      ∀ value before middle after,
        (∀ call ∈ middle, call = .append value ∨ ∃ budget, call = .execute budget) →
        (∀ r ∈ (m.calls (before ++ middle ++ .append value :: after)).1, ¬Starved r) →
        m.calls (before ++ .append value :: middle ++ after) =
          m.calls (before ++ middle ++ .append value :: after) := by
  refine ⟨fun n xs h => execute_feed hsource h xs,
    fun n e after => execute_feed_of_starved hstate hsource, fun inputs xs budgets => ?_,
    fun value before middle after => calls_append_earlier hsource before after⟩
  rw [← feed_reset]
  exact deliver_feed_prefix (m := m.reset inputs) hsource budgets #[] xs

/-- A program that writes what it reads, and halts. -/
theorem feeding_unobservable_echo :
    let m : Machine Empty := .create ⟨([3, 0, 4, 0, 99].map Word.wrap).toArray⟩
    m.state ≠ .faulted ∧ m.input.source = none ∧
      (∃ fed, (m.feed [1]).execute 0 = (.ok .running, fed) ∧ fed.input.queue.toList = [1]) ∧
      m.calls [.append 1, .append 1, .execute 2, .execute 1] =
        m.calls [.append 1, .execute 2, .append 1, .execute 1] ∧
      (m.calls [.append 1, .execute 2, .append 1, .execute 1]).1 =
        [.ok (.output 1), .ok .halted] := by
  refine ⟨by decide, rfl, ?_, ?_, rfl⟩
  · obtain ⟨k, hk, before, hbefore, hqueue, target, hplan, hfed⟩ :=
      (feeding_unobservable (.create ⟨([3, 0, 4, 0, 99].map Word.wrap).toArray⟩ : Machine Empty)
        (by decide) rfl).2.1 1 (.starved 0) _ rfl rfl
    obtain rfl := Nat.lt_one_iff.mp hk
    obtain ⟨fed, hexecute, hlist, -⟩ := hfed [1]
    exact ⟨fed, hexecute, hlist⟩
  · refine (feeding_unobservable _ (by decide) rfl).2.2.2 1 [.append 1] [.execute 2]
      [.execute 1] ?_ ?_
    · exact fun call hcall => .inr ⟨2, List.mem_singleton.mp hcall⟩
    · intro r hr
      have hresults : r ∈ [Except.ok (Event.output 1), .ok .halted] := hr
      obtain rfl | hr := List.mem_cons.mp hresults
      · exact not_starved_ok _
      · rw [List.mem_singleton.mp hr]
        exact not_starved_ok _

/-- Values are read in the order in which they are appended, so an append must not be moved past one
of another value. -/
theorem calls_append_order :
    let m : Machine Empty := .create ⟨([3, 0, 4, 0, 99].map Word.wrap).toArray⟩
    (∀ r ∈ (m.calls ([] ++ [.append 1] ++ .append (.wrap 2) :: [.execute 10])).1, ¬Starved r) ∧
      m.calls ([] ++ .append (.wrap 2) :: [.append 1] ++ [.execute 10]) ≠
        m.calls ([] ++ [.append 1] ++ .append (.wrap 2) :: [.execute 10]) := by
  refine ⟨fun r hr => ?_, fun h => ?_⟩
  · have hresults : r ∈ [Except.ok (Event.output 1)] := hr
    rw [List.mem_singleton.mp hresults]
    exact not_starved_ok _
  · have hresult : (Except.ok (Event.output (.wrap 2)) : Except Error Event) = .ok (.output 1) :=
      (List.cons.inj (congrArg Prod.fst h)).1
    have hvalue : Word.wrap 2 = 1 := Event.output.inj (Except.ok.inj hresult)
    exact absurd hvalue (by decide)

end Machine

end Intcode
