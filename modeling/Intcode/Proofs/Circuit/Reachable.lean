import Intcode.Proofs.Circuit.Passage
import Intcode.Proofs.Lifecycle

/-!
# Proofs/Circuit/Reachable — circuits as they come of calls

A circuit is made with new machines, and signals are sent through it.  Whatever is done to it, a
stage stops with no error but one that an instruction fails with (`Machine.Accountable`); so the
errors of stages are never those that the circuit itself reports (`Error.ne_noSignal`), and among
the latter no two stages are confused (`Error.noSignal_inj`).

* `Circuit.forall_of_pass`, `Circuit.forall_of_laps` — what a run to the next output preserves in
  each stage, a signal that passes preserves in all;
* `Circuit.Reachable` — the circuits that come of calls;
* `Circuit.Reachable.accountable` — all their stages are accountable.
-/

namespace Intcode

/-! ## Errors of stages and of circuits -/

/-- The error of a stage without a signal names its stage. -/
theorem Error.noSignal_inj {i j : Nat} (h : noSignal i = noSignal j) : i = j := by
  have hdetail := congrArg (fun e => e.detail.toList) h
  simp only [noSignal, withDetail, String.toList_append, String.toList_ofList,
    List.append_cancel_right_eq, List.append_cancel_left_eq] at hdetail
  exact Text.natural_inj hdetail

/-- No instruction fails with what a circuit says of a stage without a signal. -/
theorem Error.ne_noSignal {e : Error} (h : e.kind ∈ ErrorKind.ofExecution) (number : Nat) :
    e ≠ noSignal number := by
  rintro rfl
  exact absurd (show ErrorKind.internalError ∈ ErrorKind.ofExecution from h) (by decide)

/-! ## Circuits -/

namespace Circuit

variable {patience number n : Nat} {signal : Word} {last : Option Word}
  {stages rest : List (Machine Empty)} {c after : Circuit} {r : Outcome Word} {e : Error}

/-- **What a run to the next output preserves in each stage, a passage preserves in all.** -/
theorem forall_of_pass {P : Machine Empty → Prop}
    (hnext : ∀ m value, P m → P ((m.append value).nextOutput patience).2)
    (hs : ∀ stage ∈ stages, P stage) :
    ∀ stage ∈ (pass patience number signal stages).2, P stage := by
  induction stages generalizing number signal with
  | nil => exact hs
  | cons stage stages ih =>
    obtain ⟨hstage, hothers⟩ := List.forall_mem_cons.mp hs
    have hafter := hnext stage signal hstage
    rw [pass]
    rcases hrun : (stage.append signal).nextOutput patience with ⟨(_ | value) | e | _, after⟩ <;>
      rw [hrun] at hafter
    · exact List.forall_mem_cons.mpr ⟨hafter, hothers⟩
    · exact List.forall_mem_cons.mpr ⟨hafter, ih hothers⟩
    · exact List.forall_mem_cons.mpr ⟨hafter, hothers⟩
    · exact List.forall_mem_cons.mpr ⟨hafter, hothers⟩

theorem forall_of_laps {P : Machine Empty → Prop}
    (hnext : ∀ m value, P m → P ((m.append value).nextOutput patience).2)
    (hs : ∀ stage ∈ stages, P stage) :
    ∀ stage ∈ (laps patience n last signal stages).2, P stage := by
  induction n generalizing last signal stages with
  | zero => exact hs
  | succ n ih =>
    have hrest : ∀ stage ∈ (pass patience 0 signal stages).2, P stage := forall_of_pass hnext hs
    unfold laps
    rcases hpass : pass patience 0 signal stages with ⟨value | number | e | _, rest⟩ <;>
      rw [hpass] at hrest
    · exact ih hrest
    · obtain _ | number := number <;> cases last <;> exact hrest
    · exact hrest
    · exact hrest

/-- The error that ends a passage is that of a stage. -/
theorem exists_stopped_of_pass (h : pass patience number signal stages = (.failed e, rest)) :
    ∃ stage ∈ rest, stage.Stopped (.error e) := by
  induction stages generalizing number signal rest with
  | nil => cases h
  | cons stage stages ih =>
    rw [pass] at h
    rcases hrun : (stage.append signal).nextOutput patience with ⟨(_ | value) | e' | _, after⟩ <;>
      rw [hrun] at h
    · cases h
    · obtain ⟨hfailed, rfl⟩ := Prod.mk.inj h
      obtain ⟨stage', hmem, hstopped⟩ := ih (Prod.ext hfailed rfl)
      exact ⟨stage', List.mem_cons_of_mem after hmem, hstopped⟩
    · obtain ⟨hfailed, rfl⟩ := Prod.mk.inj h
      obtain rfl := Passage.failed.inj hfailed
      exact ⟨after, List.mem_cons_self, Machine.stopped_of_nextOutput_failed hrun⟩
    · cases h

/-- All stages are accountable. -/
def Accountable (stages : List (Machine Empty)) : Prop := ∀ stage ∈ stages, stage.Accountable

theorem accountable_of_append (m : Machine Empty) (value : Word) (hm : m.Accountable) :
    ((m.append value).nextOutput patience).2.Accountable :=
  Machine.accountable_of_nextOutput (hm.append value) patience

theorem accountable_of_pass (hs : Accountable stages) :
    Accountable (pass patience number signal stages).2 :=
  forall_of_pass accountable_of_append hs

/-- Accountable stages end a passage with none of the errors that a circuit reports. -/
theorem ne_noSignal_of_pass (hs : Accountable stages)
    (h : pass patience number signal stages = (.failed e, rest)) (k : Nat) : e ≠ .noSignal k := by
  obtain ⟨stage, hmem, hstopped⟩ := exists_stopped_of_pass h
  have hrest : Accountable (pass patience number signal stages).2 := accountable_of_pass hs
  rw [h] at hrest
  have hstage := hrest stage hmem
  exact Error.ne_noSignal (hstage.kind e (hstage.fault_eq_some hstopped).2) k

theorem accountable_of_pipeline (hs : Accountable c.stages)
    (h : c.pipeline patience signal = (r, after)) : Accountable after.stages := by
  by_cases hnil : c.stages = []
  · rw [pipeline_of_nil hnil] at h
    exact (Prod.mk.inj h).2 ▸ hs
  · rw [pipeline_eq_convey hnil] at h
    exact (Prod.mk.inj h).2 ▸ accountable_of_pass hs

theorem accountable_of_feedback (hs : Accountable c.stages)
    (h : c.feedback patience signal = (r, after)) : Accountable after.stages := by
  by_cases hnil : c.stages = []
  · rw [feedback_of_nil hnil] at h
    exact (Prod.mk.inj h).2 ▸ hs
  · rw [feedback_eq_laps hnil] at h
    exact (Prod.mk.inj h).2 ▸ forall_of_laps accountable_of_append hs

theorem accountable_of_send {wiring : Wiring} (hs : Accountable c.stages)
    (h : c.send wiring patience signal = (r, after)) : Accountable after.stages := by
  cases wiring with
  | pipeline => exact accountable_of_pipeline hs h
  | feedback => exact accountable_of_feedback hs h

/-- The stages of a new circuit are accountable. -/
theorem accountable_create (program : Program) (phases : List Word) :
    Accountable (create program phases).stages := by
  intro stage hstage
  obtain ⟨phase, -, rfl⟩ := List.mem_map.mp hstage
  exact (Machine.accountable_create program).append phase

/-- The circuits that come of calls: new ones, and those that a signal has been sent through. -/
inductive Reachable : Circuit → Prop
  | create (program : Program) (phases : List Word) : Reachable (create program phases)
  | send {c : Circuit} (wiring : Wiring) {patience : Nat} (signal : Word) (h : Reachable c)
    (hreturns : (c.send wiring patience signal).1 ≠ .unfinished) :
    Reachable (c.send wiring patience signal).2

/-- **No stage of a circuit ever stops with an error that the circuit itself reports.** -/
theorem Reachable.accountable (h : c.Reachable) : Accountable c.stages := by
  induction h with
  | create program phases => exact accountable_create program phases
  | send _ _ _ _ ih => exact accountable_of_send ih rfl

end Circuit

end Intcode
