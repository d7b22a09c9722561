import Mathlib.Logic.Relation
import Intcode.Proofs.Circuit.Reachable

/-!
# Proofs/Circuit/Ending — a circuit that has ended stays ended

A call moves a signal from stage to stage, and in a feedback from the last stage back to the first.
Between two moves some stages are behind the signal and the others ahead of it, and that is all
there is to know of the call: a stage that the signal goes through is suspended, the others are left
alone, and a stage that has stopped lets no signal through any more.

* `Circuit.Moves`, `Circuit.Closes` — one move of a signal, and how its way ends;
* `Circuit.exists_moment` — each call that returns is some moves and such an end;
* `Circuit.orderly_of_moves`, `Circuit.free_of_moves`, `Circuit.barred_of_moves` — what the moves
  preserve;
* `Circuit.StopsAt` — how a call that fails leaves the stages;
* `Circuit.Called` — the circuits that come of calls, with what these returned;
* `Circuit.ended_stays_ended` — the states in which calls leave the stages, and after which of them
  no call succeeds any more.
-/

namespace Intcode

/-- Only a machine that may go on comes to another output. -/
theorem Machine.live_of_nextOutput {σ : Type} [Source σ] {m after : Machine σ} {patience : Nat}
    {value : Word} (h : m.nextOutput patience = (.done (some value), after)) : m.state.Live := by
  obtain hlive | ⟨r, hs⟩ := m.live_or_stopped
  · exact hlive
  · obtain _ | patience := patience
    · cases h
    · rw [nextOutput_of_stopped hs] at h
      have hanswer : answer r = .done (some value) := congrArg Prod.fst h
      cases hs <;> cases hanswer

namespace Circuit

open Relation Machine

/-! ## The way of a signal -/

/-- A moment of a call: a signal stands between the stages that it has passed in this lap and those
that are ahead of it. -/
structure Moment where
  passed : List (Machine Empty)
  signal : Word
  ahead : List (Machine Empty)

/-- **A move of a signal**: the next stage is given it and writes another, or, in a feedback, the
last stage is passed and the first one is next. -/
inductive Moves (wiring : Wiring) (patience : Nat) : Moment → Moment → Prop
  | through {passed signal stage ahead value after}
    (h : (stage.append signal).nextOutput patience = (.done (some value), after)) :
    Moves wiring patience ⟨passed, signal, stage :: ahead⟩ ⟨passed ++ [after], value, ahead⟩
  | around {passed signal} (h : wiring = .feedback) :
    Moves wiring patience ⟨passed, signal, []⟩ ⟨[], signal, passed⟩

/-- **How the way of a signal ends**: what the call returns then, and the stages afterwards. -/
inductive Closes (wiring : Wiring) (patience : Nat) :
    Moment → Outcome Word × List (Machine Empty) → Prop
  /-- In a pipeline, the last stage is passed. -/
  | arrives {passed signal} (h : wiring = .pipeline) :
    Closes wiring patience ⟨passed, signal, []⟩ (.done signal, passed)
  /-- In a feedback, the last stage is passed, and the first one halts. -/
  | returns {first others signal after} (h : wiring = .feedback)
    (hfirst : (first.append signal).nextOutput patience = (.done none, after)) :
    Closes wiring patience ⟨first :: others, signal, []⟩ (.done signal, after :: others)
  /-- A stage halts. -/
  | halts {passed signal stage ahead after}
    (h : (stage.append signal).nextOutput patience = (.done none, after)) :
    Closes wiring patience ⟨passed, signal, stage :: ahead⟩
      (.failed (.noSignal passed.length), passed ++ after :: ahead)
  /-- A stage fails. -/
  | fails {passed signal stage ahead e after}
    (h : (stage.append signal).nextOutput patience = (.failed e, after)) :
    Closes wiring patience ⟨passed, signal, stage :: ahead⟩
      (.failed e, passed ++ after :: ahead)

variable {wiring : Wiring} {patience number n : Nat} {signal : Word} {last : Option Word}
  {stages rest passed : List (Machine Empty)} {start : Moment} {r : Outcome Word}
  {c after : Circuit}

/-- A signal that goes through all stages moves past them. -/
theorem moves_of_pass (passed : List (Machine Empty)) {value : Word}
    (h : pass patience number signal stages = (.through value, rest)) :
    ReflTransGen (Moves wiring patience) ⟨passed, signal, stages⟩ ⟨passed ++ rest, value, []⟩ := by
  induction stages generalizing number signal rest passed with
  | nil =>
    cases h
    rw [List.append_nil]
  | cons stage stages ih =>
    rw [pass] at h
    rcases hrun : (stage.append signal).nextOutput patience with ⟨(_ | value') | e | _, after⟩ <;>
      rw [hrun] at h
    · cases h
    · obtain ⟨hthrough, rfl⟩ := Prod.mk.inj h
      have hrest := ih (passed ++ [after]) (Prod.ext hthrough rfl)
      rw [← List.append_cons] at hrest
      exact .head (.through hrun) hrest
    · cases h
    · cases h

/-- A signal that does not go through all stages moves past some, and is stopped by the next. -/
theorem closes_of_pass (passed : List (Machine Empty)) {passage : Passage} {e : Error}
    (h : pass patience passed.length signal stages = (passage, rest))
    (he : passage.outcome = .failed e) :
    ∃ moment, ReflTransGen (Moves wiring patience) ⟨passed, signal, stages⟩ moment ∧
      Closes wiring patience moment (.failed e, passed ++ rest) := by
  induction stages generalizing signal rest passed passage with
  | nil =>
    cases h
    cases he
  | cons stage stages ih =>
    rw [pass] at h
    rcases hrun : (stage.append signal).nextOutput patience with ⟨(_ | value) | e' | _, after⟩ <;>
      rw [hrun] at h <;> obtain ⟨rfl, rfl⟩ := Prod.mk.inj h
    · cases he
      exact ⟨_, .refl, .halts hrun⟩
    · have hlength : passed.length + 1 = (passed ++ [after]).length := by simp
      rw [hlength] at he ⊢
      rw [List.append_cons]
      obtain ⟨moment, hmoves, hcloses⟩ := ih (passed ++ [after]) rfl he
      exact ⟨moment, .head (.through hrun) hmoves, hcloses⟩
    · cases he
      exact ⟨_, .refl, .fails hrun⟩
    · cases he

theorem le_of_pass_halted {k : Nat} (h : pass patience number signal stages = (.halted k, rest)) :
    number ≤ k := by
  induction stages generalizing number signal rest with
  | nil => cases h
  | cons stage stages ih =>
    rw [pass] at h
    rcases hrun : (stage.append signal).nextOutput patience with ⟨(_ | value) | e | _, after⟩ <;>
      rw [hrun] at h
    · cases h
      exact Nat.le_refl _
    · obtain ⟨hhalted, -⟩ := Prod.mk.inj h
      exact Nat.le_of_succ_le (ih (Prod.ext hhalted rfl))
    · cases h
    · cases h

/-- A passage is stopped by the first stage only if it does not get beyond it. -/
theorem pass_of_halted_zero (h : pass patience 0 signal stages = (.halted 0, rest)) :
    ∃ first others after, stages = first :: others ∧
      (first.append signal).nextOutput patience = (.done none, after) ∧ rest = after :: others := by
  obtain _ | ⟨first, others⟩ := stages
  · cases h
  · rw [pass] at h
    rcases hrun : (first.append signal).nextOutput patience with ⟨(_ | value) | e' | _, after⟩ <;>
      rw [hrun] at h
    · exact ⟨first, others, after, rfl, hrun, (Prod.mk.inj h).2.symm⟩
    · have hhalted : (pass patience 1 value others).1 = .halted 0 := congrArg Prod.fst h
      exact absurd (le_of_pass_halted (Prod.ext hhalted rfl)) (Nat.not_succ_le_zero 0)
    · cases h
    · cases h

/-- **Laps are moves**; from the second lap on, the last one ended with the signal that is sent
now. -/
theorem closes_of_laps (h : laps patience n last signal stages = (r, rest))
    (hr : r ≠ .unfinished)
    (hstart : ReflTransGen (Moves .feedback patience) start ⟨[], signal, stages⟩)
    (hlast : ∀ value, last = some value → value = signal ∧
      ReflTransGen (Moves .feedback patience) start ⟨stages, signal, []⟩) :
    ∃ moment, ReflTransGen (Moves .feedback patience) start moment ∧
      Closes .feedback patience moment (r, rest) := by
  induction n generalizing last signal stages with
  | zero => exact absurd (congrArg Prod.fst h).symm hr
  | succ n ih =>
    unfold laps at h
    have hstops {passage : Passage} {rest : List (Machine Empty)} {e : Error}
        (hpass : pass patience 0 signal stages = (passage, rest))
        (he : passage.outcome = .failed e) :
        ∃ moment, ReflTransGen (Moves .feedback patience) start moment ∧
          Closes .feedback patience moment (.failed e, rest) := by
      obtain ⟨moment, hmoves, hcloses⟩ := closes_of_pass [] hpass he
      exact ⟨moment, hstart.trans hmoves, hcloses⟩
    rcases hpass : pass patience 0 signal stages with ⟨value | number | e | _, after⟩ <;>
      rw [hpass] at h
    · have hlap := hstart.trans (moves_of_pass [] hpass)
      exact ih h (hlap.tail (.around rfl)) fun _ hvalue => ⟨(Option.some.inj hvalue).symm, hlap⟩
    · obtain _ | number := number
      · obtain _ | value := last
        · obtain ⟨rfl, rfl⟩ := Prod.mk.inj h
          exact hstops hpass rfl
        · -- the signal comes from a whole lap, so it is the result
          obtain ⟨rfl, rfl⟩ := Prod.mk.inj h
          obtain ⟨rfl, hlap⟩ := hlast value rfl
          obtain ⟨first, others, after, rfl, hrun, rfl⟩ := pass_of_halted_zero hpass
          exact ⟨_, hlap, .returns rfl hrun⟩
      · obtain ⟨rfl, rfl⟩ := Prod.mk.inj h
        exact hstops hpass rfl
    · obtain ⟨rfl, rfl⟩ := Prod.mk.inj h
      exact hstops hpass rfl
    · exact absurd (congrArg Prod.fst h).symm hr

/-- **A call that returns is some moves of its signal**, and an end of its way. -/
theorem exists_moment (hne : c.stages ≠ []) (h : c.send wiring patience signal = (r, after))
    (hr : r ≠ .unfinished) :
    ∃ moment, ReflTransGen (Moves wiring patience) ⟨[], signal, c.stages⟩ moment ∧
      Closes wiring patience moment (r, after.stages) := by
  cases wiring with
  | pipeline =>
    have hconvey := (pipeline_eq_iff hne).mp h
    rcases hpass : pass patience 0 signal c.stages with ⟨passage, rest⟩
    rw [convey, hpass] at hconvey
    obtain ⟨rfl, rfl⟩ := Prod.mk.inj hconvey
    cases passage with
    | through value => exact ⟨_, moves_of_pass [] hpass, .arrives rfl⟩
    | halted | failed => exact closes_of_pass [] hpass rfl
    | unfinished => exact absurd rfl hr
  | feedback =>
    refine closes_of_laps ((feedback_eq_iff hne).mp h) hr .refl fun value hvalue => ?_
    cases hvalue

/-! ## What the moves preserve -/

namespace Moment

/-- The stages behind the signal are suspended. -/
def Orderly (moment : Moment) : Prop := ∀ stage ∈ moment.passed, stage.state = .suspended

/-- All stages ahead of the signal, except perhaps the next, may go on. -/
def Free (moment : Moment) : Prop := ∀ stage ∈ moment.ahead.tail, stage.state.Live

/-- Some stage may not go on. -/
def Barred (moment : Moment) : Prop :=
  ∃ stage ∈ moment.passed ++ moment.ahead, ¬stage.state.Live

end Moment

variable {before moment : Moment}

theorem Moves.orderly (h : Moves wiring patience before moment) (hbefore : before.Orderly) :
    moment.Orderly := by
  cases h with
  | through hrun =>
    refine List.forall_mem_append.mpr ⟨hbefore, List.forall_mem_singleton.mpr ?_⟩
    exact state_of_nextOutput hrun
  | around => exact List.forall_mem_nil _

theorem Moves.free (h : Moves wiring patience before moment) (horderly : before.Orderly)
    (hbefore : before.Free) : moment.Free := by
  cases h with
  | through => exact fun stage hstage => hbefore stage (List.mem_of_mem_tail hstage)
  | around =>
    intro stage hstage
    rw [horderly stage (List.mem_of_mem_tail hstage)]
    trivial

/-- A stage that may not go on is never the one that writes. -/
theorem Moves.barred (h : Moves wiring patience before moment) (hbefore : before.Barred) :
    moment.Barred := by
  obtain ⟨stopped, hmem, hstopped⟩ := hbefore
  cases h with
  | @through passed signal stage ahead value after hrun =>
    refine ⟨stopped, ?_, hstopped⟩
    obtain hpassed | rfl | hahead : stopped ∈ passed ∨ stopped = stage ∨ stopped ∈ ahead := by
      simpa using hmem
    · simp [hpassed]
    · exact absurd (live_of_nextOutput hrun) hstopped
    · simp [hahead]
  | around => exact ⟨stopped, by simpa using hmem, hstopped⟩

section Run

variable (h : ReflTransGen (Moves wiring patience) before moment)
include h

theorem orderly_of_moves (hbefore : before.Orderly) : moment.Orderly := by
  induction h with
  | refl => exact hbefore
  | tail _ hmove ih => exact hmove.orderly ih

theorem free_of_moves (horderly : before.Orderly) (hbefore : before.Free) : moment.Free := by
  induction h with
  | refl => exact hbefore
  | tail hmoves hmove ih => exact hmove.free (orderly_of_moves hmoves horderly) ih

theorem barred_of_moves (hbefore : before.Barred) : moment.Barred := by
  induction h with
  | refl => exact hbefore
  | tail _ hmove ih => exact hmove.barred ih

end Run

/-- Where the last stage is passed no stage has stopped. -/
theorem Moment.Orderly.not_barred (h : Moment.Orderly ⟨passed, signal, []⟩) :
    ¬Moment.Barred ⟨passed, signal, []⟩ := by
  rintro ⟨stage, hmem, hstopped⟩
  rw [h stage (by simpa using hmem)] at hstopped
  exact hstopped trivial

/-! ## Calls -/

/-- A circuit whose stages may all go on, except perhaps the first. -/
def Free (c : Circuit) : Prop := ∀ stage ∈ c.stages.tail, stage.state.Live

/-- A circuit without stages, or with one that has stopped. -/
def Closed (c : Circuit) : Prop := c.stages = [] ∨ ∃ stage ∈ c.stages, ¬stage.state.Live

variable {value : Word} {e : Error}

theorem send_of_nil (hnil : c.stages = []) :
    c.send wiring patience signal = (.failed .emptyCircuit, c) := by
  cases wiring with
  | pipeline => exact pipeline_of_nil hnil patience signal
  | feedback => exact feedback_of_nil hnil patience signal

/-- A call succeeds where the last stage is passed, in a feedback with a first stage that halts. -/
theorem Closes.of_done (h : Closes wiring patience moment (.done value, rest)) :
    moment = ⟨moment.passed, value, []⟩ ∧
      (wiring = .pipeline → rest = moment.passed) ∧
      (wiring = .feedback → ∃ first others after, moment.passed = first :: others ∧
        (first.append value).nextOutput patience = (.done none, after) ∧
        rest = after :: others) := by
  cases h with
  | arrives h => exact ⟨rfl, fun _ => rfl, fun h' => nomatch h.symm.trans h'⟩
  | returns h hfirst =>
    exact ⟨rfl, fun h' => (nomatch h.symm.trans h'),
      fun _ => ⟨_, _, _, rfl, hfirst, rfl⟩⟩

/-- A call fails where the next stage does not write. -/
theorem Closes.of_failed (h : Closes wiring patience moment (.failed e, rest)) :
    ∃ stage ahead, moment = ⟨moment.passed, moment.signal, stage :: ahead⟩ ∧
      let after := ((stage.append moment.signal).nextOutput patience).2
      rest = moment.passed ++ after :: ahead ∧
        (after.state = .halted ∧ e = .noSignal moment.passed.length ∨
          after.Stopped (.error e)) := by
  cases h with
  | @halts passed signal stage ahead after h =>
    refine ⟨stage, ahead, rfl, ?_⟩
    rw [h]
    exact ⟨rfl, .inl ⟨state_of_nextOutput h, rfl⟩⟩
  | @fails passed signal stage ahead e after h =>
    refine ⟨stage, ahead, rfl, ?_⟩
    rw [h]
    exact ⟨rfl, .inr (state_of_nextOutput h)⟩

/-- **A call that succeeds passes all stages**, so none has stopped before. -/
theorem not_closed_of_done (h : c.send wiring patience signal = (.done value, after)) :
    ¬c.Closed := by
  rintro (hnil | hstopped)
  · cases congrArg Prod.fst (h.symm.trans (send_of_nil hnil))
  · have hne : c.stages ≠ [] := List.ne_nil_of_mem hstopped.choose_spec.1
    obtain ⟨moment, hmoves, hcloses⟩ := exists_moment hne h nofun
    have horderly := orderly_of_moves hmoves (List.forall_mem_nil _)
    have hbarred := barred_of_moves hmoves hstopped
    rw [hcloses.of_done.1] at horderly hbarred
    exact horderly.not_barred hbarred

/-- A pipeline that succeeds leaves all stages suspended. -/
theorem suspended_of_pipeline (h : c.send .pipeline patience signal = (.done value, after)) :
    ∀ stage ∈ after.stages, stage.state = .suspended := by
  have hne : c.stages ≠ [] := fun hnil => not_closed_of_done h (.inl hnil)
  obtain ⟨moment, hmoves, hcloses⟩ := exists_moment hne h nofun
  rw [hcloses.of_done.2.1 rfl]
  exact orderly_of_moves hmoves (List.forall_mem_nil _)

/-- A feedback that succeeds leaves the first stage halted and the others suspended. -/
theorem halted_of_feedback (h : c.send .feedback patience signal = (.done value, after)) :
    ∃ first others, after.stages = first :: others ∧ first.state = .halted ∧
      ∀ stage ∈ others, stage.state = .suspended := by
  have hne : c.stages ≠ [] := fun hnil => not_closed_of_done h (.inl hnil)
  obtain ⟨moment, hmoves, hcloses⟩ := exists_moment hne h nofun
  have horderly : ∀ stage ∈ moment.passed, stage.state = .suspended :=
    orderly_of_moves hmoves (List.forall_mem_nil _)
  obtain ⟨first, others, last, hpassed, hrun, hafter⟩ := hcloses.of_done.2.2 rfl
  rw [hpassed] at horderly
  exact ⟨last, others, hafter, state_of_nextOutput hrun, (List.forall_mem_cons.mp horderly).2⟩

/-- Whatever succeeds leaves a free circuit. -/
theorem free_of_done (h : c.send wiring patience signal = (.done value, after)) : after.Free := by
  intro stage hstage
  have hsuspended : stage.state = .suspended := by
    cases wiring with
    | pipeline => exact suspended_of_pipeline h stage (List.mem_of_mem_tail hstage)
    | feedback =>
      obtain ⟨first, others, hafter, -, hothers⟩ := halted_of_feedback h
      rw [hafter] at hstage
      exact hothers stage hstage
  rw [hsuspended]
  trivial

/-- **A call that fails stops at one stage**: those before it are suspended, and those behind it are
as they were when it was given its last signal. -/
structure StopsAt (wiring : Wiring) (patience : Nat) (signal : Word) (c : Circuit) (e : Error)
    (after : Circuit) (passed : List (Machine Empty)) (stage : Machine Empty)
    (ahead : List (Machine Empty)) : Prop where
  stages : after.stages = passed ++ stage :: ahead
  given : ∃ before given,
    ReflTransGen (Moves wiring patience) ⟨[], signal, c.stages⟩ ⟨passed, given, before :: ahead⟩ ∧
      stage = ((before.append given).nextOutput patience).2
  state : stage.state = .halted ∧ e = .noSignal passed.length ∨
    stage.state = .faulted ∧ stage.fault = some e
  passed : ∀ stage ∈ passed, stage.state = .suspended

theorem exists_stopsAt (hne : c.stages ≠ []) (hs : Accountable c.stages)
    (h : c.send wiring patience signal = (.failed e, after)) :
    ∃ passed stage ahead, StopsAt wiring patience signal c e after passed stage ahead ∧
      (c.Free → ∀ stage ∈ ahead, stage.state.Live) := by
  obtain ⟨moment, hmoves, hcloses⟩ := exists_moment hne h nofun
  obtain ⟨stage, ahead, hmoment, hafter, hstopped⟩ := hcloses.of_failed
  have horderly := orderly_of_moves hmoves (List.forall_mem_nil _)
  have hstage := accountable_of_send hs h _
    (hafter ▸ List.mem_append_right _ List.mem_cons_self)
  refine ⟨moment.passed, _, ahead, ⟨hafter, ⟨stage, moment.signal, hmoment ▸ hmoves, rfl⟩,
    hstopped.imp_right hstage.fault_eq_some, horderly⟩, fun hfree => ?_⟩
  have hahead := free_of_moves hmoves (List.forall_mem_nil _) hfree
  rw [hmoment] at hahead
  exact hahead

/-- **A call that fails leaves a closed circuit.** -/
theorem closed_of_failed (h : c.send wiring patience signal = (.failed e, after)) :
    after.Closed := by
  by_cases hnil : c.stages = []
  · rw [send_of_nil hnil] at h
    exact .inl ((Prod.mk.inj h).2 ▸ hnil)
  · obtain ⟨moment, -, hcloses⟩ := exists_moment hnil h nofun
    obtain ⟨stage, ahead, -, hafter, hstopped⟩ := hcloses.of_failed
    refine .inr ⟨_, hafter ▸ List.mem_append_right _ List.mem_cons_self, ?_⟩
    obtain ⟨hhalted, -⟩ | hfailed := hstopped
    · exact (Stopped.halted hhalted).not_live
    · exact hfailed.not_live

/-- No call takes all stages away. -/
theorem stages_ne_nil_of_send (hne : c.stages ≠ [])
    (h : c.send wiring patience signal = (r, after)) (hr : r ≠ .unfinished) :
    after.stages ≠ [] := by
  cases r with
  | done value =>
    cases wiring with
    | pipeline => exact stages_ne_nil_of_pipeline hne h
    | feedback =>
      obtain ⟨first, others, hafter, -⟩ := halted_of_feedback h
      rw [hafter]
      exact List.cons_ne_nil _ _
  | failed e =>
    obtain ⟨moment, -, hcloses⟩ := exists_moment hne h nofun
    obtain ⟨stage, ahead, -, hafter, -⟩ := hcloses.of_failed
    rw [hafter]
    exact List.append_ne_nil_of_right_ne_nil _ (List.cons_ne_nil _ _)
  | unfinished => exact absurd rfl hr

/-! ## Call after call -/

/-- The circuits that come of calls on a new one, with the wiring and the result of each call. -/
inductive Called (program : Program) (phases : List Word) :
    List (Wiring × Outcome Word) → Circuit → Prop
  | create : Called program phases [] (create program phases)
  | send {row c wiring patience signal r after} (h : Called program phases row c)
    (hsend : c.send wiring patience signal = (r, after)) (hreturns : r ≠ .unfinished) :
    Called program phases (row ++ [(wiring, r)]) after

namespace Called

variable {program : Program} {phases : List Word} {row : List (Wiring × Outcome Word)}

theorem stages_ne_nil (h : Called program phases row c) (hphases : phases ≠ []) :
    c.stages ≠ [] := by
  induction h with
  | create => exact mt List.map_eq_nil_iff.mp hphases
  | send _ hsend hreturns ih => exact stages_ne_nil_of_send ih hsend hreturns

theorem accountable (h : Called program phases row c) : Accountable c.stages := by
  induction h with
  | create => exact accountable_create program phases
  | send _ hsend _ ih => exact accountable_of_send ih hsend

/-- As long as no call fails, no stage but the first stops. -/
theorem free (h : Called program phases row c)
    (hrow : ∀ call ∈ row, ∃ value, call.2 = .done value) : c.Free := by
  cases h with
  | create =>
    intro stage hstage
    obtain ⟨phase, -, rfl⟩ := List.mem_map.mp (List.mem_of_mem_tail hstage)
    trivial
  | send _ hsend =>
    obtain ⟨value, rfl⟩ := hrow _ List.mem_concat_self
    exact free_of_done hsend

/-- **Once a call has failed, or a feedback succeeded, the circuit is closed** for good. -/
theorem closed (h : Called program phases row c)
    (hrow : ∃ call ∈ row, (∃ e, call.2 = .failed e) ∨ ∃ value, call = (.feedback, .done value)) :
    c.Closed := by
  induction h with
  | create =>
    obtain ⟨call, hmem, -⟩ := hrow
    cases hmem
  | @send row c wiring patience signal r after _ hsend hreturns ih =>
    obtain ⟨call, hmem, hends⟩ := hrow
    obtain hmem | hmem := List.mem_append.mp hmem
    · have hclosed := ih ⟨call, hmem, hends⟩
      cases r with
      | done value => exact absurd hclosed (not_closed_of_done hsend)
      | failed e => exact closed_of_failed hsend
      | unfinished => exact absurd rfl hreturns
    · obtain rfl := List.mem_singleton.mp hmem
      obtain ⟨e, rfl⟩ | ⟨value, hcall⟩ := hends
      · exact closed_of_failed hsend
      · obtain ⟨rfl, rfl⟩ := Prod.mk.inj hcall
        obtain ⟨first, others, hafter, hfirst, -⟩ := halted_of_feedback hsend
        exact .inr ⟨first, hafter ▸ List.mem_cons_self, hfirst ▸ id⟩

end Called

/-- **A circuit that has ended stays ended**, whatever calls are made of it.  As long as all of them
are pipelines that succeed, they leave every stage suspended; a feedback that succeeds leaves the
first one halted and the others suspended.  The first call that fails stops at one stage, with the
error of that stage or because it has halted: those before it are suspended, and those behind it are
as they were when it was given its last signal, none of them stopped.  After a call that fails, or a
feedback that succeeds, no call succeeds any more. -/
theorem ended_stays_ended {program : Program} {phases : List Word}
    {row : List (Wiring × Outcome Word)} (h : Called program phases row c) :
    (row ≠ [] → (∀ call ∈ row, ∃ value, call = (.pipeline, .done value)) →
        ∀ stage ∈ c.stages, stage.state = .suspended) ∧
      (∀ patience signal value after, c.send .feedback patience signal = (.done value, after) →
        ∃ first others, after.stages = first :: others ∧ first.state = .halted ∧
          ∀ stage ∈ others, stage.state = .suspended) ∧
      (phases ≠ [] → (∀ call ∈ row, ∃ value, call.2 = .done value) →
        ∀ wiring patience signal e after, c.send wiring patience signal = (.failed e, after) →
          ∃ passed stage ahead, StopsAt wiring patience signal c e after passed stage ahead ∧
            ∀ stage ∈ ahead, stage.state.Live) ∧
      ((∃ call ∈ row, (∃ e, call.2 = .failed e) ∨ ∃ value, call = (.feedback, .done value)) →
        ∀ wiring patience signal value, (c.send wiring patience signal).1 ≠ .done value) := by
  refine ⟨fun hne hrow => ?_, fun patience signal value after => halted_of_feedback,
    fun hphases hrow wiring patience signal e after hsend => ?_,
    fun hrow wiring patience signal value hdone => ?_⟩
  · cases h with
    | create => exact absurd rfl hne
    | send _ hsend =>
      obtain ⟨value, hcall⟩ := hrow _ List.mem_concat_self
      obtain ⟨rfl, rfl⟩ := Prod.mk.inj hcall
      exact suspended_of_pipeline hsend
  · obtain ⟨passed, stage, ahead, hstops, hlive⟩ :=
      exists_stopsAt (h.stages_ne_nil hphases) h.accountable hsend
    exact ⟨passed, stage, ahead, hstops, hlive (h.free hrow)⟩
  · exact not_closed_of_done (eq_pair_of_fst hdone) (h.closed hrow)

/-- Two stages that read a phase and a signal, write the signal and halt.  After a pipeline both are
suspended behind their outputs; a feedback then stops at the first one, and the circuit has ended.
On a new circuit the feedback succeeds. -/
theorem ended_stays_ended_once :
    let program : Program := ⟨([3, 7, 3, 8, 4, 8, 99].map Word.wrap).toArray⟩
    let c := create program [0, 1]
    (∃ mid last, c.send .pipeline 1 (.wrap 5) = (.done (.wrap 5), mid) ∧
        (∀ stage ∈ mid.stages, stage.state = .suspended) ∧
        mid.send .feedback 1 (.wrap 5) = (.failed (.noSignal 0), last) ∧
        (∃ passed stage ahead,
          StopsAt .feedback 1 (.wrap 5) mid (.noSignal 0) last passed stage ahead) ∧
        ∀ wiring patience signal value, (last.send wiring patience signal).1 ≠ .done value) ∧
      ∃ last first others, c.send .feedback 2 (.wrap 5) = (.done (.wrap 5), last) ∧
        last.stages = first :: others ∧ first.state = .halted ∧
        ∀ stage ∈ others, stage.state = .suspended := by
  intro program c
  have hnew : Called program [0, 1] [] c := .create
  have hpipe : (c.send .pipeline 1 (.wrap 5)).1 = .done (.wrap 5) := by decide +kernel
  have hfails : ((c.send .pipeline 1 (.wrap 5)).2.send .feedback 1 (.wrap 5)).1 =
      .failed (.noSignal 0) := by decide +kernel
  have hring : (c.send .feedback 2 (.wrap 5)).1 = .done (.wrap 5) := by decide +kernel
  have hpipe := eq_pair_of_fst hpipe
  have hfails := eq_pair_of_fst hfails
  have hring := eq_pair_of_fst hring
  have hcalled := hnew.send hpipe nofun
  refine ⟨⟨_, _, hpipe, ?_, hfails, ?_, ?_⟩, ?_⟩
  · exact (ended_stays_ended hcalled).1 (List.cons_ne_nil _ _) (by simp)
  · obtain ⟨passed, stage, ahead, hstops, -⟩ :=
      (ended_stays_ended hcalled).2.2.1 (List.cons_ne_nil _ _) (by simp) _ _ _ _ _ hfails
    exact ⟨passed, stage, ahead, hstops⟩
  · have hclosed := (ended_stays_ended (hcalled.send hfails nofun)).2.2.2
    exact hclosed ⟨_, List.mem_concat_self, .inl ⟨_, rfl⟩⟩
  · obtain ⟨first, others, hstages⟩ := (ended_stays_ended hnew).2.1 _ _ _ _ hring
    exact ⟨_, first, others, hring, hstages⟩

end Circuit

end Intcode
