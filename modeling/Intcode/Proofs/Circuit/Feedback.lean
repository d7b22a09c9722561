import Intcode.Proofs.Circuit.Reachable

/-!
# Proofs/Circuit/Feedback — a feedback is a pipeline, over and over

Send a signal through a pipeline, then send what came out, and so on until that fails
(`Circuit.Relay`).  A feedback does just this: it ends if and only if the relay does, and leaves the
same stages.  It takes the last value of the relay for its result if the relay ended because the
first stage had halted, and the relay's error otherwise (`Circuit.verdict`).

* `Circuit.laps_succ` — one lap is one pipeline;
* `Circuit.relay_of_laps`, `Circuit.laps_of_relay` — the laps are a relay, and a relay is the laps;
* `Circuit.feedback_iff_relay` — so is a feedback, on every circuit that comes of calls.
-/

namespace Intcode.Circuit

/-- **Pipeline after pipeline**, each sending what came out of the one before, until one fails: the
values that came out, the error, and the circuit at the end. -/
inductive Relay : Word → Circuit → List Word → Error → Circuit → Prop
  | fails {signal : Word} {c last : Circuit} {e : Error}
    (h : ComesTo (c.pipeline · signal) (.failed e, last)) : Relay signal c [] e last
  | passes {signal value : Word} {c mid last : Circuit} {values : List Word} {e : Error}
    (h : ComesTo (c.pipeline · signal) (.done value, mid)) (rest : Relay value mid values e last) :
    Relay signal c (value :: values) e last

/-- What becomes of a feedback after a last value, if there was one, when the next lap fails. -/
def verdict (last : Option Word) (e : Error) : Outcome Word :=
  match last with
  | some value => if e = .noSignal 0 then .done value else .failed e
  | none => .failed e

theorem verdict_of_ne {e : Error} (h : e ≠ .noSignal 0) (last : Option Word) :
    verdict last e = .failed e := by
  cases last with
  | none => rfl
  | some value => exact if_neg h

theorem verdict_ne_unfinished (last : Option Word) (e : Error) :
    verdict last e ≠ .unfinished := by
  unfold verdict
  split
  · split <;> nofun
  · nofun

variable {patience n : Nat} {signal : Word} {last : Option Word} {c after : Circuit}
  {values : List Word} {e : Error}

/-- A value that others follow is never the last one; one that none follows takes the place of the
last one before it. -/
theorem getLast?_cons_or (value : Word) (values : List Word) (last : Option Word) :
    (value :: values).getLast?.or last = values.getLast?.or (some value) := by
  rw [List.getLast?_cons]
  cases values.getLast? <;> rfl

theorem comesTo_pipeline {r : Outcome Word} (h : c.pipeline patience signal = (r, after))
    (hend : r ≠ .unfinished) : ComesTo (c.pipeline · signal) (r, after) :=
  (pipeline_patient c signal).comesTo_iff.mpr ⟨hend, patience, h⟩

/-! ## Lap after lap -/

/-- **A lap is a pipeline, and goes on with its value.**  That the stages are accountable is what
tells a first stage that has halted from one that stops with an error. -/
theorem laps_succ {stages : List (Machine Empty)} (hs : Accountable stages) :
    laps patience (n + 1) last signal stages =
      match convey patience 0 signal stages with
      | (.done value, rest) => laps patience n (some value) value rest
      | (.failed e, rest) => (verdict last e, rest)
      | (.unfinished, rest) => (.unfinished, rest) := by
  rw [convey]
  conv => lhs; unfold laps
  rcases hpass : pass patience 0 signal stages with ⟨value | number | e | _, rest⟩
  · cases last <;> rfl
  · obtain _ | number := number
    · cases last <;> rfl
    · have hne : Error.noSignal (number + 1) ≠ .noSignal 0 := fun h =>
        Nat.succ_ne_zero number (Error.noSignal_inj h)
      exact Prod.ext (verdict_of_ne hne last).symm rfl
  · exact Prod.ext (verdict_of_ne (ne_noSignal_of_pass hs hpass 0) last).symm rfl
  · rfl

/-- Laps that end are a relay. -/
theorem relay_of_laps (hne : c.stages ≠ []) (hs : Accountable c.stages) {r : Outcome Word}
    (h : laps patience n last signal c.stages = (r, after.stages)) (hend : r ≠ .unfinished) :
    ∃ values e, Relay signal c values e after ∧ r = verdict (values.getLast?.or last) e := by
  -- a lap leaves another circuit, with the lap's value for its signal and for the last value
  induction n generalizing c signal last with
  | zero => exact absurd (congrArg Prod.fst h).symm hend
  | succ n ih =>
    rw [laps_succ hs] at h
    rcases hlap : convey patience 0 signal c.stages with ⟨value | e | _, rest⟩ <;> rw [hlap] at h
    · have hpipe : c.pipeline patience signal = (.done value, ⟨rest⟩) :=
        (pipeline_eq_iff hne).mpr hlap
      obtain ⟨values, e, hrelay, rfl⟩ :=
        ih (stages_ne_nil_of_pipeline hne hpipe) (accountable_of_pipeline hs hpipe) h
      refine ⟨value :: values, e, .passes (comesTo_pipeline hpipe nofun) hrelay, ?_⟩
      rw [getLast?_cons_or]
    · obtain ⟨rfl, hrest⟩ := Prod.mk.inj h
      have hpipe := (pipeline_eq_iff hne).mpr (hrest ▸ hlap)
      exact ⟨[], e, .fails (comesTo_pipeline hpipe nofun), rfl⟩
    · exact absurd (congrArg Prod.fst h).symm hend

/-- A relay is the laps, with patience enough and laps enough. -/
theorem laps_of_relay (h : Relay signal c values e after) (hne : c.stages ≠ [])
    (hs : Accountable c.stages) (last : Option Word) :
    ∃ enough, ∀ patience n, enough ≤ patience → enough ≤ n →
      laps patience n last signal c.stages =
        (verdict (values.getLast?.or last) e, after.stages) := by
  induction h generalizing last with
  | fails h =>
    obtain ⟨-, enough, heq⟩ := h
    refine ⟨enough + 1, fun patience n hp hn => ?_⟩
    obtain ⟨n, rfl⟩ := Nat.exists_eq_succ_of_ne_zero (Nat.ne_zero_of_lt hn)
    rw [laps_succ hs, (pipeline_eq_iff hne).mp (heq patience (Nat.le_of_succ_le hp))]
    rfl
  | @passes signal value c mid after values e h rest ih =>
    obtain ⟨-, enough, heq⟩ := h
    have hmid := heq enough (Nat.le_refl enough)
    obtain ⟨enough', heq'⟩ := ih (stages_ne_nil_of_pipeline hne hmid)
      (accountable_of_pipeline hs hmid) (some value)
    -- one lap more than the rest of the relay takes
    refine ⟨max enough enough' + 1, fun patience n hp hn => ?_⟩
    obtain ⟨n, rfl⟩ := Nat.exists_eq_succ_of_ne_zero (Nat.ne_zero_of_lt hn)
    rw [laps_succ hs, (pipeline_eq_iff hne).mp (heq patience (by omega)), getLast?_cons_or]
    exact heq' patience n (by omega) (by omega)

/-! ## A feedback -/

/-- **A feedback is pipeline after pipeline.**  It comes to a result if and only if the pipelines
do, on the same circuit and from the same signal, each sending what came out of the one before: it
leaves the stages as they do, and its result is their last value if there is one and they ended
because the first stage had halted, their error otherwise. -/
theorem feedback_iff_relay (hc : c.Reachable) (hne : c.stages ≠ []) (signal : Word)
    (result : Outcome Word × Circuit) :
    ComesTo (c.feedback · signal) result ↔
      ∃ values e, Relay signal c values e result.2 ∧ result.1 = verdict values.getLast? e := by
  constructor
  · rintro ⟨hend, enough, heq⟩
    have hlaps := (feedback_eq_iff hne).mp (heq enough (Nat.le_refl enough))
    obtain ⟨values, e, hrelay, hr⟩ := relay_of_laps hne hc.accountable hlaps hend
    exact ⟨values, e, hrelay, by rw [hr, Option.or_none]⟩
  · rintro ⟨values, e, hrelay, hr⟩
    obtain ⟨enough, heq⟩ := laps_of_relay hrelay hne hc.accountable none
    refine ⟨hr ▸ verdict_ne_unfinished _ e, enough, fun patience hp => ?_⟩
    have hlaps := heq patience patience hp hp
    rw [Option.or_none, ← hr] at hlaps
    exact (feedback_eq_iff hne).mpr hlaps

/-- Two stages that read a phase and a signal, write the signal and halt: the second lap ends at the
first stage, and the signal of the first lap is the result. -/
theorem feedback_iff_relay_once :
    let program : Program := ⟨([3, 7, 3, 8, 4, 8, 99].map Word.wrap).toArray⟩
    let c := create program [0, 1]
    ∃ last, ComesTo (c.feedback · (.wrap 5)) (.done (.wrap 5), last) := by
  intro program c
  have hfirst : (c.pipeline 1 (.wrap 5)).1 = .done (.wrap 5) := by decide +kernel
  have hsecond : ((c.pipeline 1 (.wrap 5)).2.pipeline 1 (.wrap 5)).1 = .failed (.noSignal 0) := by
    decide +kernel
  have hpasses := comesTo_pipeline (eq_pair_of_fst hfirst) nofun
  have hfails := comesTo_pipeline (eq_pair_of_fst hsecond) nofun
  generalize (c.pipeline 1 (.wrap 5)).2 = mid at hpasses hfails
  generalize (mid.pipeline 1 (.wrap 5)).2 = last at hfails
  exact ⟨last, (feedback_iff_relay (.create program [0, 1]) (List.cons_ne_nil _ _) (.wrap 5)
    (.done (.wrap 5), last)).mpr ⟨[.wrap 5], .noSignal 0, .passes hpasses (.fails hfails), rfl⟩⟩

end Intcode.Circuit
