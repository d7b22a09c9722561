import Intcode.Circuit
import Intcode.Proofs.Patience

/-!
# Proofs/Circuit/Passage — a signal on its way through the stages

A passage is what becomes of a signal between the first stage and the last.  For whoever sent it,
it comes to a value or to an error (`Circuit.convey`), and a pipeline is just that
(`Circuit.pipeline_eq_convey`).

* `Circuit.convey_cons_eq_done` — one stage after the other;
* `Circuit.pipeline_eq_iff`, `Circuit.feedback_eq_iff` — what calls are, said of the stages;
* `Circuit.pipeline_patient` — once a signal has arrived or is lost, more patience changes nothing.
-/

namespace Intcode.Circuit

/-- What a passage comes to for whoever sent the signal. -/
def Passage.outcome : Passage → Outcome Word
  | .through signal => .done signal
  | .halted stage => .failed (.noSignal stage)
  | .failed e => .failed e
  | .unfinished => .unfinished

/-- A passage through the stages of which the first has the given number, as its sender sees it. -/
def convey (patience number : Nat) (signal : Word) (stages : List (Machine Empty)) :
    Outcome Word × List (Machine Empty) :=
  ((pass patience number signal stages).1.outcome, (pass patience number signal stages).2)

/-- What a stage with a number passes on, after a run to its next output that came out so. -/
def passedOn (number : Nat) : Outcome (Option Word) → Outcome Word
  | .done (some value) => .done value
  | .done none => .failed (.noSignal number)
  | .failed e => .failed e
  | .unfinished => .unfinished

variable {patience number : Nat} {signal result : Word} {stage : Machine Empty}
  {stages rest : List (Machine Empty)} {c after : Circuit} {r : Outcome Word}

/-! ## Stage after stage -/

/-- A passage comes to what its first stage passes on, conveyed by the others. -/
theorem convey_cons_fst :
    (convey patience number signal (stage :: stages)).1 =
      (passedOn number ((stage.append signal).nextOutput patience).1).bind fun value =>
        (convey patience (number + 1) value stages).1 := by
  rw [convey, pass]
  rcases (stage.append signal).nextOutput patience with ⟨(_ | value) | e | _, after⟩ <;> rfl

/-- **A signal goes through if the first stage writes** and the others let its value through. -/
theorem convey_cons_eq_done :
    convey patience number signal (stage :: stages) = (.done result, rest) ↔
      ∃ value after others,
        (stage.append signal).nextOutput patience = (.done (some value), after) ∧
          convey patience (number + 1) value stages = (.done result, others) ∧
            rest = after :: others := by
  rw [convey, pass]
  constructor
  · intro h
    rcases hstage : (stage.append signal).nextOutput patience with ⟨(_ | value) | e | _, after⟩ <;>
      rw [hstage] at h
    · cases h
    · obtain ⟨hresult, rfl⟩ := Prod.mk.inj h
      exact ⟨value, after, _, rfl, Prod.ext hresult rfl, rfl⟩
    · cases h
    · cases h
  · rintro ⟨value, after, others, hstage, hothers, rfl⟩
    rw [hstage]
    obtain ⟨hresult, rfl⟩ := Prod.mk.inj hothers
    exact Prod.ext hresult rfl

theorem length_pass (patience number : Nat) (signal : Word) (stages : List (Machine Empty)) :
    (pass patience number signal stages).2.length = stages.length := by
  induction stages generalizing number signal with
  | nil => rfl
  | cons stage stages ih =>
    rw [pass]
    rcases (stage.append signal).nextOutput patience with ⟨(_ | value) | e | _, after⟩
    · rfl
    · exact congrArg (· + 1) (ih (number + 1) value)
    · rfl
    · rfl

/-! ## The whole way -/

theorem pipeline_of_nil (h : c.stages = []) (patience : Nat) (signal : Word) :
    c.pipeline patience signal = (.failed .emptyCircuit, c) := by
  rw [pipeline, h]

/-- A pipeline sends its signal through all stages, counted from zero. -/
theorem pipeline_eq_convey (h : c.stages ≠ []) (patience : Nat) (signal : Word) :
    c.pipeline patience signal =
      ((convey patience 0 signal c.stages).1, ⟨(convey patience 0 signal c.stages).2⟩) := by
  rw [pipeline, convey]
  split
  next hnil => exact absurd hnil h
  next =>
    rcases pass patience 0 signal c.stages with ⟨_ | _ | _ | _, stages⟩ <;> rfl

theorem feedback_of_nil (h : c.stages = []) (patience : Nat) (signal : Word) :
    c.feedback patience signal = (.failed .emptyCircuit, c) := by
  rw [feedback, h]

theorem feedback_eq_laps (h : c.stages ≠ []) (patience : Nat) (signal : Word) :
    c.feedback patience signal =
      ((laps patience patience none signal c.stages).1,
        ⟨(laps patience patience none signal c.stages).2⟩) := by
  rw [feedback]
  split
  next hnil => exact absurd hnil h
  next => rfl

theorem pair_eq_iff {x : Outcome Word × List (Machine Empty)} :
    (x.1, Circuit.mk x.2) = (r, after) ↔ x = (r, after.stages) := by
  rw [Prod.ext_iff, Prod.ext_iff]
  exact and_congr_right fun _ => ⟨congrArg stages, congrArg mk⟩

theorem pipeline_eq_iff (hne : c.stages ≠ []) :
    c.pipeline patience signal = (r, after) ↔
      convey patience 0 signal c.stages = (r, after.stages) := by
  rw [pipeline_eq_convey hne, pair_eq_iff]

theorem feedback_eq_iff (hne : c.stages ≠ []) :
    c.feedback patience signal = (r, after) ↔
      laps patience patience none signal c.stages = (r, after.stages) := by
  rw [feedback_eq_laps hne, pair_eq_iff]

/-- No circuit loses its stages. -/
theorem stages_ne_nil_of_pipeline (hne : c.stages ≠ [])
    (h : c.pipeline patience signal = (r, after)) : after.stages ≠ [] := by
  have hlength : (convey patience 0 signal c.stages).2.length = c.stages.length :=
    length_pass patience 0 signal c.stages
  rw [congrArg Prod.snd ((pipeline_eq_iff hne).mp h)] at hlength
  exact fun hnil => hne (List.length_eq_zero_iff.mp (by rw [← hlength, hnil, List.length_nil]))

theorem pass_of_patience_le {p q : Nat} (hpq : p ≤ q)
    (hend : (pass p number signal stages).1 ≠ .unfinished) :
    pass q number signal stages = pass p number signal stages := by
  induction stages generalizing number signal with
  | nil => rfl
  | cons stage stages ih =>
    have hnext := (stage.append signal).nextOutput_patient p q hpq
    dsimp only at hnext
    rw [pass] at hend
    rw [pass, pass]
    rcases hp : (stage.append signal).nextOutput p with ⟨(_ | value) | e | _, after⟩ <;>
      rw [hp] at hend hnext
    · rw [hnext nofun]
    · rw [hnext nofun]
      dsimp only at hend ⊢
      rw [ih hend]
    · rw [hnext nofun]
    · exact absurd rfl hend

/-- **Once a signal has arrived or is lost, more patience changes nothing.** -/
theorem pipeline_patient (c : Circuit) (signal : Word) : Patient (c.pipeline · signal) := by
  intro p q hpq hend
  by_cases hnil : c.stages = []
  · exact (pipeline_of_nil hnil q signal).trans (pipeline_of_nil hnil p signal).symm
  · dsimp only at hend ⊢
    rw [pipeline_eq_convey hnil] at hend
    rw [pipeline_eq_convey hnil, pipeline_eq_convey hnil, convey, convey,
      pass_of_patience_le hpq fun hr => hend (by rw [convey, hr]; rfl)]

end Intcode.Circuit
