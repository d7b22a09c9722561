import Intcode.Proofs.Answers
import Intcode.Proofs.Circuit.Passage

/-!
# Proofs/Circuit/Composition — a pipeline composes what its stages compute

A machine turns the values that it reads into the values that it writes.  Signals that are sent
through a pipeline one by one come out as if every stage had worked alone, one after the other, each
on all that the one before had written (`Circuit.Composed`).

* `Circuit.inTurn_convey_cons` — the first stage exchanges all signals for values, and the others
  convey the values;
* `Circuit.first_signal` — the first signal also gets lost as it would from stage to stage;
* `Circuit.pipeline_composes` — both, for a pipeline that is new.
-/

namespace Intcode.Circuit

/-- A new machine that has been started over with these values to read. -/
def fresh (program : Program) (values : List Word) : Machine Empty :=
  (Machine.create program).reset values

/-- **Stages that work alone, one after the other:** for each phase, a new machine that has it and
then all the signals to read writes so many values when it is run from output to output, and these
values are the signals for the next.  What comes out at the end is the last list. -/
inductive Composed (program : Program) (patience count : Nat) :
    List Word → List Word → List Word → Prop
  | nil (signals : List Word) : Composed program patience count [] signals signals
  | cons {phase : Word} {phases signals values results : List Word}
    (alone : ((fresh program (phase :: signals)).nextOutputs patience count).1 =
      .done (values.map some))
    (rest : Composed program patience count phases values results) :
    Composed program patience count (phase :: phases) signals results

/-- What a stage passes on if it is a new machine with its phase and the signal to read. -/
def passedAlone (program : Program) (patience : Nat) (signal : Word) : Word × Nat → Outcome Word
  | (phase, stage) => passedOn stage ((fresh program [phase, signal]).nextOutput patience).1

variable {program : Program} {patience number : Nat} {signals results : List Word}
  {stage : Machine Empty} {stages after : List (Machine Empty)}

/-! ## Stages -/

theorem fresh_feed (program : Program) (values more : List Word) :
    (fresh program values).feed more = fresh program (values ++ more) :=
  Machine.feed_reset (Machine.create program) values more

theorem fresh_append (program : Program) (phase signal : Word) :
    (fresh program [phase]).append signal = fresh program [phase, signal] := by
  rw [Machine.append_eq_feed, fresh_feed, List.singleton_append]

/-- A new stage is a machine that has been started over with its phase to read. -/
theorem stages_create_cons (program : Program) (phase : Word) (phases : List Word) :
    (create program (phase :: phases)).stages =
      fresh program [phase] :: (create program phases).stages := by
  have hphase : (Machine.create program).append phase = fresh program [phase] :=
    (Machine.append_eq_feed (Machine.create program) phase).trans (fresh_feed program [] [phase])
  exact congrArg (· :: _) hphase

theorem inTurn_convey_nil
    (h : inTurn (convey patience number) signals [] = (.done results, after)) :
    results = signals := by
  induction signals generalizing results with
  | nil => exact (inTurn_nil_eq_done.mp h).1
  | cons signal signals ih =>
    obtain ⟨value, mid, more, hconvey, hrest, rfl⟩ := inTurn_cons_eq_done.mp h
    cases hconvey
    rw [ih hrest]

/-- **The first stage exchanges all the signals for values, and the others convey the values.** -/
theorem inTurn_convey_cons
    (h : inTurn (convey patience number) signals (stage :: stages) = (.done results, after)) :
    ∃ values stage' stages', stage.exchange patience signals = (.done (values.map some), stage') ∧
      inTurn (convey patience (number + 1)) values stages = (.done results, stages') := by
  induction signals generalizing stage stages results with
  | nil =>
    obtain ⟨rfl, -⟩ := inTurn_nil_eq_done.mp h
    exact ⟨[], stage, stages, rfl, rfl⟩
  | cons signal signals ih =>
    obtain ⟨result, mid, more, hconvey, hrest, rfl⟩ := inTurn_cons_eq_done.mp h
    obtain ⟨value, stage', stages', hstage, hothers, rfl⟩ := convey_cons_eq_done.mp hconvey
    obtain ⟨values, last, lasts, hexchange, hvalues⟩ := ih hrest
    exact ⟨value :: values, last, lasts,
      inTurn_cons_eq_done.mpr ⟨some value, stage', values.map some, hstage, hexchange, rfl⟩,
      inTurn_cons_eq_done.mpr ⟨result, stages', more, hothers, hvalues, rfl⟩⟩

/-! ## New stages -/

/-- What new stages convey is what they compute alone, one after the other. -/
theorem composed_of_inTurn {phases : List Word} {count : Nat} (hcount : signals.length = count)
    (h : inTurn (convey patience number) signals (create program phases).stages =
      (.done results, after)) :
    Composed program patience count phases signals results := by
  induction phases generalizing number signals after with
  | nil =>
    rw [inTurn_convey_nil h]
    exact .nil signals
  | cons phase phases ih =>
    rw [stages_create_cons] at h
    obtain ⟨values, stage, stages, hexchange, hrest⟩ := inTurn_convey_cons h
    -- alone, the stage gets at once what it gets signal by signal in the pipeline
    have halone := Machine.nextOutputs_of_exchange rfl hexchange
    have hlength : values.length = count := by
      rw [← List.length_map some, Machine.length_of_nextOutputs halone, hcount]
    rw [fresh_feed, List.singleton_append, hcount] at halone
    exact .cons (congrArg Prod.fst halone) (ih hlength hrest)

/-- **The first signal comes through new stages, or is lost, as it does from stage to stage** when
each is a new machine with its phase and the signal to read. -/
theorem first_signal (program : Program) (phases : List Word) (patience number : Nat)
    (signal : Word) :
    (convey patience number signal (create program phases).stages).1 =
      (phases.zipIdx number).foldlM (passedAlone program patience) signal := by
  induction phases generalizing number signal with
  | nil => rfl
  | cons phase phases ih =>
    rw [stages_create_cons, convey_cons_fst, fresh_append, List.zipIdx_cons, List.foldlM_cons]
    exact congrArg (Outcome.bind _) (funext fun value => ih (number + 1) value)

/-! ## A new pipeline -/

theorem inTurn_convey_of_pipeline {c last : Circuit} (hne : c.stages ≠ [])
    (h : inTurn (pipeline patience) signals c = (.done results, last)) :
    inTurn (convey patience 0) signals c.stages = (.done results, last.stages) := by
  induction signals generalizing c results with
  | nil =>
    obtain ⟨rfl, rfl⟩ := inTurn_nil_eq_done.mp h
    rfl
  | cons signal signals ih =>
    obtain ⟨result, mid, more, hpipe, hrest, rfl⟩ := inTurn_cons_eq_done.mp h
    have hmore := ih (stages_ne_nil_of_pipeline hne hpipe) hrest
    exact inTurn_cons_eq_done.mpr
      ⟨result, mid.stages, more, (pipeline_eq_iff hne).mp hpipe, hmore, rfl⟩

/-- **A pipeline composes what its stages compute.**  If signals come through a new pipeline, call
after call, the results are what its stages make of all the signals when they work alone, one after
the other; that all calls have the same patience is no loss (`pipeline_patient`).  The first signal
comes through or is lost as it is passed on from one new machine to the next, up to the first that
fails or halts. -/
theorem pipeline_composes (program : Program) (phases : List Word) (hne : phases ≠ [])
    (patience : Nat) :
    (∀ signals results last,
      inTurn (pipeline patience) signals (create program phases) = (.done results, last) →
        Composed program patience signals.length phases signals results) ∧
    ∀ signal, ((create program phases).pipeline patience signal).1 =
      phases.zipIdx.foldlM (passedAlone program patience) signal := by
  have hstages : (create program phases).stages ≠ [] := fun h => hne (List.map_eq_nil_iff.mp h)
  constructor
  · intro signals results last h
    exact composed_of_inTurn rfl (inTurn_convey_of_pipeline hstages h)
  · intro signal
    rw [pipeline_eq_convey hstages]
    exact first_signal program phases patience 0 signal

/-- Two stages that add their phases, `1` and `2`, to whatever they read. -/
theorem pipeline_composes_adding :
    let program : Program := ⟨([3, 13, 3, 14, 1, 13, 14, 14, 4, 14, 1105, 1, 2, 0, 0].map
      Word.wrap).toArray⟩
    let phases : List Word := [1, .wrap 2]
    let signals : List Word := [.wrap 5, .wrap 6]
    let results : List Word := [.wrap 8, .wrap 9]
    (inTurn (pipeline 1) signals (create program phases)).1 = .done results ∧
      Composed program 1 2 phases signals results ∧
        phases.zipIdx.foldlM (passedAlone program 1) (.wrap 5) = .done (.wrap 8) := by
  intro program phases signals results
  have hcalls : (inTurn (pipeline 1) signals (create program phases)).1 = .done results := by
    decide +kernel
  have hfirst : ((create program phases).pipeline 1 (.wrap 5)).1 = .done (.wrap 8) := by
    decide +kernel
  obtain ⟨hcomposed, hfold⟩ := pipeline_composes program phases (List.cons_ne_nil _ _) 1
  exact ⟨hcalls, hcomposed signals results _ (eq_pair_of_fst hcalls),
    (hfold (.wrap 5)).symm.trans hfirst⟩

end Intcode.Circuit
