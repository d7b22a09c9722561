import Intcode.PhaseSearch
import Intcode.Proofs.Likeness
import Mathlib.Data.List.Forall2

/-!
# Proofs/Circuit/Likeness — programs that are alike, alone and in circuits

Circuits are alike if their stages are, and then a signal that is sent through them comes to the
same (`Circuit.Alike.send`).  So zeros behind a program make no difference to anything that is done
with it:

* `Program.alike_pad` — the program fills memory alike with and without them;
* `memory_length_unobservable` — the same of machines, circuits and phase searches.
-/

namespace Intcode

namespace Circuit

/-- Stages are alike, one by one. -/
abbrev StagesAlike : List (Machine Empty) → List (Machine Empty) → Prop :=
  List.Forall₂ Machine.Alike

/-- Circuits are alike if their stages are. -/
def Alike (c other : Circuit) : Prop := StagesAlike c.stages other.stages

/-- A signal passes likewise through stages that are alike. -/
theorem pass_alike (patience number : Nat) (signal : Word) {stages others : List (Machine Empty)}
    (h : StagesAlike stages others) :
    Likewise StagesAlike (pass patience number signal stages)
      (pass patience number signal others) := by
  induction h generalizing number signal with
  | nil => exact ⟨rfl, .nil⟩
  | @cons stage other stages others hstage hothers ih =>
    obtain ⟨r, after, after', hrun, hrun', hafter⟩ :=
      ((hstage.append signal).nextOutput patience).exists_eq
    rw [pass, pass, hrun, hrun']
    match r with
    | .done (some value) =>
      have hrest := ih (number + 1) value
      exact ⟨hrest.fst, .cons hafter hrest.snd⟩
    | .done none | .failed _ | .unfinished => exact ⟨rfl, .cons hafter hothers⟩

theorem laps_alike (patience n : Nat) (last : Option Word) (signal : Word)
    {stages others : List (Machine Empty)} (h : StagesAlike stages others) :
    Likewise StagesAlike (laps patience n last signal stages)
      (laps patience n last signal others) := by
  induction n generalizing last signal stages others with
  | zero => exact ⟨rfl, h⟩
  | succ n ih =>
    obtain ⟨r, rest, rest', hpass, hpass', hrest⟩ := (pass_alike patience 0 signal h).exists_eq
    unfold laps
    rw [hpass, hpass']
    match r, last with
    | .through value, _ => exact ih (some value) value hrest
    | .halted 0, some _ | .halted 0, none | .halted (_ + 1), _ | .failed _, _ | .unfinished, _ =>
      exact ⟨rfl, hrest⟩

namespace Alike

variable {c other : Circuit} (h : c.Alike other)
include h

theorem pipeline (patience : Nat) (signal : Word) :
    Likewise Alike (c.pipeline patience signal) (other.pipeline patience signal) := by
  obtain ⟨stages⟩ := c
  obtain ⟨others⟩ := other
  have hpass := pass_alike patience 0 signal h
  cases h with
  | nil => exact ⟨rfl, .nil⟩
  | cons hstage hothers =>
    obtain ⟨r, rest, rest', hrun, hrun', hrest⟩ := hpass.exists_eq
    rw [Circuit.pipeline, Circuit.pipeline]
    simp only [hrun, hrun']
    cases r <;> exact ⟨rfl, hrest⟩

theorem feedback (patience : Nat) (signal : Word) :
    Likewise Alike (c.feedback patience signal) (other.feedback patience signal) := by
  obtain ⟨stages⟩ := c
  obtain ⟨others⟩ := other
  have hlaps := laps_alike patience patience none signal h
  cases h with
  | nil => exact ⟨rfl, .nil⟩
  | cons hstage hothers => exact ⟨hlaps.fst, hlaps.snd⟩

/-- **A signal comes to the same in circuits that are alike**, however they are wired, and leaves
them alike. -/
theorem send (wiring : Wiring) (patience : Nat) (signal : Word) :
    Likewise Alike (c.send wiring patience signal) (other.send wiring patience signal) := by
  cases wiring with
  | pipeline => exact h.pipeline patience signal
  | feedback => exact h.feedback patience signal

end Alike

end Circuit

/-! ## Programs -/

namespace Program

variable {program other : Program}

theorem Alike.create {σ : Type} (h : program.Alike other) :
    (Machine.create program : Machine σ).Alike (.create other) :=
  ⟨h, rfl, rfl, rfl, rfl, rfl⟩

theorem Alike.circuit (h : program.Alike other) (phases : List Word) :
    (Circuit.create program phases).Alike (.create other phases) :=
  List.forall₂_map_left_iff.mpr <| List.forall₂_map_right_iff.mpr <|
    List.forall₂_same.mpr fun phase _ => h.create.append phase

/-- **Programs that are alike give the same best signal**, for the same order. -/
theorem Alike.maxSignal_eq (h : program.Alike other) (patience : Nat) (start stop : Word)
    (wiring : Circuit.Wiring) :
    PhaseSearch.maxSignal patience program start stop wiring =
      PhaseSearch.maxSignal patience other start stop wiring := by
  have hattempt : PhaseSearch.attempt patience program wiring =
      PhaseSearch.attempt patience other wiring := by
    funext best order
    rw [PhaseSearch.attempt, PhaseSearch.attempt, PhaseSearch.signal, PhaseSearch.signal,
      ((h.circuit order).send wiring patience 0).fst]
  rw [PhaseSearch.maxSignal, PhaseSearch.maxSignal, hattempt]

/-- The program with so many zeros behind it. -/
def pad (program : Program) (zeros : Nat) : Program := ⟨program.image ++ Array.replicate zeros 0⟩

/-- Zeros behind a program fill memory with what is there without them. -/
theorem alike_pad (program : Program) (zeros : Nat) : program.Alike (program.pad zeros) := by
  intro address
  simp only [pad, Memory.read, Array.getD_eq_getD_getElem?, Array.getElem?_append]
  split
  next => rfl
  next hout =>
    rw [Array.getElem?_eq_none (Nat.le_of_not_lt hout), Array.getElem?_replicate]
    split <;> rfl

end Program

/-- **Where memory ends cannot be observed.**  Machines that differ in nothing else give the same
replies in any session that does not start them over, and differ in nothing else afterwards.
Programs that differ in zeros at their end do so in any session at all, in circuits, and in the
search for the best order of phases. -/
theorem memory_length_unobservable {σ : Type} [Source σ] (patience : Nat) :
    (∀ (m other : Machine σ) (ops : List (Operation σ)), m.Alike other →
        (∀ op ∈ ops, ¬op.Restarts) →
          Likewise Machine.Alike (m.session patience ops) (other.session patience ops)) ∧
      (∀ (c other : Circuit) (wiring : Circuit.Wiring) (signal : Word), c.Alike other →
        Likewise Circuit.Alike (c.send wiring patience signal)
          (other.send wiring patience signal)) ∧
      ∀ (program : Program) (zeros : Nat),
        (∀ ops : List (Operation σ), Likewise Machine.Alike
          ((Machine.create program).session patience ops)
          ((Machine.create (program.pad zeros)).session patience ops)) ∧
        (∀ phases : List Word,
          (Circuit.create program phases).Alike (.create (program.pad zeros) phases)) ∧
        ∀ (start stop : Word) (wiring : Circuit.Wiring),
          PhaseSearch.maxSignal patience program start stop wiring =
            PhaseSearch.maxSignal patience (program.pad zeros) start stop wiring := by
  refine ⟨fun m other ops h hops => h.session patience ops fun ⟨op, hmem, hr⟩ =>
      absurd hr (hops op hmem), fun c other wiring signal h => h.send wiring patience signal,
    fun program zeros => ?_⟩
  have hprogram := program.alike_pad zeros
  exact ⟨fun ops => hprogram.create.session patience ops fun _ => hprogram, hprogram.circuit,
    hprogram.maxSignal_eq patience⟩

/-- A program that writes a cell which it has only with zeros behind it. -/
theorem memory_length_unobservable_write :
    let program : Program := ⟨([4, 5, 99].map Word.wrap).toArray⟩
    let m : Machine Empty := .create program
    let other : Machine Empty := .create (program.pad 3)
    m.memory.size = 3 ∧ other.memory.size = 6 ∧
      (m.session 1 [.execute 1]).1 = (other.session 1 [.execute 1]).1 ∧
      (other.session 1 [.execute 1]).1 = [.event (.ok (.output 0))] ∧
      ((Circuit.create (program.pad 3) [1]).send .pipeline 1 (.wrap 7)).1 = .done 0 := by
  obtain ⟨hsession, hsend, -⟩ := memory_length_unobservable (σ := Empty) 1
  have hprogram := Program.alike_pad ⟨([4, 5, 99].map Word.wrap).toArray⟩ 3
  refine ⟨rfl, rfl, ?_, rfl, ?_⟩
  · exact (hsession _ _ [.execute 1] hprogram.create (by simp [Operation.Restarts])).fst
  · exact (hsend _ _ .pipeline (.wrap 7) (hprogram.circuit [1])).fst.symm

end Intcode
