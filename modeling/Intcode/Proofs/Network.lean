import Mathlib.Data.List.Basic
import Mathlib.Data.List.Induction
import Mathlib.Logic.Function.Basic
import Intcode.Proofs.Answers

/-!
# Proofs/Network — machines that are wired to each other do not depend on a schedule

Machines that share nothing are wired so that the outputs of each go to the queue of at most one,
and each queue is fed by at most one.  A **move** runs one of them to its next output and hands that
on.  Which machine moves when is for the schedule to say, and a machine that moves late finds more
in its queue than one that moves early.  The two main statements:

* `Wires.run_alone` — what a machine does in a network it also does alone, when it is fed at once
  with all that it gets in the network;
* `Wires.schedule_independent` — schedules that move each machine equally often give the same
  outputs of each machine and leave the same machines.

The second does not come of exchanging two moves, since a machine and the one that feeds it do not
commute.  Instead it compares streams: by `Wires.answers_prefix` a schedule that moves no machine
more often than another one gets nothing but the first answers of each.
-/

namespace Intcode

/-- How machines are wired to each other. -/
structure Wires (ι : Type) where
  /-- The machine whose queue gets the outputs of this one, if there is one. -/
  target : ι → Option ι
  /-- No queue is fed by two machines. -/
  eq_of_target : ∀ {i j k : ι}, target i = some k → target j = some k → i = j

/-- Moves, one after the other: which machine moved, and what it answered. -/
abbrev Moves (ι : Type) : Type := List (ι × Option Word)

namespace Moves

variable {ι : Type} [DecidableEq ι]

/-- What a machine answered, move by move. -/
def answers (i : ι) (moves : Moves ι) : List (Option Word) :=
  moves.filterMap fun move => if move.1 = i then some move.2 else none

/-- The values that a machine has written. -/
def outputs (i : ι) (moves : Moves ι) : List Word :=
  moves.filterMap fun move => if move.1 = i then move.2 else none

theorem outputs_eq_answers (i : ι) (moves : Moves ι) :
    moves.outputs i = (moves.answers i).filterMap id := by
  rw [outputs, answers, List.filterMap_filterMap]
  refine List.filterMap_congr fun move _ => ?_
  by_cases h : move.1 = i
  · rw [if_pos h, if_pos h]
    rfl
  · rw [if_neg h, if_neg h]
    rfl

theorem answers_append (i : ι) (moves more : Moves ι) :
    (moves ++ more).answers i = moves.answers i ++ more.answers i :=
  List.filterMap_append

@[simp] theorem answers_cons_self (i : ι) (answer : Option Word) (moves : Moves ι) :
    answers i ((i, answer) :: moves) = answer :: moves.answers i :=
  List.filterMap_cons_some (if_pos rfl)

theorem answers_cons_of_ne {i j : ι} (h : i ≠ j) (answer : Option Word) (moves : Moves ι) :
    answers j ((i, answer) :: moves) = moves.answers j :=
  List.filterMap_cons_none (if_neg h)

end Moves

namespace Wires

variable {ι σ : Type} [DecidableEq ι] (wires : Wires ι)

/-- The values that a machine's queue has got. -/
def inbox (j : ι) (moves : Moves ι) : List Word :=
  moves.filterMap fun move => if wires.target move.1 = some j then move.2 else none

theorem inbox_append (j : ι) (moves more : Moves ι) :
    wires.inbox j (moves ++ more) = wires.inbox j moves ++ wires.inbox j more :=
  List.filterMap_append

theorem inbox_cons (j : ι) (move : ι × Option Word) (moves : Moves ι) :
    wires.inbox j (move :: moves) = wires.inbox j [move] ++ wires.inbox j moves :=
  wires.inbox_append j [move] moves

/-- A queue gets what the machine writes that feeds it. -/
theorem inbox_of_target {i j : ι} (h : wires.target i = some j) (moves : Moves ι) :
    wires.inbox j moves = moves.outputs i := by
  refine List.filterMap_congr fun move _ => ?_
  by_cases hi : move.1 = i
  · rw [if_pos (hi ▸ h), if_pos hi]
  · rw [if_neg fun htarget => hi (wires.eq_of_target htarget h), if_neg hi]

/-- Each queue has one machine that feeds it, or gets nothing. -/
theorem inbox_eq_outputs_or_nil (j : ι) :
    (∃ i, ∀ moves, wires.inbox j moves = moves.outputs i) ∨
      ∀ moves, wires.inbox j moves = [] := by
  by_cases h : ∃ i, wires.target i = some j
  · obtain ⟨i, hi⟩ := h
    exact .inl ⟨i, wires.inbox_of_target hi⟩
  · refine .inr fun moves => List.filterMap_eq_nil_iff.mpr fun move _ => if_neg ?_
    exact fun hj => h ⟨move.1, hj⟩

/-- If every machine has answered the first of what it answers elsewhere, every queue has got the
first of what it gets elsewhere. -/
theorem inbox_prefix {moves moves' : Moves ι} (h : ∀ i, moves.answers i <+: moves'.answers i)
    (j : ι) : wires.inbox j moves <+: wires.inbox j moves' := by
  obtain ⟨i, hi⟩ | hnil := wires.inbox_eq_outputs_or_nil j
  · rw [hi, hi, Moves.outputs_eq_answers, Moves.outputs_eq_answers]
    exact (h i).filterMap id
  · rw [hnil]
    exact List.nil_prefix

theorem inbox_congr {moves moves' : Moves ι} (h : ∀ i, moves.outputs i = moves'.outputs i) (j : ι) :
    wires.inbox j moves = wires.inbox j moves' := by
  obtain ⟨i, hi⟩ | hnil := wires.inbox_eq_outputs_or_nil j
  · rw [hi, hi, h i]
  · rw [hnil, hnil]

/-- Hands an answer on: an output goes to the end of the queue that it is meant for. -/
def hand (i : ι) (answer : Option Word) (family : ι → Machine σ) : ι → Machine σ := fun j =>
  match answer with
  | some value => if wires.target i = some j then (family j).append value else family j
  | none => family j

theorem hand_apply (i : ι) (answer : Option Word) (family : ι → Machine σ) (j : ι) :
    wires.hand i answer family j = (family j).feed (wires.inbox j [(i, answer)]) := by
  by_cases h : wires.target i = some j
  · cases answer with
    | none => simp [hand, inbox]
    | some value => simp [hand, inbox, h, Machine.append_eq_feed]
  · cases answer <;> simp [hand, inbox, h]

variable {wires} {patience : Nat} {family last : ι → Machine σ}

/-- The machine that has moved, with what it has sent to itself. -/
theorem hand_update_self (i : ι) (answer : Option Word) (m : Machine σ) :
    wires.hand i answer (Function.update family i m) i =
      m.feed (wires.inbox i [(i, answer)]) := by
  rw [hand_apply, Function.update_self]

/-- A machine that has not moved, with what was sent to it. -/
theorem hand_update_of_ne {i j : ι} (h : i ≠ j) (answer : Option Word) (m : Machine σ) :
    wires.hand i answer (Function.update family i m) j =
      (family j).feed (wires.inbox j [(i, answer)]) := by
  rw [hand_apply, Function.update_of_ne (Ne.symm h)]

variable [Source σ]

/-- A move: runs a machine to its next output, and hands that on. -/
def move (patience : Nat) (i : ι) (family : ι → Machine σ) :
    Outcome (ι × Option Word) × (ι → Machine σ) :=
  match (family i).nextOutput patience with
  | (.done answer, m) => (.done (i, answer), wires.hand i answer (Function.update family i m))
  | (.failed e, m) => (.failed e, Function.update family i m)
  | (.unfinished, m) => (.unfinished, Function.update family i m)

/-- Moves the machines as the schedule says. -/
def run (patience : Nat) (schedule : List ι) (family : ι → Machine σ) :
    Outcome (Moves ι) × (ι → Machine σ) :=
  inTurn (wires.move patience) schedule family


/-! ## One move -/

theorem move_patient (i : ι) (family : ι → Machine σ) : Patient (wires.move · i family) := by
  intro p q hpq hend
  have hnext := (family i).nextOutput_patient p q hpq
  dsimp only at hnext hend ⊢
  rw [move] at hend
  rw [move, move]
  rcases hp : (family i).nextOutput p with ⟨answer | e | _, m⟩
  · rw [hnext (hp ▸ nofun), hp]
  · rw [hnext (hp ▸ nofun), hp]
  · rw [hp] at hend
    exact absurd rfl hend

theorem move_eq_done {i : ι} {entry : ι × Option Word} :
    wires.move patience i family = (.done entry, last) ↔
      ∃ answer m, (family i).nextOutput patience = (.done answer, m) ∧ entry = (i, answer) ∧
        last = wires.hand i answer (Function.update family i m) := by
  rw [move]
  constructor
  · intro h
    rcases hnext : (family i).nextOutput patience with ⟨answer | e | _, m⟩ <;> rw [hnext] at h
    · cases h
      exact ⟨answer, m, rfl, rfl, rfl⟩
    · cases h
    · cases h
  · rintro ⟨answer, m, hnext, rfl, rfl⟩
    rw [hnext]

/-- No machine gets a source by a move. -/
theorem move_source_eq_none (hsource : ∀ j, (family j).input.source = none) {i : ι}
    {entry : ι × Option Word} (h : wires.move patience i family = (.done entry, last)) (j : ι) :
    (last j).input.source = none := by
  obtain ⟨answer, m, hnext, -, rfl⟩ := move_eq_done.mp h
  have hm : m.input.source = none := Machine.nextOutput_source_eq_none (hsource i) hnext
  by_cases hij : i = j
  · subst hij
    rw [hand_update_self]
    exact hm
  · rw [hand_update_of_ne hij]
    exact hsource j

/-! ## Schedules -/

variable {schedule schedule' : List ι} {moves moves' : Moves ι} {last' : ι → Machine σ}

/-- **What a machine does in a network it also does alone**, when it is fed at once with all that it
gets in the network: it gives the same answers, and is the same machine afterwards. -/
theorem run_alone (hsource : ∀ j, (family j).input.source = none)
    (h : wires.run patience schedule family = (.done moves, last)) (j : ι) :
    ((family j).feed (wires.inbox j moves)).nextOutputs patience (schedule.count j) =
      (.done (moves.answers j), last j) := by
  induction schedule generalizing family moves with
  | nil =>
    obtain ⟨rfl, rfl⟩ := inTurn_nil_eq_done.mp h
    exact congrArg (Machine.nextOutputs patience 0) (Machine.feed_nil _)
  | cons i schedule ih =>
    obtain ⟨entry, mid, more, hmove, hrest, rfl⟩ := inTurn_cons_eq_done.mp h
    have hafter := ih (move_source_eq_none hsource hmove) hrest
    obtain ⟨answer, m, hnext, rfl, rfl⟩ := move_eq_done.mp hmove
    rw [inbox_cons, ← Machine.feed_feed]
    by_cases hij : i = j
    · -- the machine moves, and what it is fed with later makes no difference to that
      subst hij
      rw [hand_update_self] at hafter
      rw [Machine.feed_feed] at hafter ⊢
      rw [List.count_cons_self, Moves.answers_cons_self]
      exact Machine.nextOutputs_succ_of_feed (hsource i) hnext hafter
    · rw [hand_update_of_ne hij] at hafter
      rw [List.count_cons_of_ne hij, Moves.answers_cons_of_ne hij]
      exact hafter

/-- **A schedule that moves no machine more often than another one** gets from each machine the
first of its answers there.  A machine that moves has been fed with the first of what it is fed with
there, by what holds of the moves before. -/
theorem answers_prefix (hsource : ∀ j, (family j).input.source = none)
    (h : wires.run patience schedule family = (.done moves, last))
    (h' : wires.run patience schedule' family = (.done moves', last'))
    (hcount : ∀ i, schedule.count i ≤ schedule'.count i) (j : ι) :
    moves.answers j <+: moves'.answers j := by
  induction schedule using List.reverseRecOn generalizing moves last j with
  | nil =>
    obtain ⟨rfl, -⟩ := inTurn_nil_eq_done.mp h
    exact List.nil_prefix
  | append_singleton schedule i ih =>
    obtain ⟨before, mid, after, hbefore, hafter, rfl⟩ := inTurn_append_eq_done.mp h
    obtain ⟨entry, hmove, rfl⟩ := inTurn_singleton_eq_done.mp hafter
    obtain ⟨answer, m, hnext, rfl, -⟩ := move_eq_done.mp hmove
    have hcount' : ∀ k, schedule.count k ≤ schedule'.count k := fun k =>
      Nat.le_trans (List.Sublist.count_le k (List.sublist_append_left _ _)) (hcount k)
    have hprefix := ih hbefore hcount'
    rw [Moves.answers_append]
    by_cases hij : i = j
    · subst hij
      have halone := run_alone hsource hbefore i
      have honce := Machine.nextOutputs_one_eq_done.mpr ⟨answer, hnext, rfl⟩
      have hmoved := Machine.nextOutputs_add_eq_done.mpr ⟨_, _, _, halone, honce, rfl⟩
      have henough : schedule.count i + 1 ≤ schedule'.count i := by
        have := hcount i
        rwa [List.count_append, List.count_singleton_self] at this
      rw [Moves.answers_cons_self]
      exact Machine.nextOutputs_feed_prefix (hsource i) (wires.inbox_prefix hprefix i) henough
        hmoved (run_alone hsource h' i)
    · rw [Moves.answers_cons_of_ne hij]
      exact (List.append_nil _).symm ▸ hprefix j

theorem run_patient (schedule : List ι) (family : ι → Machine σ) :
    Patient (wires.run · schedule family) :=
  inTurn_patient move_patient schedule family

/-- **Wired machines do not depend on a schedule.**  Of two schedules in which every move gives an
answer and every machine moves equally often, both get the same outputs from each machine, and both
leave the same machines. -/
theorem schedule_independent (wires : Wires ι) (family : ι → Machine σ)
    (hsource : ∀ i, (family i).input.source = none) {schedule schedule' : List ι}
    (hcount : ∀ i, schedule.count i = schedule'.count i) {patience patience' : Nat}
    {moves moves' : Moves ι} {last last' : ι → Machine σ}
    (h : wires.run patience schedule family = (.done moves, last))
    (h' : wires.run patience' schedule' family = (.done moves', last')) :
    (∀ i, moves.outputs i = moves'.outputs i) ∧ last = last' := by
  -- both schedules are run with the patience of the more patient one
  have hrun : wires.run (max patience patience') schedule family = (.done moves, last) :=
    (run_patient schedule family).of_le (Nat.le_max_left patience patience') nofun h
  have hrun' : wires.run (max patience patience') schedule' family = (.done moves', last') :=
    (run_patient schedule' family).of_le (Nat.le_max_right patience patience') nofun h'
  have hanswers : ∀ i, moves.answers i = moves'.answers i := fun i => by
    have hprefix := answers_prefix hsource hrun hrun' (fun k => Nat.le_of_eq (hcount k)) i
    refine hprefix.eq_of_length ?_
    rw [Machine.length_of_nextOutputs (run_alone hsource hrun i),
      Machine.length_of_nextOutputs (run_alone hsource hrun' i), hcount]
  have houtputs : ∀ i, moves.outputs i = moves'.outputs i := fun i => by
    rw [Moves.outputs_eq_answers, Moves.outputs_eq_answers, hanswers]
  refine ⟨houtputs, funext fun j => ?_⟩
  have halone := run_alone hsource hrun j
  rw [wires.inbox_congr houtputs, hcount, run_alone hsource hrun' j] at halone
  exact (congrArg Prod.snd halone).symm

/-- A ring of two machines that write what they read, each with one value to start from. -/
theorem schedule_independent_ring :
    let wires : Wires Bool :=
      ⟨fun i => some !i, fun hi hj => Bool.not_inj (Option.some.inj (hi.trans hj.symm))⟩
    let echo : Machine Empty := .create ⟨([3, 9, 4, 9, 1105, 1, 0].map Word.wrap).toArray⟩
    let family : Bool → Machine Empty := fun i => echo.reset [.wrap (if i then 6 else 5)]
    let moves : Moves Bool := [(false, some (.wrap 5)), (true, some (.wrap 6)),
      (true, some (.wrap 5)), (false, some (.wrap 6))]
    let moves' : Moves Bool := [(true, some (.wrap 6)), (false, some (.wrap 5)),
      (false, some (.wrap 6)), (true, some (.wrap 5))]
    (wires.run 1 [false, true, true, false] family).1 = .done moves ∧
      (wires.run 1 [true, false, false, true] family).1 = .done moves' ∧
      (∀ i, moves.outputs i = moves'.outputs i) ∧
      (wires.run 1 [false, true, true, false] family).2 =
        (wires.run 1 [true, false, false, true] family).2 := by
  intro wires echo family moves moves'
  have h : (wires.run 1 [false, true, true, false] family).1 = .done moves := by decide +kernel
  have h' : (wires.run 1 [true, false, false, true] family).1 = .done moves' := by decide +kernel
  exact ⟨h, h', schedule_independent wires family (fun _ => rfl) (by decide) (eq_pair_of_fst h)
    (eq_pair_of_fst h')⟩

end Wires

end Intcode
