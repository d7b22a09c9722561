import Intcode.Command.Report
import Intcode.Proofs.Execution

/-!
# Proofs/Slicing — how a run is cut makes no difference

Whoever runs a machine to its end calls it again and again, with whatever budgets, and does
something with each output.  What comes of that is fixed by the single instructions:

* `Machine.Ends` — how a run ends, told instruction by instruction;
* `Machine.ends_iff` — the same is told by a slice of any size and what remains behind it;
* `Machine.ends_iff_deliver` — all ways of running a machine with positive budgets come to that end;
* `Machine.ends_iff_deliverNext`, `Machine.ends_iff_drive`, `Machine.ends_iff_runToHalt` — and so do
  the ways that there are in this library.
-/

namespace Intcode

/-- A run comes to a result if it ends with it, and more patience changes nothing. -/
def ComesTo {α β : Type} (run : Nat → Outcome α × β) (result : Outcome α × β) : Prop :=
  result.1 ≠ .unfinished ∧ ∃ enough, ∀ patience, enough ≤ patience → run patience = result

namespace Machine

variable {σ : Type}

/-- A run to the end without its outputs, unless it has halted. -/
def gather : Outcome Unit × Array Word × Machine σ → Outcome (Array Word) × Machine σ
  | (.done (), outputs, m) => (.done outputs, m)
  | (.failed e, _, m) => (.failed e, m)
  | (.unfinished, _, m) => (.unfinished, m)

theorem gather_eq_done {result : Outcome Unit × Array Word × Machine σ} {outputs : Array Word}
    {last : Machine σ} :
    gather result = (.done outputs, last) ↔ result = (.done (), outputs, last) := by
  constructor
  · intro h
    obtain ⟨_ | _ | _, outputs', last'⟩ := result
    · cases h
      rfl
    · cases congrArg Prod.fst h
    · cases congrArg Prod.fst h
  · rintro rfl
    rfl

theorem gather_eq_failed {result : Outcome Unit × Array Word × Machine σ} {e : Error}
    {last : Machine σ} :
    gather result = (.failed e, last) ↔ ∃ outputs, result = (.failed e, outputs, last) := by
  constructor
  · intro h
    obtain ⟨_ | _ | _, outputs', last'⟩ := result
    · cases congrArg Prod.fst h
    · cases h
      exact ⟨outputs', rfl⟩
    · cases congrArg Prod.fst h
  · rintro ⟨outputs, rfl⟩
    rfl

theorem gather_eq_unfinished (result : Outcome Unit × Array Word × Machine σ) :
    (gather result).1 = .unfinished ↔ result.1 = .unfinished := by
  match result with
  | (.done (), _, _) | (.failed _, _, _) => exact iff_of_false nofun nofun
  | (.unfinished, _, _) => exact iff_of_true rfl rfl

variable [Source σ]

/-! ## Ways of running a machine to its end -/

/-- Runs a machine for one budget after the other, until it halts or fails or no budget is left: how
it ended, and all the values delivered by then.  After each of them the caller does something with
the machine: it feeds it, say, or tells its source of the value. -/
def deliver (hear : Machine σ → Word → Machine σ) :
    List Nat → Array Word → Machine σ → Outcome Unit × Array Word × Machine σ
  | [], outputs, m => (.unfinished, outputs, m)
  | budget :: budgets, outputs, m =>
    match m.execute budget with
    | (.ok .running, m) => deliver hear budgets outputs m
    | (.ok (.output value), m) => deliver hear budgets (outputs.push value) (hear m value)
    | (.ok .halted, m) => (.done (), outputs, m)
    | (.error e, m) => (.failed e, outputs, m)

/-- Runs a machine from output to output, until it halts or fails, so often as the second number
says: how it ended, and all the values delivered by then. -/
def deliverNext (hear : Machine σ → Word → Machine σ) (patience : Nat) :
    Nat → Array Word → Machine σ → Outcome Unit × Array Word × Machine σ
  | 0, outputs, m => (.unfinished, outputs, m)
  | n + 1, outputs, m =>
    match m.nextOutput patience with
    | (.done (some value), m) => deliverNext hear patience n (outputs.push value) (hear m value)
    | (.done none, m) => (.done (), outputs, m)
    | (.failed e, m) => (.failed e, outputs, m)
    | (.unfinished, m) => (.unfinished, outputs, m)

/-! ## How a run ends -/

/-- **How a run ends**, told instruction by instruction: the values that were delivered before it
are given, and each `WRITE` adds its own. -/
inductive Ends (hear : Machine σ → Word → Machine σ) :
    Array Word → Machine σ → Outcome Unit × Array Word × Machine σ → Prop
  | halted {outputs m last} (h : m.execute 1 = (.ok .halted, last)) :
    Ends hear outputs m (.done (), outputs, last)
  | failed {outputs m e last} (h : m.execute 1 = (.error e, last)) :
    Ends hear outputs m (.failed e, outputs, last)
  | running {outputs m after result} (h : m.execute 1 = (.ok .running, after))
    (rest : Ends hear outputs after result) : Ends hear outputs m result
  | output {outputs m value after result} (h : m.execute 1 = (.ok (.output value), after))
    (rest : Ends hear (outputs.push value) (hear after value) result) : Ends hear outputs m result

/-- How a run ends of which a slice has been executed. -/
def Remains (hear : Machine σ → Word → Machine σ) (outputs : Array Word)
    (slice : Except Error Event × Machine σ) (result : Outcome Unit × Array Word × Machine σ) :
    Prop :=
  match slice with
  | (.ok .running, after) => Ends hear outputs after result
  | (.ok (.output value), after) => Ends hear (outputs.push value) (hear after value) result
  | (.ok .halted, last) => result = (.done (), outputs, last)
  | (.error e, last) => result = (.failed e, outputs, last)

variable {hear : Machine σ → Word → Machine σ} {outputs : Array Word} {m : Machine σ}
  {result : Outcome Unit × Array Word × Machine σ}

theorem Ends.ne_unfinished (h : Ends hear outputs m result) : result.1 ≠ .unfinished := by
  induction h with
  | halted _ | failed _ => exact nofun
  | running _ _ ih | output _ _ ih => exact ih

theorem ends_iff_one : Ends hear outputs m result ↔ Remains hear outputs (m.execute 1) result := by
  constructor
  · rintro (h | h | ⟨h, rest⟩ | ⟨h, rest⟩)
    · rw [h]
      rfl
    · rw [h]
      rfl
    · rw [h]
      exact rest
    · rw [h]
      exact rest
  · intro h
    match hslice : m.execute 1, h with
    | (.ok .running, after), h => exact .running hslice h
    | (.ok (.output value), after), h => exact .output hslice h
    | (.ok .halted, last), h =>
      cases h
      exact .halted hslice
    | (.error e, last), h =>
      cases h
      exact .failed hslice

/-- A run has one end. -/
theorem Ends.unique {result' : Outcome Unit × Array Word × Machine σ}
    (h : Ends hear outputs m result) (h' : Ends hear outputs m result') : result' = result := by
  induction h with
  | halted h | failed h =>
    rw [ends_iff_one, h] at h'
    exact h'
  | running h _ ih | output h _ ih =>
    rw [ends_iff_one, h] at h'
    exact ih h'

/-- **A run ends as its first slice and what remains say**, however long the slice is. -/
theorem ends_iff (k : Nat) :
    Ends hear outputs m result ↔ Remains hear outputs (m.execute k) result := by
  induction k generalizing m with
  | zero =>
    rw [ends_iff_one]
    have hadd := m.execute_add 0 1
    rw [Nat.zero_add] at hadd
    by_cases hr : (m.execute 0).1 = .ok .running
    · -- nothing was executed, and what remains starts with the same instruction
      have hslice : m.execute 0 = (.ok .running, (m.execute 0).2) := Prod.ext hr rfl
      rw [hslice] at hadd ⊢
      exact hadd ▸ ends_iff_one.symm
    · rw [hadd, andThen_of_stop hr]
  | succ k ih =>
    rw [ends_iff_one, Nat.add_comm k 1, execute_add]
    by_cases hr : (m.execute 1).1 = .ok .running
    · have hslice : m.execute 1 = (.ok .running, (m.execute 1).2) := Prod.ext hr rfl
      rw [hslice]
      exact ih
    · rw [andThen_of_stop hr]

/-! ## Budget after budget -/

theorem ends_of_deliver {budgets : List Nat} (h : deliver hear budgets outputs m = result)
    (hend : result.1 ≠ .unfinished) : Ends hear outputs m result := by
  induction budgets generalizing outputs m with
  | nil =>
    cases h
    exact absurd rfl hend
  | cons budget budgets ih =>
    rw [ends_iff budget]
    rw [deliver] at h
    match hslice : m.execute budget with
    | (.ok .running, after) | (.ok (.output value), after) =>
      rw [hslice] at h
      exact ih h
    | (.ok .halted, last) | (.error e, last) =>
      rw [hslice] at h
      exact h.symm

/-- Positive budgets that are enough for one step more start with one that pays for it. -/
theorem exists_budgets_of_lt {enough : Nat} {budgets : List Nat} (hpos : ∀ b ∈ budgets, 0 < b)
    (hlen : enough < budgets.length) :
    ∃ k rest, budgets = (1 + k) :: rest ∧ (∀ b ∈ rest, 0 < b) ∧ enough ≤ rest.length := by
  obtain _ | ⟨b, rest⟩ := budgets
  · cases hlen
  · obtain ⟨hb, hrest⟩ := List.forall_mem_cons.mp hpos
    obtain ⟨k, rfl⟩ := Nat.exists_eq_add_of_le hb
    exact ⟨k, rest, rfl, hrest, Nat.le_of_lt_succ hlen⟩

/-- What is left of a budget after a step in which nothing happened is spent behind it. -/
theorem deliver_of_running {after : Machine σ} (h : m.execute 1 = (.ok .running, after)) (k : Nat)
    (budgets : List Nat) :
    deliver hear ((1 + k) :: budgets) outputs m = deliver hear (k :: budgets) outputs after := by
  rw [deliver, execute_add, h, deliver]
  rfl

/-- No budget at all is spent on nothing. -/
theorem deliver_zero (h : m.state = .running) (budgets : List Nat) :
    deliver hear (0 :: budgets) outputs m = deliver hear budgets outputs m := by
  rw [deliver, execute_of_running h]
  rfl

/-- **A run that ends is brought to its end by any budgets**, if they are positive and enough. -/
theorem Ends.deliver_eq (h : Ends hear outputs m result) :
    ∃ enough, ∀ budgets : List Nat, (∀ b ∈ budgets, 0 < b) → enough ≤ budgets.length →
      deliver hear budgets outputs m = result := by
  -- the induction is on the instructions, so the first budget loses one in each of its steps
  induction h with
  | halted h | failed h =>
    refine ⟨1, fun budgets hpos hlen => ?_⟩
    obtain ⟨k, rest, rfl, -, -⟩ := exists_budgets_of_lt hpos hlen
    rw [deliver, execute_add, h]
    rfl
  | running h _ ih =>
    obtain ⟨enough, ih⟩ := ih
    refine ⟨enough + 1, fun budgets hpos hlen => ?_⟩
    obtain ⟨k, rest, rfl, hrest, henough⟩ := exists_budgets_of_lt hpos hlen
    rw [deliver_of_running h]
    obtain _ | k := k
    · rw [deliver_zero (execute_state h)]
      exact ih rest hrest henough
    · have hpos' := List.forall_mem_cons.mpr ⟨k.succ_pos, hrest⟩
      exact ih ((k + 1) :: rest) hpos' (Nat.le_succ_of_le henough)
  | output h _ ih =>
    obtain ⟨enough, ih⟩ := ih
    refine ⟨enough + 1, fun budgets hpos hlen => ?_⟩
    obtain ⟨k, rest, rfl, hrest, henough⟩ := exists_budgets_of_lt hpos hlen
    rw [deliver, execute_add, h]
    exact ih rest hrest henough

/-- **Any budgets bring a run to the end it has**: positive ones if they are enough, and if others
do they come to the same. -/
theorem ends_iff_deliver :
    Ends hear outputs m result ↔
      result.1 ≠ .unfinished ∧
        (∃ enough, ∀ budgets : List Nat, (∀ b ∈ budgets, 0 < b) → enough ≤ budgets.length →
          deliver hear budgets outputs m = result) ∧
        ∀ budgets, (deliver hear budgets outputs m).1 ≠ .unfinished →
          deliver hear budgets outputs m = result := by
  constructor
  · intro h
    refine ⟨h.ne_unfinished, h.deliver_eq, fun budgets hend => ?_⟩
    exact h.unique (ends_of_deliver rfl hend)
  · rintro ⟨hend, ⟨enough, h⟩, -⟩
    refine ends_of_deliver (h (List.replicate enough 1) (fun b hb => ?_) ?_) hend
    · rw [List.eq_of_mem_replicate hb]
      exact Nat.one_pos
    · exact Nat.le_of_eq List.length_replicate.symm

theorem drive_eq_deliver (patience : Nat) (outputs : Array Word) (m : Machine σ) :
    Command.drive patience outputs m =
      deliver observe (List.replicate patience Command.driveCycles) outputs m := by
  induction patience generalizing outputs m with
  | zero => rfl
  | succ patience ih =>
    rw [Command.drive, List.replicate_succ, deliver]
    match m.execute Command.driveCycles with
    | (.ok .running, after) | (.ok (.output value), after) => exact ih _ _
    | (.ok .halted, last) | (.error e, last) => rfl

theorem ends_iff_drive :
    Ends observe outputs m result ↔ ComesTo (Command.drive · outputs m) result := by
  constructor
  · intro h
    obtain ⟨enough, heq⟩ := h.deliver_eq
    refine ⟨h.ne_unfinished, enough, fun patience hp => ?_⟩
    refine (drive_eq_deliver patience outputs m).trans (heq _ (fun b hb => ?_) ?_)
    · rw [List.eq_of_mem_replicate hb]
      decide
    · rw [List.length_replicate]
      exact hp
  · rintro ⟨hend, enough, h⟩
    have heq := h enough (Nat.le_refl enough)
    exact ends_of_deliver ((drive_eq_deliver enough outputs m).symm.trans heq) hend

/-! ## Output after output -/

/-- What comes of running from output to output, after the first of these runs. -/
def deliverFrom (hear : Machine σ → Word → Machine σ) (patience n : Nat) (outputs : Array Word) :
    Outcome (Option Word) × Machine σ → Outcome Unit × Array Word × Machine σ
  | (.done (some value), m) => deliverNext hear patience n (outputs.push value) (hear m value)
  | (.done none, m) => (.done (), outputs, m)
  | (.failed e, m) => (.failed e, outputs, m)
  | (.unfinished, m) => (.unfinished, outputs, m)

theorem deliverFrom_of_deliver {slices : Nat}
    (h : deliver hear (List.replicate slices sliceCycles) outputs m = result)
    (hend : result.1 ≠ .unfinished) {first patience n : Nat} (hfirst : slices ≤ first)
    (hpatience : slices ≤ patience) (hn : slices ≤ n) :
    deliverFrom hear patience n outputs (m.nextOutput first) = result := by
  induction slices generalizing outputs m first n with
  | zero =>
    cases h
    exact absurd rfl hend
  | succ slices ih =>
    obtain ⟨first, rfl⟩ := Nat.exists_eq_succ_of_ne_zero (Nat.ne_zero_of_lt hfirst)
    obtain ⟨n, rfl⟩ := Nat.exists_eq_succ_of_ne_zero (Nat.ne_zero_of_lt hn)
    have hpatience' := Nat.le_of_succ_le hpatience
    rw [List.replicate_succ, deliver] at h
    rw [nextOutput]
    match hslice : m.execute sliceCycles with
    | (.ok .running, after) =>
      rw [hslice] at h
      exact ih h (Nat.le_of_succ_le_succ hfirst) hpatience' (Nat.le_of_succ_le hn)
    | (.ok (.output value), after) =>
      rw [hslice] at h
      exact ih h hpatience' hpatience' (Nat.le_of_succ_le_succ hn)
    | (.ok .halted, last) | (.error e, last) =>
      rw [hslice] at h
      exact h

theorem ends_of_deliverFrom {first patience n : Nat}
    (hrest : ∀ outputs m, deliverNext hear patience n outputs m = result →
      Ends hear outputs m result)
    (h : deliverFrom hear patience n outputs (m.nextOutput first) = result)
    (hend : result.1 ≠ .unfinished) : Ends hear outputs m result := by
  induction first generalizing m with
  | zero =>
    cases h
    exact absurd rfl hend
  | succ first ih =>
    rw [ends_iff sliceCycles]
    rw [nextOutput] at h
    match hslice : m.execute sliceCycles with
    | (.ok .running, after) =>
      rw [hslice] at h
      exact ih h
    | (.ok (.output value), after) =>
      rw [hslice] at h
      exact hrest _ _ h
    | (.ok .halted, last) | (.error e, last) =>
      rw [hslice] at h
      exact h.symm

theorem ends_of_deliverNext {patience n : Nat}
    (h : deliverNext hear patience n outputs m = result) (hend : result.1 ≠ .unfinished) :
    Ends hear outputs m result := by
  induction n generalizing outputs m with
  | zero =>
    cases h
    exact absurd rfl hend
  | succ n ih => exact ends_of_deliverFrom (fun _ _ h => ih h) h hend

theorem ends_iff_deliverNext :
    Ends hear outputs m result ↔
      ComesTo (fun patience => deliverNext hear patience patience outputs m) result := by
  constructor
  · intro h
    obtain ⟨enough, heq⟩ := h.deliver_eq
    have hslices := heq (List.replicate enough sliceCycles)
      (fun b hb => by rw [List.eq_of_mem_replicate hb]; decide)
      (Nat.le_of_eq List.length_replicate.symm)
    refine ⟨h.ne_unfinished, enough + 1, fun patience hp => ?_⟩
    obtain ⟨n, rfl⟩ := Nat.exists_eq_succ_of_ne_zero (Nat.ne_zero_of_lt hp)
    show deliverFrom hear n.succ n outputs (m.nextOutput n.succ) = result
    have hn := Nat.le_of_succ_le_succ hp
    exact deliverFrom_of_deliver hslices h.ne_unfinished (Nat.le_of_succ_le hp)
      (Nat.le_of_succ_le hp) hn
  · rintro ⟨hend, enough, h⟩
    exact ends_of_deliverNext (h enough (Nat.le_refl enough)) hend

/-! ## All outputs at once -/

theorem collect_eq_gather (patience n : Nat) (outputs : Array Word) (m : Machine σ) :
    collect patience n outputs m =
      gather (deliverNext (fun m _ => m) patience n outputs m) := by
  induction n generalizing outputs m with
  | zero => rfl
  | succ n ih =>
    rw [collect, deliverNext]
    match m.nextOutput patience with
    | (.done (some value), after) => exact ih _ _
    | (.done none, last) | (.failed e, last) | (.unfinished, last) => rfl

theorem ends_iff_runToHalt {r : Outcome (Array Word) × Machine σ} :
    (∃ result, Ends (fun m _ => m) #[] m result ∧ gather result = r) ↔
      ComesTo (runToHalt · m) r := by
  constructor
  · rintro ⟨result, h, rfl⟩
    obtain ⟨hend, enough, heq⟩ := ends_iff_deliverNext.mp h
    refine ⟨mt (gather_eq_unfinished result).mp hend, enough, fun patience hp => ?_⟩
    exact (collect_eq_gather patience patience #[] m).trans (congrArg gather (heq patience hp))
  · rintro ⟨hend, enough, heq⟩
    have hgather := (collect_eq_gather enough enough #[] m).symm.trans (heq enough (Nat.le_refl _))
    refine ⟨_, ends_of_deliverNext rfl fun hr => hend ?_, hgather⟩
    rw [← hgather, gather_eq_unfinished]
    exact hr

/-- **How a run is cut makes no difference.**  A budget may be spent in two parts.  However a machine
is run to its end — with positive budgets of any size, from output to output, or as the commands do
it — it delivers the same values, each once and in the same order, and ends in the same machine with
the same error, if any: what its single instructions come to.  A run that collects its outputs gives
just these if the machine halts, and the error if it fails. -/
theorem slicing_unobservable (m : Machine σ) :
    (∀ a b, m.execute (a + b) =
        match m.execute a with
        | (.ok .running, mid) => mid.execute b
        | stopped => stopped) ∧
      (∀ hear result,
        (Ends hear #[] m result ↔
          result.1 ≠ .unfinished ∧
            (∃ enough, ∀ budgets : List Nat, (∀ b ∈ budgets, 0 < b) → enough ≤ budgets.length →
              deliver hear budgets #[] m = result) ∧
            ∀ budgets, (deliver hear budgets #[] m).1 ≠ .unfinished →
              deliver hear budgets #[] m = result) ∧
        (Ends hear #[] m result ↔
          ComesTo (fun patience => deliverNext hear patience patience #[] m) result)) ∧
      (∀ result, Ends observe #[] m result ↔ ComesTo (Command.drive · #[] m) result) ∧
      (∀ outputs last, Ends (fun m _ => m) #[] m (.done (), outputs, last) ↔
        ComesTo (runToHalt · m) (.done outputs, last)) ∧
      (∀ e last, (∃ outputs, Ends (fun m _ => m) #[] m (.failed e, outputs, last)) ↔
        ComesTo (runToHalt · m) (.failed e, last)) ∧
      ∀ patience inputs, m.runToCompletion patience inputs = (m.reset inputs).runToHalt patience := by
  refine ⟨fun a b => m.execute_add a b, fun hear result => ⟨ends_iff_deliver, ends_iff_deliverNext⟩,
    fun result => ends_iff_drive, fun outputs last => ?_, fun e last => ?_, fun _ _ => rfl⟩
  · rw [← ends_iff_runToHalt]
    simp only [gather_eq_done, exists_eq_right]
  · rw [← ends_iff_runToHalt]
    simp only [gather_eq_failed]
    exact ⟨fun ⟨outputs, h⟩ => ⟨_, h, outputs, rfl⟩, fun ⟨_, h, outputs, heq⟩ => ⟨outputs, heq ▸ h⟩⟩

/-- A program that writes 7 and halts. -/
theorem slicing_unobservable_write :
    let m : Machine Empty := .create ⟨([104, 7, 99].map Word.wrap).toArray⟩
    ∃ last, last.state = .halted ∧
      deliver (fun m _ => m) [1, 2, 3] #[] m = (.done (), #[.wrap 7], last) ∧
      ComesTo (Command.drive · #[] m) (.done (), #[.wrap 7], last) ∧
      ComesTo (runToHalt · m) (.done #[.wrap 7], last) := by
  intro m
  have hall := slicing_unobservable m
  have h : Ends (fun m _ => m) #[] m (.done (), #[.wrap 7], _) := .output rfl (.halted rfl)
  refine ⟨_, rfl, ((hall.2.1 _ _).1.mp h).2.2 _ nofun, ?_, (hall.2.2.2.1 _ _).mp h⟩
  exact (hall.2.2.1 _).mp (.output rfl (.halted rfl))

end Machine

end Intcode
