import Mathlib.Algebra.Group.Nat.Defs
import Intcode.Proofs.Faults
import Intcode.Proofs.History

/-!
# Proofs/History/Extent — how far a machine reaches

A memory grows only where it is written, just as far as the cell that is written, and shrinks only
when the machine is started over.  A program counter that is no jump's target stands at most one
instruction behind a word that is one, and beyond the end of memory there is none, since zero is no
opcode.

* `History.extent` — the size that memory has by its history;
* `History.sized` / `History.bounded` — memory has that size, and neither memory nor program counter
  gets far;
* `Machine.memory_bounded` — what follows for any session, and for the next instruction.
-/

namespace Intcode

open Machine

variable {σ : Type}

/-! ## The size of memory by its history -/

/-- The size of memory after a change, if it has `image` cells when the machine is started over. -/
def Change.extent (image size : Nat) : Change σ → Nat
  | .started _ => image
  | .stored address _ | .took address _ | .asked address (some _) =>
    if size ≤ address then address + 1 else size
  | .asked _ none | .appended _ | .sourced _ => size

/-- Only starting over makes memory smaller. -/
theorem Change.le_extent {image size : Nat} {change : Change σ}
    (h : ∀ inputs, change ≠ .started inputs) : size ≤ change.extent image size := by
  match change with
  | .started inputs => exact absurd rfl (h inputs)
  | .stored .. | .took .. | .asked _ (some _) =>
    simp only [extent]
    split <;> omega
  | .asked _ none | .appended _ | .sourced _ => exact Nat.le_refl _

namespace History

variable (image size : Nat)

/-- The size of memory after a history, where it had `size` cells before. -/
def extent (h : History σ) : Nat := h.foldl (Change.extent image) size

@[simp] theorem extent_concat (h : History σ) (change : Change σ) :
    extent image size (h ++ [change]) = change.extent image (h.extent image size) := by
  simp [extent]

theorem le_extent {h : History σ} (hstarted : ∀ inputs, .started inputs ∉ h) :
    size ≤ h.extent image size := by
  induction h generalizing size with
  | nil => exact Nat.le_refl _
  | cons change h ih =>
    have hchange : size ≤ change.extent image size :=
      Change.le_extent fun inputs heq => hstarted inputs (heq ▸ List.mem_cons_self)
    exact Nat.le_trans hchange
      (ih _ fun inputs hmem => hstarted inputs (List.mem_cons_of_mem _ hmem))

end History

/-- A write makes memory end behind its cell, unless it ends further on already. -/
theorem Memory.size_set_eq_ite (m : Memory) (address : Nat) (value : Word) :
    (m.set address value).size = if m.size ≤ address then address + 1 else m.size := by
  rw [size_set]
  split <;> omega

/-- Beyond its end memory is zero. -/
theorem Memory.read_of_size_le {m : Memory} {address : Nat} (h : m.size ≤ address) :
    m.read address = 0 := by
  rw [read, Array.getD_eq_getD_getElem?, Array.getElem?_eq_none h, Option.getD_none]

/-- No obstacle is told like a write that is refused. -/
theorem Obstacle.detail_ne (o : Obstacle) : o.detail ≠ "BEYOND MEMORY LIMIT" := by
  cases o with
  | noResult op => cases op <;> simp [detail, Opcode.name]
  | noInstruction _ | noMode _ | immediateTarget _ | noRelativeAddress | noAddress _ | noBase
  | starved => simp [detail]

theorem Opcode.width_le (op : Opcode) : op.width ≤ 4 := by
  cases op <;> decide

namespace Machine

variable {m : Machine σ}

/-! ## The next instruction -/

/-- **Beyond the end of memory there is no instruction**, since zero is no opcode. -/
theorem pc_lt_size {i : Instruction} (h : m.instruction = .ok i) : m.pc < m.memory.size := by
  by_contra hout
  -- there the word is zero, and decoding it fails whatever the address
  rw [instruction, Memory.read_of_size_le (Nat.le_of_not_lt hout)] at h
  cases h

theorem next_le {i : Instruction} (h : m.instruction = .ok i) :
    m.pc + i.opcode.width ≤ m.memory.size + 3 := by
  have hpc := pc_lt_size h
  have hwidth := i.opcode.width_le
  omega

/-- Behind an instruction that is carried out the program counter is within its bounds. -/
theorem next_le_max_of_plan_ok {op : Opcode} {action : Action} (h : m.plan = .ok (op, action)) :
    m.pc + op.width ≤ max maxAddress (m.memory.size + 3) := by
  obtain ⟨fields, hfields⟩ := instruction_of_plan_ok h
  exact Nat.le_trans (next_le hfields) (Nat.le_max_right ..)

/-- What is written at a place that an instruction has worked out is not refused. -/
theorem refusal?_of_plan_ok {op : Opcode} {action : Action} {target : Nat}
    (h : m.plan = .ok (op, action))
    (htarget : action = .receive target ∨ ∃ value, action = .store target value) :
    Memory.refusal? target = none := by
  obtain ⟨-, -, hcarries⟩ := m.plan_meets.of_ok h
  have hrange := hcarries.inRange
  obtain rfl | ⟨value, rfl⟩ := htarget <;> exact Memory.refusal?_eq_none_iff.mpr hrange

variable [Source σ]

/-- No instruction fails with the error of a write that is refused. -/
theorem detail_of_step_error {e : Error} (h : m.step.1 = .error e) :
    e.detail ≠ "BEYOND MEMORY LIMIT" := by
  obtain ⟨hplan, -⟩ | ⟨target, -, rfl, -⟩ := step_of_error (Prod.ext h rfl)
  · obtain ⟨o, -, ho⟩ := m.plan_meets.exists_of_error hplan
    rw [ho.detail]
    exact Obstacle.detail_ne o
  · exact Obstacle.detail_ne .starved

/-- An instruction that fails leaves memory as it was. -/
theorem memory_of_step_error {e : Error} {after : Machine σ} (h : m.step = (.error e, after)) :
    after.memory = m.memory := by
  obtain ⟨-, rfl⟩ | ⟨-, -, -, -, rfl⟩ := step_of_error h <;> rfl

/-- An instruction does not start its machine over. -/
theorem started_not_mem_changes (inputs : List Word) : .started inputs ∉ m.changes := by
  unfold changes
  split
  next => simp
  next => split <;> simp
  next => exact List.not_mem_nil

/-! ## A session -/

/-- Neither memory nor program counter has got far, and no write of an instruction was refused. -/
structure Bounded (program : Program) (m : Machine σ) : Prop where
  size : m.memory.size ≤ max program.image.size (maxAddress + 1)
  program : m.program = program
  pc : m.pc ≤ max maxAddress (m.memory.size + 3)
  fault : ∀ e, m.fault = some e → e.detail ≠ "BEYOND MEMORY LIMIT"

section Bounded

omit [Source σ]

theorem Bounded.of_create (program : Program) : (create program : Machine σ).Bounded program where
  program := rfl
  size := Nat.le_max_left ..
  pc := Nat.zero_le _
  fault _ h := nomatch h

/-- A write that is not refused keeps a machine within its bounds. -/
theorem Bounded.write {program : Program} (h : m.Bounded program) {target next : Nat}
    (htarget : target ≤ maxAddress) (hnext : next ≤ max maxAddress (m.memory.size + 3))
    (value : Word) (input : Input σ) :
    Bounded program { m with memory := m.memory.set target value, pc := next, input := input } :=
  have hsize := h.size
  { h with
    size := by simp only [Memory.size_set]; omega
    pc := by simp only [Memory.size_set]; omega }

end Bounded

end Machine

variable [Source σ]

namespace History

/-- **Memory has the size that its history gives it.** -/
theorem sized (image size : Nat) : Kept fun (past : History σ) m =>
    m.program.image.size = image ∧ m.memory.size = past.extent image size where
  step := by
    intro past m changes result hdoes ⟨hprogram, hsize⟩
    cases hdoes with
    | reads _ _ hreads =>
      cases hreads with
      | takes | asks => simp [hprogram, Memory.size_set_eq_ite, Change.extent, hsize]
      | asksInVain => simp [hprogram, Change.extent, hsize]
      | starves => simp [hprogram, hsize]
    | stores => simp [hprogram, Memory.size_set_eq_ite, Change.extent, hsize]
    | fails | emits | jumps | passes | rebases | halts => simp [hprogram, hsize]
  resume _ h := h
  stop _ _ h := h
  reset inputs h := by simpa [Change.extent, Machine.reset, Memory.size] using h.1
  append value h := by simpa [Change.extent, Machine.append] using h
  withSource source h := by simpa [Change.extent, Machine.withSource] using h
  poke value _ h := by simp [h.1, Memory.size_set_eq_ite, Change.extent, h.2]

/-- **Neither memory nor program counter gets far**, and no write of an instruction is refused. -/
theorem bounded (program : Program) : Kept fun (_ : History σ) m => m.Bounded program where
  step := by
    intro past m changes result hdoes h
    cases hdoes with
    | fails | halts => exact h
    | reads hplan hrange hreads =>
      have hnext := next_le_max_of_plan_ok hplan
      cases hreads with
      | takes | asks => exact h.write hrange hnext _ _
      | asksInVain | starves => exact { h with }
    | stores hplan hrange => exact h.write hrange (next_le_max_of_plan_ok hplan) _ _
    | jumps _ hrange => exact { h with pc := Nat.le_trans hrange (Nat.le_max_left ..) }
    | emits hplan | passes hplan | rebases hplan =>
      exact { h with pc := next_le_max_of_plan_ok hplan }
  resume _ h := { h with }
  stop before _ h := { h with
    fault := fun e he => (eq_error_or_of_faultAfter he).elim detail_of_step_error (h.fault e) }
  reset inputs h := { h with
    size := by
      rw [← h.program]
      exact Nat.le_max_left ..
    pc := Nat.zero_le _
    fault _ h := nomatch h }
  append value h := { h with }
  withSource source h := { h with }
  poke value hrange h := h.write hrange h.pc value _

end History

namespace Machine

variable {m : Machine σ}

theorem started_not_mem_operateHistory {patience : Nat} {op : Operation σ} (h : ¬op.Restarts)
    (inputs : List Word) : .started inputs ∉ m.operateHistory patience op := by
  rw [operateHistory, List.mem_append, not_or, List.mem_flatMap]
  constructor
  · cases op with
    | reset | runToCompletion => exact absurd trivial h
    | poke address value =>
      cases hrefused : Memory.refusal? address <;> simp [ownChanges, hrefused]
    | append | peek | withSource | execute | nextOutput | runToHalt => simp [ownChanges]
  · rintro ⟨visited, -, hmem⟩
    exact visited.started_not_mem_changes inputs hmem

/-- Unless it is started over, nothing in a machine's history starts it over. -/
theorem started_not_mem_history {patience : Nat} {ops : List (Operation σ)}
    (h : ∀ op ∈ ops, ¬op.Restarts) (inputs : List Word) :
    .started inputs ∉ m.history patience ops := by
  induction ops generalizing m with
  | nil => exact List.not_mem_nil
  | cons op ops ih =>
    rw [history, List.mem_append, not_or]
    exact ⟨started_not_mem_operateHistory (h op List.mem_cons_self) inputs,
      ih fun op hop => h op (List.mem_cons_of_mem _ hop)⟩

/-- **Memory and program counter stay within bounds.**  In any session memory ends within the
address limit or with the program, and the program counter stands within that limit or right behind
memory.  However the session goes on, memory has the size that its history gives it, and gets
smaller only when the machine is started over; a failing instruction leaves it alone.  The next
instruction begins in memory, so no address that is computed from the program counter is too large
for 64 bits.  None of its writes is refused, and no execution fails with such a refusal. -/
theorem memory_bounded (program : Program) (patience : Nat) (ops : List (Operation σ)) :
    let last := (session patience ops (create program)).2
    last.memory.size ≤ max program.image.size (maxAddress + 1) ∧
      last.pc ≤ max maxAddress (last.memory.size + 3) ∧
      (∀ more, let later := (session patience more last).2
        later.memory.size =
            (history patience more last).extent program.image.size last.memory.size ∧
          ((∀ op ∈ more, ¬op.Restarts) → last.memory.size ≤ later.memory.size)) ∧
      (∀ e after, last.step = (.error e, after) → after.memory = last.memory) ∧
      (∀ i, last.instruction = .ok i →
        last.pc < last.memory.size ∧ last.pc + i.opcode.width ≤ last.memory.size + 3 ∧
          (∀ k < 3, last.pc + k + 1 ≤ last.memory.size + 3) ∧
          (program.image.size < 2 ^ 63 / 8 → last.memory.size + 3 < 2 ^ 64)) ∧
      (∀ op action target, last.plan = .ok (op, action) →
        (action = .receive target ∨ ∃ value, action = .store target value) →
          Memory.refusal? target = none) ∧
      ∀ budget e, (last.execute budget).1 = .error e → e.detail ≠ "BEYOND MEMORY LIMIT" := by
  intro last
  have hlast : last.Bounded program :=
    (History.bounded program).session patience ops [] (.of_create program)
  -- memory may be longer than the last address only as far as the program is
  have hlimit : maxAddress < 2 ^ 63 / 8 := by decide
  refine ⟨hlast.size, hlast.pc, fun more => ?_, fun _ _ => memory_of_step_error, fun i hi => ?_,
    fun _ _ _ => refusal?_of_plan_ok, fun budget e he => ?_⟩
  · have hsized := ((History.sized program.image.size last.memory.size).session patience more
      [] ⟨by rw [hlast.program], rfl⟩).2
    rw [List.nil_append] at hsized
    refine ⟨hsized, fun hmore => ?_⟩
    rw [hsized]
    exact History.le_extent _ _ (started_not_mem_history hmore)
  · have hpc := pc_lt_size hi
    have hsize := hlast.size
    exact ⟨hpc, next_le hi, fun k hk => by omega, fun hprogram => by omega⟩
  · have hafter := (History.bounded program).execute budget [] hlast
    obtain _ | ⟨-, rfl⟩ := stopped_of_execute (Prod.ext he rfl)
    cases hfault : (last.execute budget).2.fault with
    | none => exact of_decide_eq_true rfl
    | some cause => exact hafter.fault cause hfault

/-- A program whose second instruction adds two numbers into a cell behind memory, and a patch
further on. -/
theorem memory_bounded_add :
    let program : Program := ⟨([109, 0, 1101, 1, 2, 20, 99].map Word.wrap).toArray⟩
    let last : Machine Empty := (session 1 [.execute 1] (create program)).2
    let later : Machine Empty := (session 1 [.execute 1, .poke 30 (.wrap 7), .peek 40] last).2
    last.memory.size = 7 ∧ last.pc < last.memory.size ∧ last.memory.size + 3 < 2 ^ 64 ∧
      Memory.refusal? 20 = none ∧ last.memory.size ≤ later.memory.size ∧
      later.memory.size = 31 := by
  obtain ⟨-, -, hmore, -, hnext, hwrite, -⟩ := memory_bounded
    ⟨([109, 0, 1101, 1, 2, 20, 99].map Word.wrap).toArray⟩ 1 ([.execute 1] : List (Operation Empty))
  obtain ⟨hpc, -, -, haddress⟩ := hnext ⟨.add, Fields.ofWord (.wrap 1101)⟩ rfl
  exact ⟨rfl, hpc, haddress (by decide), hwrite .add (.store 20 (.wrap 3)) 20 rfl (.inr ⟨_, rfl⟩),
    (hmore _).2 (by simp [Operation.Restarts]), rfl⟩

end Machine

end Intcode
