import Intcode.Proofs.Lockstep

/-!
# Proofs/Likeness — machines that differ only in where their memory ends

A cell that memory does not have reads as zero, so where memory ends is nothing that a program can
see.  Machines are **alike** if they agree in everything but that, and in which program they would
start over from: they do the same, and are alike afterwards.

* `Machine.Alike.plan_eq` — the same instruction asks for the same action;
* `Machine.Alike.lockstep` — so one instruction goes likewise, and so do runs of many;
* `Machine.Alike.session` — whatever their owners do, who start them over only from programs that
  are alike themselves.
-/

namespace Intcode

/-- Memories are alike if every address reads the same in both. -/
def Memory.Alike (memory other : Memory) : Prop :=
  ∀ address, memory.read address = other.read address

theorem Memory.Alike.set {memory other : Memory} (h : memory.Alike other) (address : Nat)
    (value : Word) : (memory.set address value).Alike (other.set address value) := by
  intro b
  rw [read_set, read_set, h b]

/-- Programs are alike if they fill memory alike. -/
def Program.Alike (program other : Program) : Prop :=
  Memory.Alike ⟨program.image⟩ ⟨other.image⟩

/-! ## One instruction -/

namespace Operands

/-- The operands of the same instruction in another memory. -/
def inMemory (ops : Operands) (memory : Memory) : Operands := { ops with memory := memory }

variable {ops : Operands} {memory : Memory}

theorem read_inMemory (h : ops.memory.Alike memory) :
    (ops.inMemory memory).memory.read = ops.memory.read :=
  funext fun address => (h address).symm

theorem raw_inMemory (h : ops.memory.Alike memory) (k : Nat) :
    (ops.inMemory memory).raw k = ops.raw k :=
  (h _).symm

theorem value_inMemory (h : ops.memory.Alike memory) (k : Nat) :
    (ops.inMemory memory).value k = ops.value k := by
  rw [value, value, raw_inMemory h, read_inMemory h]
  rfl

theorem target_inMemory (h : ops.memory.Alike memory) (k : Nat) :
    (ops.inMemory memory).target k = ops.target k := by
  rw [target, target, raw_inMemory h]
  rfl

/-- **Operands ask for the same action in every memory that is alike.** -/
theorem action_inMemory (h : ops.memory.Alike memory) (op : Opcode) :
    (ops.inMemory memory).action op = ops.action op := by
  have hpair : (ops.inMemory memory).pair = ops.pair := by simp only [pair, value_inMemory h]
  have hcombine : (ops.inMemory memory).combine = ops.combine := by
    funext opcode result
    rw [combine, combine, hpair, target_inMemory h]
    rfl
  have hbranch : (ops.inMemory memory).branch = ops.branch := by
    funext wanted
    rw [branch, branch, hpair]
    rfl
  -- opcodes of one family differ in what `combine` and `branch` leave open, not in their operands
  cases op with
  | add | mul | less | equals => simp only [action, hcombine]
  | jumpIfTrue | jumpIfFalse => simp only [action, hbranch]
  | read => simp only [action, target_inMemory h]
  | write => simp only [action, value_inMemory h]
  | adjustBase =>
    simp only [action, value_inMemory h]
    rfl
  | exit => rfl

end Operands

namespace Machine

variable {σ : Type}

/-- Machines are **alike** if they differ at most in where memory ends, and in their programs. -/
structure Alike (m other : Machine σ) : Prop where
  memory : m.memory.Alike other.memory
  pc : m.pc = other.pc
  base : m.base = other.base
  input : m.input = other.input
  state : m.state = other.state
  fault : m.fault = other.fault

namespace Alike

variable {m other : Machine σ} (h : m.Alike other)
include h

theorem instruction_eq : m.instruction = other.instruction := by
  rw [instruction, instruction, h.memory, h.pc]

/-- **Machines that are alike have the same to do.** -/
theorem plan_eq : m.plan = other.plan := by
  have hoperands (fields : Fields) : other.operands fields =
      (m.operands fields).inMemory other.memory := by
    rw [operands, operands, Operands.inMemory, h.pc, h.base]
  have haction (fields : Fields) (op : Opcode) :
      (other.operands fields).action op = (m.operands fields).action op := by
    rw [hoperands, Operands.action_inMemory h.memory]
  simp only [plan, h.instruction_eq, haction]

theorem withRecord (state : State) (fault : Option Error) :
    (m.withRecord state fault).Alike (other.withRecord state fault) :=
  { h with state := rfl, fault := rfl }

theorem append (value : Word) : (m.append value).Alike (other.append value) :=
  { h with input := congrArg (Input.push · value) h.input }

theorem withSource (source : Option σ) : (m.withSource source).Alike (other.withSource source) :=
  { h with input := congrArg (Input.withSource · source) h.input }

theorem reset (hprogram : m.program.Alike other.program) (inputs : List Word) :
    (m.reset inputs).Alike (other.reset inputs) where
  memory := hprogram
  pc := rfl
  base := rfl
  input := congrArg (Input.reset · inputs) h.input
  state := rfl
  fault := rfl

end Alike

variable [Source σ]

/-- **Machines that are alike go in lockstep**, whatever they change. -/
theorem Alike.lockstep : Lockstep (fun _ => True) (Alike (σ := σ)) where
  pc h := h.pc
  state h := h.state
  fault h := h.fault
  plan h := h.plan_eq
  withRecord state fault h := h.withRecord state fault
  setPc _ h := { h with pc := rfl }
  setBase _ h := { h with base := rfl }
  setMemory address value h := { h with memory := h.memory.set address value }
  pop h _ _ _ := by
    rw [h.input]
    exact ⟨rfl, { h with input := rfl }⟩

namespace Alike

variable {m other : Machine σ} (h : m.Alike other)
include h

theorem nextOutput (patience : Nat) :
    Likewise Alike (m.nextOutput patience) (other.nextOutput patience) :=
  lockstep.nextOutput h patience (fun _ _ => trivial) fun _ _ => trivial

/-! ## Sessions -/

theorem operate (patience : Nat) (op : Operation σ)
    (hprogram : op.Restarts → m.program.Alike other.program) :
    Likewise Alike (m.operate patience op) (other.operate patience op) := by
  cases op with
  | reset inputs => exact ⟨rfl, h.reset (hprogram trivial) inputs⟩
  | append value => exact ⟨rfl, h.append value⟩
  | poke address value => exact (lockstep.poke h address value).map Reply.poked
  | peek address => exact ⟨congrArg Reply.word (h.memory address), h⟩
  | withSource source => exact ⟨rfl, h.withSource source⟩
  | execute | nextOutput | runToHalt =>
    exact lockstep.operate h patience trivial (fun _ _ => trivial) fun _ _ => trivial
  | runToCompletion inputs =>
    have hrun := lockstep.collect (h.reset (hprogram trivial) inputs) patience patience #[]
      (fun _ _ => trivial) fun _ _ => trivial
    exact hrun.map Reply.outputs

/-- **A session goes likewise with machines that are alike**, if it starts them over only from
programs that are alike. -/
theorem session (patience : Nat) (ops : List (Operation σ))
    (hprogram : (∃ op ∈ ops, op.Restarts) → m.program.Alike other.program) :
    Likewise Alike (m.session patience ops) (other.session patience ops) := by
  induction ops generalizing m other with
  | nil => exact ⟨rfl, h⟩
  | cons op ops ih =>
    have hop := h.operate patience op fun hr => hprogram ⟨op, List.mem_cons_self, hr⟩
    -- an operation leaves the programs alone, so what is known of them serves the others too
    have hops := ih hop.snd fun ⟨later, hmem, hr⟩ => by
      rw [program_operate, program_operate]
      exact hprogram ⟨later, List.mem_cons_of_mem op hmem, hr⟩
    exact ⟨congrArg₂ List.cons hop.fst hops.fst, hops.snd⟩

end Alike

end Machine

end Intcode
