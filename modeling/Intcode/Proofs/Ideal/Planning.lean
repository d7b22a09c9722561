import Intcode.Proofs.Ideal.Resolution

/-!
# Proofs/Ideal/Planning — the action of an instruction is the ideal step

An instruction is worked out before anything changes, and `Machine.plan` is what comes of that.
`Machine.plan_meets` says that it fails with the first of the obstacles that lie before the input,
and that the action it gives else **carries out** the ideal step: performed in exact arithmetic
(`Action.effect`) it is the instruction table's, and no address in it is beyond the last one.
-/

namespace Intcode

open Obstacle (require)

/-! ## Actions in exact arithmetic -/

namespace Action

/-- What performing an action comes to on the ideal machine; `next` is the address behind the
instruction. -/
def effect (i : Ideal) (next : Nat) : Action → Ideal.Event × Ideal
  | .store target value =>
    (.running, { i with memory := Function.update i.memory target value.toInt, pc := next })
  | .receive target =>
    (.running, { i with
      memory := Function.update i.memory target (i.queue.headD 0)
      pc := next
      queue := i.queue.tail })
  | .emit value => (.output value.toInt, i.goto next)
  | .jump target => (.running, i.goto target)
  | .pass => (.running, i.goto next)
  | .rebase base => (.running, { i with base := base.toInt, pc := next })
  | .halt => (.halted, i)

/-- Every address in the action is one that a program may touch. -/
def InRange : Action → Prop
  | .store target _ | .receive target | .jump target => target ≤ maxAddress
  | .emit _ | .pass | .rebase _ | .halt => True

/-- Whether the action takes a word from the input. -/
def receives : Action → Bool
  | .receive _ => true
  | .store .. | .emit _ | .jump _ | .pass | .rebase _ | .halt => false

/-- **The action carries out an instruction of the ideal machine.** -/
structure CarriesOut (a : Action) (i : Ideal) (op : Opcode) : Prop where
  inRange : a.InRange
  receives : a.receives = true ↔ op = .read
  effect : a.effect i (i.pc + op.width) = i.step

/-- An instruction other than `READ` has an action that takes nothing from the input. -/
theorem CarriesOut.of_ne_read {a : Action} {i : Ideal} {op : Opcode} (hop : op ≠ .read)
    (hrange : a.InRange) (hreceives : a.receives = false)
    (heffect : a.effect i (i.pc + op.width) = i.step) : a.CarriesOut i op where
  inRange := hrange
  receives := iff_of_false (by rw [hreceives]; decide) hop
  effect := heffect

theorem effect_store {i : Ideal} {k target : Nat} {value : Word} {x : Int} (next : Nat)
    (htarget : (target : Int) = (i.operand k).address) (hvalue : value.toInt = x) :
    (Action.store target value).effect i next = (.running, (i.put k x).goto next) := by
  simp only [effect, Ideal.put, Ideal.goto, ← htarget, hvalue, Int.toNat_natCast]

theorem effect_receive {i : Ideal} {k target : Nat} (next : Nat)
    (htarget : (target : Int) = (i.operand k).address) :
    (Action.receive target).effect i next =
      (.running, { i.put k (i.queue.headD 0) with pc := next, queue := i.queue.tail }) := by
  simp only [effect, Ideal.put, ← htarget, Int.toNat_natCast]

end Action

namespace Word

/-- The gate through which a result passes is its obstacle. -/
theorem ofInt?_obstacles (x : Int) (o : Obstacle) :
    (require (IsWord x) o = [] ∧ ∃ w, ofInt? x = some w ∧ w.toInt = x) ∨
      (require (IsWord x) o = [o] ∧ ofInt? x = none) := by
  by_cases hx : IsWord x
  · exact .inl ⟨if_pos hx, ⟨x, hx.1, hx.2⟩, dif_pos hx, rfl⟩
  · exact .inr ⟨if_neg hx, dif_neg hx⟩

theorem toInt_ofBool (b : Bool) : (ofBool b).toInt = if b then 1 else 0 := by
  cases b <;> rfl

end Word

namespace Machine

variable {σ : Type} (m : Machine σ)

/-! ## The operands of the next instruction -/

/-- The operands of the instruction that the machine stands in front of. -/
def nextOperands : Operands := m.operands (Fields.ofWord (m.memory.read m.pc))

theorem exact_nextOperands {k : Nat} (hk : k < 3) : m.nextOperands.exact k = m.ideal.operand k :=
  congrArg (fun d => ExactOperand.mk d _ _) (Fields.val_digit_ofWord _ hk)

theorem value_meets {k : Nat} (hk : k < 3) :
    Meets m.pc (m.ideal.operand k).sourceObstacles (m.nextOperands.value k)
      fun w => w.toInt = m.ideal.value k := by
  rw [Ideal.value, ← m.exact_nextOperands hk]
  exact m.nextOperands.value_meets k

theorem target_meets {k : Nat} (hk : k < 3) :
    Meets m.pc (m.ideal.operand k).targetObstacles (m.nextOperands.target k)
      fun a => a ≤ maxAddress ∧ (a : Int) = (m.ideal.operand k).address := by
  rw [← m.exact_nextOperands hk]
  exact m.nextOperands.target_meets k

theorem pair_meets :
    Meets m.pc ((m.ideal.operand 0).sourceObstacles ++ (m.ideal.operand 1).sourceObstacles)
      m.nextOperands.pair fun p => p.1.toInt = m.ideal.value 0 ∧ p.2.toInt = m.ideal.value 1 :=
  (m.value_meets (by decide)).bind fun _ ha =>
    (m.value_meets (by decide)).map fun _ hb => ⟨ha, hb⟩

/-! ## Instructions of one kind -/

/-- **A result of two operands is put at the third**, unless it is no word. -/
theorem combine_meets (op : Opcode) (x : Int) {result : Word → Word → Option Word}
    {l : List Obstacle} (hop : op ≠ .read)
    (hstep : m.ideal.step = (.running, (m.ideal.put 2 x).goto (m.pc + op.width)))
    (hresult : ∀ a b : Word, a.toInt = m.ideal.value 0 → b.toInt = m.ideal.value 1 →
      (l = [] ∧ ∃ w, result a b = some w ∧ w.toInt = x) ∨
        (l = [.noResult op] ∧ result a b = none)) :
    Meets m.pc
      ((m.ideal.operand 0).sourceObstacles ++ (m.ideal.operand 1).sourceObstacles ++
        (m.ideal.operand 2).targetObstacles ++ l)
      (m.nextOperands.combine op result) fun a => a.CarriesOut m.ideal op := by
  rw [List.append_assoc]
  refine m.pair_meets.bind fun p hp => (m.target_meets (by decide)).bind fun t ht => ?_
  obtain ⟨rfl, w, hw, hx⟩ | ⟨rfl, hnone⟩ := hresult p.1 p.2 hp.1 hp.2
  · rw [hw]
    exact .ok (.of_ne_read hop ht.1 rfl ((Action.effect_store _ ht.2 hx).trans hstep.symm))
  · rw [hnone]
    exact .error ⟨rfl, rfl, rfl, rfl⟩

/-- **A jump leads to the second operand if the first is as wanted**, and only then does that have
to be an address. -/
theorem branch_meets (op : Opcode) {wanted : Word → Bool} (c : Int → Prop) [DecidablePred c]
    (hop : op ≠ .read)
    (hstep : m.ideal.step = (.running, m.ideal.goto
      (if c (m.ideal.value 0) then (m.ideal.value 1).toNat else m.pc + op.width)))
    (hwanted : ∀ a, wanted a = true ↔ c a.toInt) :
    Meets m.pc
      ((m.ideal.operand 0).sourceObstacles ++ (m.ideal.operand 1).sourceObstacles ++
        require (c (m.ideal.value 0) → IsAddress (m.ideal.value 1)) (.noAddress (m.ideal.value 1)))
      (m.nextOperands.branch wanted) fun a => a.CarriesOut m.ideal op := by
  refine m.pair_meets.bind fun p hp => ?_
  by_cases hc : c (m.ideal.value 0)
  · have hw : wanted p.1 = true := (hwanted p.1).mpr (hp.1 ▸ hc)
    have ha := m.nextOperands.address_meets p.2
    rw [hp.2] at ha
    simp only [hw, hc, forall_const, if_true]
    refine ha.map fun t ht => .of_ne_read hop ht.1 rfl (hstep ▸ ?_)
    rw [if_pos hc, ← ht.2, Int.toNat_natCast]
    rfl
  · have hw : ¬wanted p.1 = true := fun h => hc (hp.1 ▸ (hwanted p.1).mp h)
    simp only [hw, hc, false_imp_iff, require, if_true]
    exact .ok (.of_ne_read hop trivial rfl (hstep ▸ by rw [if_neg hc]; rfl))

/-! ## All instructions -/

theorem operandObstacles_of_sources {i : Ideal} {op : Opcode} (h : op.sources = [0, 1]) :
    i.operandObstacles op = (i.operand 0).sourceObstacles ++ (i.operand 1).sourceObstacles ++
      op.target?.elim [] fun k => (i.operand k).targetObstacles := by
  rw [Ideal.operandObstacles, h, List.flatMap_cons, List.flatMap_singleton]

theorem operandObstacles_of_source {i : Ideal} {op : Opcode} (h : op.sources = [0])
    (htarget : op.target? = none) : i.operandObstacles op = (i.operand 0).sourceObstacles := by
  rw [Ideal.operandObstacles, h, htarget, List.flatMap_singleton, Option.elim_none, List.append_nil]

/-- **The action of an instruction carries it out**, behind the obstacles of its operands and of its
result. -/
theorem action_meets {op : Opcode} (hop : m.ideal.opcode? = some op) :
    Meets m.pc (m.ideal.operandObstacles op ++ m.ideal.resultObstacles op)
      (m.nextOperands.action op) fun a => a.CarriesOut m.ideal op := by
  cases op with
  | add =>
    rw [operandObstacles_of_sources rfl]
    refine m.combine_meets .add (m.ideal.value 0 + m.ideal.value 1) (by decide)
      (by rw [Ideal.step, hop]; rfl) fun a b ha hb => ?_
    rw [Ideal.resultObstacles, ← ha, ← hb]
    exact Word.ofInt?_obstacles _ _
  | mul =>
    rw [operandObstacles_of_sources rfl]
    refine m.combine_meets .mul (m.ideal.value 0 * m.ideal.value 1) (by decide)
      (by rw [Ideal.step, hop]; rfl) fun a b ha hb => ?_
    rw [Ideal.resultObstacles, ← ha, ← hb]
    exact Word.ofInt?_obstacles _ _
  | less =>
    rw [operandObstacles_of_sources rfl, Operands.action]
    refine m.combine_meets .less (if m.ideal.value 0 < m.ideal.value 1 then 1 else 0) (by decide)
      (by rw [Ideal.step, hop]; rfl) fun a b ha hb => ?_
    refine .inl ⟨rfl, _, rfl, ?_⟩
    rw [Word.toInt_ofBool, ha, hb]
    simp only [decide_eq_true_eq]
  | equals =>
    rw [operandObstacles_of_sources rfl, Operands.action]
    refine m.combine_meets .equals (if m.ideal.value 0 = m.ideal.value 1 then 1 else 0) (by decide)
      (by rw [Ideal.step, hop]; rfl) fun a b ha hb => ?_
    refine .inl ⟨rfl, _, rfl, ?_⟩
    rw [Word.toInt_ofBool, ← ha, ← hb]
    simp only [decide_eq_true_eq, Word.ext_iff]
  | read =>
    rw [Ideal.operandObstacles, Ideal.resultObstacles, List.append_nil]
    refine (m.target_meets (by decide)).map fun t ht => ⟨ht.1, iff_of_true rfl rfl, ?_⟩
    rw [Action.effect_receive _ ht.2, Ideal.step, hop]
    rfl
  | write =>
    rw [operandObstacles_of_source rfl rfl, Ideal.resultObstacles, List.append_nil]
    refine (m.value_meets (by decide)).map fun w hw => .of_ne_read (by decide) trivial rfl ?_
    rw [Action.effect, hw, Ideal.step, hop]
    rfl
  | jumpIfTrue =>
    rw [operandObstacles_of_sources rfl, Opcode.target?, Option.elim_none, List.append_nil,
      Operands.action]
    refine m.branch_meets .jumpIfTrue (· ≠ 0) (by decide) (by rw [Ideal.step, hop]; rfl) fun a => ?_
    simp [Word.ext_iff]
  | jumpIfFalse =>
    rw [operandObstacles_of_sources rfl, Opcode.target?, Option.elim_none, List.append_nil,
      Operands.action]
    refine m.branch_meets .jumpIfFalse (· = 0) (by decide) (by rw [Ideal.step, hop]; rfl) fun a => ?_
    simp [Word.ext_iff]
  | adjustBase =>
    rw [operandObstacles_of_source rfl rfl]
    refine (m.value_meets (by decide)).bind fun w hw => ?_
    have hbase : m.nextOperands.base.toInt + w.toInt = m.ideal.base + m.ideal.value 0 :=
      congrArg (m.ideal.base + ·) hw
    rw [Ideal.resultObstacles, Word.add?, hbase]
    obtain ⟨hl, base, hsome, hx⟩ | ⟨hl, hnone⟩ :=
      Word.ofInt?_obstacles (m.ideal.base + m.ideal.value 0) .noBase
    · rw [hl, hsome]
      refine .ok (.of_ne_read (by decide) trivial rfl ?_)
      rw [Action.effect, hx, Ideal.step, hop]
      rfl
    · rw [hl, hnone]
      exact .error ⟨rfl, rfl, rfl, rfl⟩
  | exit =>
    refine .ok (.of_ne_read (by decide) trivial rfl ?_)
    rw [Ideal.step, hop]
    rfl

/-- **A plan meets the obstacles before the input**: it fails with the first, or else its action
carries out the instruction. -/
theorem plan_meets :
    Meets m.pc m.ideal.planObstacles m.plan
      fun p => m.ideal.opcode? = some p.1 ∧ p.2.CarriesOut m.ideal p.1 := by
  have hcode := m.opcode?_ideal
  unfold plan instruction Instruction.decode
  rw [Ideal.planObstacles]
  split
  next hnone =>
    rw [← hcode, hnone]
    exact .error ⟨rfl, rfl, rfl, rfl⟩
  next op hop =>
    rw [← hcode, hop]
    exact (m.action_meets hop).map fun a ha => ⟨rfl, ha⟩

end Machine

end Intcode
