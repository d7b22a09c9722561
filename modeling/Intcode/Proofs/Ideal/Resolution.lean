import Intcode.Proofs.Ideal.Decoding

/-!
# Proofs/Ideal/Resolution — operands, resolved against their obstacles

`Meets` is what a computation that may fail owes to a list of obstacles: the error of the first one,
and a result if there is none.  Obstacles of computations in sequence are appended (`Meets.bind`),
so an instruction is proved piece by piece:

* `Operands.value_meets` — the value of an operand that is read;
* `Operands.target_meets` — the address of a destination, which is never beyond the last one.
-/

namespace Intcode

open Obstacle (require)

/-- **The computation meets the obstacles**: it fails with an error that tells of the first one, or,
if there is none, gives a result as wanted. -/
def Meets {α : Type} (pc : Nat) (obstacles : List Obstacle) (x : Except Error α)
    (wanted : α → Prop) : Prop :=
  match obstacles with
  | [] => ∃ a, x = .ok a ∧ wanted a
  | o :: _ => ∃ e, x = .error e ∧ o.Tells pc e

namespace Meets

variable {α β : Type} {pc : Nat} {l l' : List Obstacle} {x : Except Error α} {P : α → Prop}
  {Q : β → Prop}

theorem ok {a : α} (h : P a) : Meets pc [] (.ok a) P := ⟨a, rfl, h⟩

theorem error {o : Obstacle} {e : Error} (h : o.Tells pc e) : Meets pc (o :: l) (.error e) P :=
  ⟨e, rfl, h⟩

/-- **Obstacles met one after the other are appended.** -/
theorem bind {f : α → Except Error β} (hx : Meets pc l x P)
    (hf : ∀ a, P a → Meets pc l' (f a) Q) : Meets pc (l ++ l') (x >>= f) Q := by
  cases l with
  | nil =>
    obtain ⟨a, rfl, ha⟩ := hx
    exact hf a ha
  | cons o l =>
    obtain ⟨e, rfl, ho⟩ := hx
    exact error ho

/-- A result that is only passed on brings no obstacle of its own. -/
theorem map {f : α → β} (hx : Meets pc l x P) (hf : ∀ a, P a → Q (f a)) :
    Meets pc l (x >>= fun a => pure (f a)) Q := by
  have h : Meets pc (l ++ []) (x >>= fun a => pure (f a)) Q := hx.bind fun a ha => ok (hf a ha)
  rwa [List.append_nil] at h

/-- A single check: the result if it holds, and the obstacle's error if not. -/
theorem of_require {c : Prop} [Decidable c] {o : Obstacle} (hok : c → Meets pc [] x P)
    (herror : ¬c → ∃ e, x = .error e ∧ o.Tells pc e) : Meets pc (require c o) x P := by
  unfold require
  split
  next hc => exact hok hc
  next hc => exact herror hc

/-- An error tells of one of the obstacles. -/
theorem exists_of_error {e : Error} (hx : Meets pc l x P) (h : x = .error e) :
    ∃ o ∈ l, o.Tells pc e := by
  cases l with
  | nil =>
    obtain ⟨a, ha, _⟩ := hx
    rw [h] at ha
    cases ha
  | cons o l =>
    obtain ⟨e', he, ho⟩ := hx
    rw [h] at he
    cases he
    exact ⟨o, List.mem_cons_self, ho⟩

/-- A result means that there was no obstacle, and it is as wanted. -/
theorem of_ok {a : α} (hx : Meets pc l x P) (h : x = .ok a) : l = [] ∧ P a := by
  cases l with
  | nil =>
    obtain ⟨b, hb, hP⟩ := hx
    rw [h] at hb
    cases hb
    exact ⟨rfl, hP⟩
  | cons o l =>
    obtain ⟨e, he, _⟩ := hx
    rw [h] at he
    cases he

end Meets

/-! ## Modes -/

/-- The digit of a mode. -/
def Mode.digit : Mode → Int
  | .position => 0
  | .immediate => 1
  | .relative => 2

theorem Mode.ofDigit?_digit (mode : Mode) : ofDigit? mode.digit = some mode := by
  cases mode <;> rfl

theorem Mode.digit_of_ofDigit? {d : Int} {mode : Mode} (h : ofDigit? d = some mode) :
    mode.digit = d := by
  unfold ofDigit? at h
  split at h <;> cases h <;> rfl

theorem Mode.ofDigit?_eq_none_iff {d : Int} :
    ofDigit? d = none ↔ ¬(d = 0 ∨ d = 1 ∨ d = 2) := by
  constructor
  · rintro h (rfl | rfl | rfl) <;> cases h
  · intro h
    unfold ofDigit?
    split <;> first | rfl | exact absurd (by decide) h

namespace ExactOperand

variable {o : ExactOperand}

theorem address_of_position (h : o.digit = 0) : o.address = o.raw :=
  if_neg (by rw [h]; decide)

theorem address_of_relative (h : o.digit = 2) : o.address = o.raw + o.base := if_pos h

theorem value_of_immediate (h : o.digit = 1) (memory : Nat → Int) : o.value memory = o.raw :=
  if_pos h

theorem value_of_ne_immediate (h : o.digit ≠ 1) (memory : Nat → Int) :
    o.value memory = memory o.address.toNat :=
  if_neg h

theorem addressObstacles_of_position (h : o.digit = 0) :
    o.addressObstacles = require (IsAddress o.address) (.noAddress o.address) := by
  simp [addressObstacles, require, h]

theorem addressObstacles_of_immediate (h : o.digit = 1) : o.addressObstacles = [] := by
  simp [addressObstacles, require, h]

theorem addressObstacles_of_relative (h : o.digit = 2) :
    o.addressObstacles = require (IsWord o.address) .noRelativeAddress ++
      require (IsAddress o.address) (.noAddress o.address) := by
  simp [addressObstacles, require, h]

end ExactOperand

/-! ## Operands -/

namespace Operands

variable (ops : Operands) (k : Nat)

/-- An operand in exact arithmetic. -/
def exact : ExactOperand := ⟨(ops.fields.digit k).val, (ops.raw k).toInt, ops.base.toInt⟩

theorem mode_meets :
    Meets ops.pc (ops.exact k).modeObstacles (ops.mode k)
      fun mode => (ops.exact k).digit = mode.digit := by
  unfold mode Fields.mode?
  cases h : Mode.ofDigit? (ops.fields.digit k).val with
  | some mode =>
    have hd : (ops.exact k).digit = mode.digit := (Mode.digit_of_ofDigit? h).symm
    refine Meets.of_require (fun _ => .ok hd) fun hno => ?_
    rw [← Mode.ofDigit?_eq_none_iff, hd, Mode.ofDigit?_digit] at hno
    cases hno
  | none =>
    refine Meets.of_require (fun hd => absurd hd (Mode.ofDigit?_eq_none_iff.mp h)) fun _ => ?_
    exact ⟨_, rfl, rfl, rfl, rfl, rfl⟩

/-- **A word is an address exactly if its integer is in range**, and else the error says which word
it was. -/
theorem address_meets (w : Word) :
    Meets ops.pc (require (IsAddress w.toInt) (.noAddress w.toInt)) (ops.address w)
      fun a => a ≤ maxAddress ∧ (a : Int) = w.toInt := by
  unfold address
  split
  next a h =>
    unfold Memory.address at h
    split at h
    next hw =>
      cases h
      have ha : (w.toInt.toNat : Int) = w.toInt := Int.toNat_of_nonneg hw.1
      exact Meets.of_require (fun _ => .ok ⟨by omega, ha⟩) fun hno => absurd hw hno
    next => cases h
  next e h =>
    unfold Memory.address at h
    split at h
    next => cases h
    next hw =>
      cases h
      exact Meets.of_require (fun hyes => absurd hyes hw) fun _ => ⟨_, rfl, rfl, rfl, rfl, rfl⟩

/-- An operand in position mode names the address that it is. -/
theorem position_meets (h : (ops.exact k).digit = 0) :
    Meets ops.pc (ops.exact k).addressObstacles (ops.address (ops.raw k))
      fun a => a ≤ maxAddress ∧ (a : Int) = (ops.exact k).address := by
  rw [ExactOperand.addressObstacles_of_position h, ExactOperand.address_of_position h]
  exact ops.address_meets (ops.raw k)

/-- An operand in relative mode names its sum with the base, which has to be a word first. -/
theorem relative_meets (h : (ops.exact k).digit = 2) :
    Meets ops.pc (ops.exact k).addressObstacles (ops.relative (ops.raw k))
      fun a => a ≤ maxAddress ∧ (a : Int) = (ops.exact k).address := by
  have haddress : (ops.exact k).address = (ops.raw k).toInt + ops.base.toInt :=
    ExactOperand.address_of_relative h
  rw [ExactOperand.addressObstacles_of_relative h, haddress, relative]
  cases hsum : (ops.raw k).add? ops.base with
  | some w =>
    rw [← Word.toInt_of_ofInt? hsum, require, if_pos ⟨w.le_toInt, w.toInt_le⟩]
    exact ops.address_meets w
  | none =>
    have hno : ¬IsWord ((ops.raw k).toInt + ops.base.toInt) := by
      have := Word.ofInt?_eq_none_iff.mp hsum
      unfold IsWord
      omega
    rw [require, if_neg hno]
    exact .error ⟨rfl, rfl, rfl, rfl⟩

/-- **The value of an operand is the exact one**, behind the obstacles of an operand that is
read. -/
theorem value_meets :
    Meets ops.pc (ops.exact k).sourceObstacles (ops.value k)
      fun w => w.toInt = (ops.exact k).value fun a => (ops.memory.read a).toInt := by
  refine (ops.mode_meets k).bind fun mode hmode => ?_
  cases mode with
  | position =>
    refine (ops.position_meets k hmode).map fun a ha => ?_
    rw [ExactOperand.value_of_ne_immediate (by rw [hmode]; decide), ← ha.2]
    rfl
  | immediate =>
    rw [ExactOperand.addressObstacles_of_immediate hmode]
    exact .ok (ExactOperand.value_of_immediate hmode _).symm
  | relative =>
    refine (ops.relative_meets k hmode).map fun a ha => ?_
    rw [ExactOperand.value_of_ne_immediate (by rw [hmode]; decide), ← ha.2]
    rfl

/-- **A destination is the exact address**, behind the obstacles of a destination. -/
theorem target_meets :
    Meets ops.pc (ops.exact k).targetObstacles (ops.target k)
      fun a => a ≤ maxAddress ∧ (a : Int) = (ops.exact k).address := by
  rw [ExactOperand.targetObstacles, List.append_assoc]
  refine (ops.mode_meets k).bind fun mode hmode => ?_
  cases mode with
  | position =>
    rw [require, if_pos (by rw [hmode]; decide)]
    exact ops.position_meets k hmode
  | immediate =>
    rw [require, if_neg (fun h : (ops.exact k).digit ≠ 1 => h hmode)]
    exact .error ⟨rfl, rfl, rfl, rfl⟩
  | relative =>
    rw [require, if_pos (by rw [hmode]; decide)]
    exact ops.relative_meets k hmode

end Operands

end Intcode
