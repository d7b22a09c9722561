import Intcode.Proofs.Ideal

/-!
# Proofs/Ideal/Decoding — the digits of an instruction word

A word is split into its digits by way of `Fin`, and the code is looked up by a `match`.  Both are
what exact arithmetic makes of the word:

* `Fields.val_code_ofWord` and `Fields.val_digit_ofWord` — code and mode digits as quotients and
  remainders of the word;
* `Opcode.ofCode?_eq_find?` — the code is looked up in the list of the instructions.
-/

namespace Intcode

/-- **The instruction with a code is the one in the list whose code it is.** -/
theorem Opcode.ofCode?_eq_find? (c : Int) : ofCode? c = all.find? fun op => op.code = c := by
  unfold ofCode?
  split
  case h_11 =>
    symm
    rw [List.find?_eq_none]
    intro op _
    rw [decide_eq_true_eq]
    rintro rfl
    cases op <;> contradiction
  all_goals rfl

namespace Fields

/-- **The code is the remainder by a hundred**, which is never negative. -/
theorem val_code_ofWord (w : Word) : ((ofWord w).code.val : Int) = w.toInt % 100 := by
  have hlt : (w.toInt % 100).toNat < 100 := by omega
  rw [ofWord, Fin.val_ofNat, Nat.mod_eq_of_lt hlt]
  omega

/-- The digits are cut off the quotient by a hundred, or off zero if that is negative. -/
theorem val_digit_ofWord (w : Word) {k : Nat} (hk : k < 3) :
    (((ofWord w).digit k).val : Int) =
      if w.toInt < 0 then 0 else w.toInt / 10 ^ (k + 2) % 10 := by
  obtain rfl | rfl | rfl : k = 0 ∨ k = 1 ∨ k = 2 := by omega
  all_goals
    simp only [digit, ofWord, Fin.val_ofNat]
    split <;> omega

end Fields

namespace Machine

variable {σ : Type} (m : Machine σ)

theorem opcode?_ideal :
    m.ideal.opcode? = Opcode.ofCode? (Fields.ofWord (m.memory.read m.pc)).code.val := by
  rw [Opcode.ofCode?_eq_find?, Fields.val_code_ofWord]
  rfl

end Machine

end Intcode
