import Intcode.Proofs.Ideal.Resolution

/-!
# Proofs/Ideal/Agreement — an operand is read where it would be written

The value of an operand and the address that it names as a destination are worked out apart.  They
agree all the same: unless the operand is immediate, its value is the word at the address, and where
there is no address both fail alike.

* `Operands.value_eq_map_target` — the agreement;
* `Operands.agrees` — what both come to, in exact arithmetic;
* `Operands.values_settle` — several values, or the failure of the first operand that has none;
* `Operands.reading_agrees` — the same of all operands of an instruction.
-/

namespace Intcode

theorem isWord_of_isAddress {x : Int} (h : IsAddress x) : IsWord x := by
  unfold IsAddress maxAddress at h
  unfold IsWord
  omega

namespace ExactOperand

variable {o : ExactOperand}

/-- What is wrong with an address that is out of range: it is no word, or else no address. -/
def addressObstacle (o : ExactOperand) : Obstacle :=
  if IsWord o.address then .noAddress o.address else .noRelativeAddress

theorem targetObstacles_of_addressed (h : o.digit = 0 ∨ o.digit = 2) :
    o.targetObstacles = o.addressObstacles := by
  obtain hdigit | hdigit := h <;> simp [targetObstacles, modeObstacles, Obstacle.require, hdigit]

theorem addressObstacles_of_isAddress (h : IsAddress o.address) : o.addressObstacles = [] := by
  simp [addressObstacles, Obstacle.require, h, isWord_of_isAddress h]

/-- Of two things that are wrong with an address the first is told. -/
theorem addressObstacles_of_not_isAddress (hraw : IsWord o.raw) (hdigit : o.digit = 0 ∨ o.digit = 2)
    (h : ¬IsAddress o.address) : ∃ rest, o.addressObstacles = o.addressObstacle :: rest := by
  unfold addressObstacle
  obtain hdigit | hdigit := hdigit
  · rw [← address_of_position hdigit] at hraw
    rw [addressObstacles_of_position hdigit, Obstacle.require, if_neg h, if_pos hraw]
    exact ⟨[], rfl⟩
  · rw [addressObstacles_of_relative hdigit, Obstacle.require, Obstacle.require, if_neg h]
    split <;> exact ⟨_, rfl⟩

end ExactOperand

namespace Operands

variable {ops : Operands} {k : Nat}

/-! ## One operand -/

theorem mode_eq_ok_iff {mode : Mode} :
    ops.mode k = .ok mode ↔ (ops.exact k).digit = mode.digit := by
  refine ⟨fun h => ((ops.mode_meets k).of_ok h).2, fun h => ?_⟩
  have hmode : ops.fields.mode? k = some mode := by
    rw [Fields.mode?, ← Mode.ofDigit?_digit mode, ← h]
    rfl
  rw [Operands.mode, hmode]

/-- **The value of an operand is the word at the address that it names**, unless it is immediate,
and it has none where it names none, for the same reason. -/
theorem value_eq_map_target (h : (ops.exact k).digit ≠ 1) :
    ops.value k = (ops.target k).map ops.memory.read := by
  unfold value target
  cases hmode : ops.mode k with
  | error e => rfl
  | ok mode =>
    cases mode with
    | position => cases ops.address (ops.raw k) <;> rfl
    | immediate => exact absurd (mode_eq_ok_iff.mp hmode) h
    | relative => cases ops.relative (ops.raw k) <;> rfl

/-- **What reading and writing through an operand come to**, in exact arithmetic. -/
structure Agrees (ops : Operands) (k : Nat) : Prop where
  /-- An operand past the third is in position mode. -/
  beyond : 3 ≤ k → (ops.exact k).digit = 0
  /-- An operand with an address is read there and written there. -/
  inRange : (ops.exact k).digit = 0 ∨ (ops.exact k).digit = 2 → IsAddress (ops.exact k).address →
    ops.target k = .ok (ops.exact k).address.toNat ∧
      ops.value k = .ok (ops.memory.read (ops.exact k).address.toNat)
  /-- With an address that is out of range it is neither read nor written, for one reason. -/
  outOfRange : (ops.exact k).digit = 0 ∨ (ops.exact k).digit = 2 →
    ¬IsAddress (ops.exact k).address →
      ∃ e, ops.target k = .error e ∧ ops.value k = .error e ∧
        (ops.exact k).addressObstacle.Tells ops.pc e
  /-- An immediate operand is its value, and no destination. -/
  immediate : (ops.exact k).digit = 1 → ops.value k = .ok (ops.raw k) ∧
    ∃ e, ops.target k = .error e ∧ (Obstacle.immediateTarget (ops.raw k).toInt).Tells ops.pc e
  /-- Without a mode it is neither read nor written, for one reason. -/
  noMode : ¬((ops.exact k).digit = 0 ∨ (ops.exact k).digit = 1 ∨ (ops.exact k).digit = 2) →
    ∃ e, ops.target k = .error e ∧ ops.value k = .error e ∧
      (Obstacle.noMode (ops.exact k).digit).Tells ops.pc e

theorem agrees (ops : Operands) (k : Nat) : ops.Agrees k where
  beyond hk := by
    obtain ⟨j, rfl⟩ := Nat.exists_eq_add_of_le' hk
    rfl
  inRange hdigit hin := by
    have htarget := ops.target_meets k
    rw [ExactOperand.targetObstacles_of_addressed hdigit,
      ExactOperand.addressObstacles_of_isAddress hin] at htarget
    obtain ⟨address, haddress, -, hexact⟩ := htarget
    rw [value_eq_map_target (by omega), haddress, ← hexact]
    exact ⟨rfl, rfl⟩
  outOfRange hdigit hout := by
    have hraw : IsWord (ops.exact k).raw := ⟨(ops.raw k).le_toInt, (ops.raw k).toInt_le⟩
    obtain ⟨rest, hrest⟩ := ExactOperand.addressObstacles_of_not_isAddress hraw hdigit hout
    have htarget := ops.target_meets k
    rw [ExactOperand.targetObstacles_of_addressed hdigit, hrest] at htarget
    obtain ⟨e, he, htells⟩ := htarget
    rw [value_eq_map_target (by omega), he]
    exact ⟨e, rfl, rfl, htells⟩
  immediate hdigit := by
    have hmode : ops.mode k = .ok .immediate := mode_eq_ok_iff.mpr hdigit
    unfold value target
    rw [hmode]
    exact ⟨rfl, _, rfl, rfl, rfl, rfl, rfl⟩
  noMode hdigit := by
    have hobstacles : (ops.exact k).modeObstacles = [.noMode (ops.exact k).digit] := if_neg hdigit
    have htarget := ops.target_meets k
    rw [ExactOperand.targetObstacles, hobstacles] at htarget
    obtain ⟨e, he, htells⟩ := htarget
    rw [value_eq_map_target (by omega), he]
    exact ⟨e, rfl, rfl, htells⟩

/-! ## Several operands -/

theorem values_succ (ops : Operands) (n : Nat) :
    ops.values (n + 1) = do
      let words ← ops.values n
      let word ← ops.value n
      return words ++ [word] := by
  simp only [values_eq_mapM, List.range_succ, List.mapM_append, List.mapM_cons, List.mapM_nil,
    bind_assoc, pure_bind]

theorem exists_value_of_map {n : Nat} {words : List Word}
    (h : (List.range n).map ops.value = words.map .ok) (hk : k < n) :
    ∃ word, ops.value k = .ok word := by
  have hmem : ops.value k ∈ words.map .ok := h ▸ List.mem_map_of_mem (List.mem_range.mpr hk)
  obtain ⟨word, -, hword⟩ := List.mem_map.mp hmem
  exact ⟨word, hword.symm⟩

/-- **Either each of so many operands has a value, or the first that has none tells why.** -/
theorem values_settle (ops : Operands) (n : Nat) :
    (∃ words, ops.values n = .ok words ∧ (List.range n).map ops.value = words.map .ok) ∨
      ∃ e k, ops.values n = .error e ∧ k < n ∧ ops.value k = .error e ∧
        ∀ j < k, ∃ word, ops.value j = .ok word := by
  induction n with
  | zero => exact .inl ⟨[], rfl, rfl⟩
  | succ n ih =>
    -- the last operand matters only while all before it have a value: a failure stays the first
    rw [values_succ]
    obtain ⟨words, hwords, heach⟩ | ⟨e, k, he, hk, hfails, hbefore⟩ := ih
    · rw [hwords]
      cases hvalue : ops.value n with
      | ok word =>
        refine .inl ⟨words ++ [word], rfl, ?_⟩
        rw [List.range_succ, List.map_append, List.map_append, heach, List.map_singleton, hvalue,
          List.map_singleton]
      | error e =>
        exact .inr ⟨e, n, rfl, Nat.lt_succ_self n, hvalue, fun j hj => exists_value_of_map heach hj⟩
    · rw [he]
      exact .inr ⟨e, k, rfl, Nat.lt_succ_of_lt hk, hfails, hbefore⟩

theorem values_eq_ok_iff {n : Nat} {words : List Word} :
    ops.values n = .ok words ↔ (List.range n).map ops.value = words.map .ok := by
  obtain ⟨found, hfound, heach⟩ | ⟨e, k, he, hk, hfails, -⟩ := ops.values_settle n
  · rw [hfound, heach, Except.ok.injEq, List.map_inj_right fun _ _ => Except.ok.inj]
  · refine ⟨fun h => absurd (he.symm.trans h) nofun, fun h => ?_⟩
    obtain ⟨word, hword⟩ := exists_value_of_map h hk
    exact absurd (hfails.symm.trans hword) nofun

theorem not_lt_of_fails {j k : Nat} {e : Error} (hfails : ops.value j = .error e)
    (hbefore : ∀ i < k, ∃ word, ops.value i = .ok word) : ¬j < k := fun hlt => by
  obtain ⟨word, hword⟩ := hbefore j hlt
  exact absurd (hfails.symm.trans hword) nofun

/-- Of two operands that fail first, each fails as the other does: they are one. -/
theorem first_failure_unique {j k : Nat} {e e' : Error} (hj : ops.value j = .error e)
    (hbeforej : ∀ i < j, ∃ word, ops.value i = .ok word) (hk : ops.value k = .error e')
    (hbeforek : ∀ i < k, ∃ word, ops.value i = .ok word) : e = e' := by
  have hjk := not_lt_of_fails hj hbeforek
  have hkj := not_lt_of_fails hk hbeforej
  obtain rfl : j = k := by omega
  exact Except.error.inj (hj.symm.trans hk)

theorem values_eq_error_iff {n : Nat} {e : Error} :
    ops.values n = .error e ↔
      ∃ k < n, ops.value k = .error e ∧ ∀ j < k, ∃ word, ops.value j = .ok word := by
  constructor
  · intro h
    obtain ⟨found, hfound, -⟩ | ⟨first, k, hfirst, hk, hfails, hbefore⟩ := ops.values_settle n
    · exact absurd (hfound.symm.trans h) nofun
    · obtain rfl := Except.error.inj (hfirst.symm.trans h)
      exact ⟨k, hk, hfails, hbefore⟩
  · rintro ⟨k, hk, hfails, hbefore⟩
    obtain ⟨found, -, heach⟩ | ⟨first, j, hfirst, -, hjfails, hjbefore⟩ := ops.values_settle n
    · obtain ⟨word, hword⟩ := exists_value_of_map heach hk
      exact absurd (hfails.symm.trans hword) nofun
    · rw [hfirst, first_failure_unique hjfails hjbefore hfails hbefore]

theorem pair_eq_values (ops : Operands) : ops.values 2 = ops.pair.map fun p => [p.1, p.2] := by
  rw [values_succ, values_succ]
  unfold pair
  cases ops.value 0 with
  | error e => rfl
  | ok a => cases ops.value 1 <;> rfl

/-- **Reading and writing through an operand agree.**  Each operand of an instruction, also one
beyond the third or beyond the end of memory, comes to the same whether it is read or written, as
far as its mode allows.  The values of several are the values of each, if all of them have one, or
else the failure of the first that has none; and the first two are no exception. -/
theorem reading_agrees (ops : Operands) :
    (∀ k, ops.Agrees k) ∧
      (∀ n, ((∃ words, ops.values n = .ok words) ↔ ∀ k < n, ∃ word, ops.value k = .ok word) ∧
        (∀ words, ops.values n = .ok words ↔ (List.range n).map ops.value = words.map .ok) ∧
        ∀ e, ops.values n = .error e ↔
          ∃ k < n, ops.value k = .error e ∧ ∀ j < k, ∃ word, ops.value j = .ok word) ∧
      ops.values 2 = ops.pair.map fun p => [p.1, p.2] := by
  refine ⟨ops.agrees, fun n => ⟨⟨?_, fun h => ?_⟩, fun _ => values_eq_ok_iff,
    fun _ => values_eq_error_iff⟩, ops.pair_eq_values⟩
  · rintro ⟨words, hwords⟩ k hk
    exact exists_value_of_map (values_eq_ok_iff.mp hwords) hk
  · obtain ⟨words, hwords, -⟩ | ⟨e, k, -, hk, hfails, -⟩ := ops.values_settle n
    · exact ⟨words, hwords⟩
    · obtain ⟨word, hword⟩ := h k hk
      exact absurd (hfails.symm.trans hword) nofun

/-- An operand in position mode, one that is the greatest word relative to one, an immediate one and
one that has no mode digit. -/
theorem reading_agrees_three :
    let ops : Operands :=
      ⟨⟨([0, 5, 9223372036854775807, 7, 0, 42].map Word.wrap).toArray⟩, 0, 1, ⟨1, 0, 2, 1⟩⟩
    (ops.target 0 = .ok 5 ∧ ops.value 0 = .ok (.wrap 42)) ∧
      (∃ e, ops.target 1 = .error e ∧ ops.value 1 = .error e ∧ e.kind = .overflow ∧
        ops.values 3 = .error e) ∧
      ops.value 2 = .ok (.wrap 7) ∧ ops.target 3 = .ok 0 := by
  intro ops
  obtain ⟨hagrees, hvalues, -⟩ := reading_agrees ops
  have hfirst := (hagrees 0).inRange (.inl rfl) (by decide)
  obtain ⟨e, htarget, hvalue, htells⟩ := (hagrees 1).outOfRange (.inr rfl) (by decide)
  have hall := ((hvalues 3).2.2 e).mpr ⟨1, by decide, hvalue, fun j hj =>
    (Nat.lt_one_iff.mp hj) ▸ ⟨_, hfirst.2⟩⟩
  exact ⟨hfirst, ⟨e, htarget, hvalue, htells.kind, hall⟩, ((hagrees 2).immediate rfl).1,
    ((hagrees 3).inRange (.inl ((hagrees 3).beyond (Nat.le_refl 3))) (by decide)).1⟩

end Operands

end Intcode
