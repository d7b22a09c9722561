import Intcode.Proofs.Ideal.Decoding

/-!
# Proofs/Ideal/Encoding — decoding undoes encoding

A number is **encoded** from a code, three mode digits and whatever is above them.  Decoding finds
the code and the digits again, in every word that is not negative, and nothing that is above them
matters.

* `Fields.ofWord_eq_iff` — what a word decodes to, by its five lowest digits;
* `Word.digits?_eq_some` and `Fields.split?_eq_some` — the digits come out of 64-bit arithmetic,
  none of whose results is ever out of range;
* `Instruction.decode_eq_ok_iff` — which words are instructions;
* `Instruction.decoding_undoes_encoding` — all that there is to say of decoding.
-/

namespace Intcode

namespace Fields

/-- The number with this code and these mode digits, and with `above` for the digits above them. -/
def encoded (f : Fields) (above : Nat) : Int :=
  f.code.val + 100 * f.first.val + 1000 * f.second.val + 10000 * f.third.val + 100000 * above

variable {w v : Word} {f : Fields}

theorem val_digits_of_nonneg (h : 0 ≤ w.toInt) :
    ((ofWord w).first.val : Int) = w.toInt / 100 % 10 ∧
      ((ofWord w).second.val : Int) = w.toInt / 1000 % 10 ∧
      ((ofWord w).third.val : Int) = w.toInt / 10000 % 10 := by
  have hdigit {k : Nat} (hk : k < 3) :
      (((ofWord w).digit k).val : Int) = w.toInt / 10 ^ (k + 2) % 10 := by
    rw [val_digit_ofWord w hk, if_neg (Int.not_lt.mpr h)]
  exact ⟨hdigit (k := 0) (by decide), hdigit (k := 1) (by decide), hdigit (k := 2) (by decide)⟩

/-- **A word that is not negative decodes to the fields that its five lowest digits encode.** -/
theorem ofWord_eq_iff (h : 0 ≤ w.toInt) : ofWord w = f ↔ w.toInt % 100000 = f.encoded 0 := by
  have hcode := val_code_ofWord w
  obtain ⟨hfirst, hsecond, hthird⟩ := val_digits_of_nonneg h
  generalize ofWord w = found at *
  obtain ⟨code, first, second, third⟩ := f
  obtain ⟨code', first', second', third'⟩ := found
  simp only [encoded, Fields.mk.injEq, Fin.ext_iff] at *
  omega

theorem ofWord_of_encoded {above : Nat} (h : w.toInt = f.encoded above) : ofWord w = f := by
  refine (ofWord_eq_iff ?_).mpr ?_ <;> unfold encoded at * <;> omega

/-- A negative word has no mode digit but zero. -/
theorem ofWord_of_neg (h : w.toInt < 0) :
    ((ofWord w).code.val : Int) = w.toInt % 100 ∧
      (ofWord w).first = 0 ∧ (ofWord w).second = 0 ∧ (ofWord w).third = 0 := by
  have hdigit {k : Nat} (hk : k < 3) : (ofWord w).digit k = 0 := by
    have := val_digit_ofWord w hk
    rw [if_pos h] at this
    exact Fin.ext (by omega)
  exact ⟨val_code_ofWord w, hdigit (k := 0) (by decide), hdigit (k := 1) (by decide),
    hdigit (k := 2) (by decide)⟩

end Fields

/-! ## The digits in 64-bit arithmetic -/

/-- The lowest digits of a word, the lowest first, each the remainder by ten of what the division by
ten has left of the word; none if a result on the way is no word. -/
def Word.digits? : Nat → Word → Option (List Word)
  | 0, _ => some []
  | n + 1, w => do
    let digit ← Word.ofInt? (w.toInt.tmod 10)
    let rest ← Word.ofInt? (w.toInt.tdiv 10)
    let more ← digits? n rest
    return digit :: more

/-- The word, or zero in place of a negative one. -/
def Word.clamp (w : Word) : Word := if w.toInt < 0 then 0 else w

theorem Word.toInt_clamp (w : Word) : w.clamp.toInt = max 0 w.toInt := by
  unfold clamp
  split
  · rw [toInt_zero]
    omega
  · omega

/-- The code and the mode digits of a word; none if a result on the way is no word. -/
def Fields.split? (w : Word) : Option (Word × List Word) := do
  let code ← Word.ofInt? (w.toInt % 100)
  let rest ← Word.ofInt? (w.toInt / 100)
  let modes ← Word.digits? 3 rest.clamp
  return (code, modes)

theorem Word.digits?_eq_some (n : Nat) {w : Word} (h : 0 ≤ w.toInt) :
    ∃ row, digits? n w = some row ∧
      row.map toInt = (List.range n).map fun k => w.toInt / 10 ^ k % 10 := by
  induction n generalizing w with
  | zero => exact ⟨[], rfl, rfl⟩
  | succ n ih =>
    have hw := w.toInt_le
    let digit : Word := ⟨w.toInt % 10, by omega, by omega⟩
    let rest : Word := ⟨w.toInt / 10, by omega, by omega⟩
    obtain ⟨row, hrow, hvalues⟩ := ih (w := rest) (Int.ediv_nonneg h (by decide))
    refine ⟨digit :: row, ?_, ?_⟩
    · have hdigit : ofInt? (w.toInt.tmod 10) = some digit :=
        ofInt?_eq_some_iff.mpr (Int.tmod_eq_emod_of_nonneg h).symm
      have hrest : ofInt? (w.toInt.tdiv 10) = some rest :=
        ofInt?_eq_some_iff.mpr (Int.tdiv_eq_ediv_of_nonneg h).symm
      rw [digits?, hdigit, Option.bind_eq_bind, Option.bind_some, hrest]
      simp [hrow]
    · rw [List.map_cons, hvalues, List.range_succ_eq_map, List.map_cons, List.map_map]
      refine congrArg₂ List.cons ?_ (List.map_congr_left fun k _ => ?_)
      · rw [pow_zero, Int.ediv_one]
      · change w.toInt / 10 / 10 ^ k % 10 = w.toInt / 10 ^ (k + 1) % 10
        rw [pow_succ', Int.ediv_ediv_of_nonneg (by decide)]

/-- The mode digits are those of what the division by a hundred leaves, if it is not negative. -/
theorem Fields.map_range_digits (w : Word) :
    ((List.range 3).map fun k => max 0 (w.toInt / 100) / 10 ^ k % 10) =
      [((ofWord w).first.val : Int), (ofWord w).second.val, (ofWord w).third.val] := by
  by_cases h : w.toInt < 0
  · obtain ⟨-, hfirst, hsecond, hthird⟩ := ofWord_of_neg h
    have hzero : max 0 (w.toInt / 100) = 0 := by omega
    rw [hfirst, hsecond, hthird, hzero]
    rfl
  · obtain ⟨hfirst, hsecond, hthird⟩ := val_digits_of_nonneg (Int.not_lt.mp h)
    have hquotient : max 0 (w.toInt / 100) = w.toInt / 100 := by omega
    rw [hfirst, hsecond, hthird, hquotient]
    simp only [Int.ediv_ediv_of_nonneg (show (0 : Int) ≤ 100 by decide)]
    rfl

/-- **Decoding never fails or overflows**: in 64-bit arithmetic all its results are words, and they
are the code and the mode digits. -/
theorem Fields.split?_eq_some (w : Word) :
    ∃ code modes, split? w = some (code, modes) ∧ code.toInt = (ofWord w).code.val ∧
      modes.map Word.toInt =
        [((ofWord w).first.val : Int), (ofWord w).second.val, (ofWord w).third.val] := by
  have hlow := w.le_toInt
  have hhigh := w.toInt_le
  let code : Word := ⟨w.toInt % 100, by omega, by omega⟩
  let rest : Word := ⟨w.toInt / 100, by omega, by omega⟩
  have hclamp : rest.clamp.toInt = max 0 (w.toInt / 100) := rest.toInt_clamp
  obtain ⟨modes, hmodes, hvalues⟩ := Word.digits?_eq_some 3 (w := rest.clamp) (by omega)
  rw [hclamp, map_range_digits] at hvalues
  refine ⟨code, modes, ?_, (val_code_ofWord w).symm, hvalues⟩
  have hcode : Word.ofInt? (w.toInt % 100) = some code := Word.ofInt?_eq_some_iff.mpr rfl
  have hrest : Word.ofInt? (w.toInt / 100) = some rest := Word.ofInt?_eq_some_iff.mpr rfl
  simp only [split?, hcode, hrest, hmodes, Option.bind_eq_bind, Option.bind_some]
  rfl

/-! ## Instructions -/

namespace Opcode

theorem ofCode?_eq_some_iff {c : Int} {op : Opcode} : ofCode? c = some op ↔ op.code = c := by
  constructor
  · intro h
    rw [ofCode?_eq_find?] at h
    have hfound := List.find?_some h
    exact of_decide_eq_true hfound
  · rintro rfl
    cases op <;> rfl

theorem exists_code_iff {c : Int} : (∃ op : Opcode, op.code = c) ↔ (1 ≤ c ∧ c ≤ 9) ∨ c = 99 := by
  constructor
  · rintro ⟨op, rfl⟩
    cases op <;> decide
  · intro h
    obtain rfl | rfl | rfl | rfl | rfl | rfl | rfl | rfl | rfl | rfl : c = 1 ∨ c = 2 ∨ c = 3 ∨
      c = 4 ∨ c = 5 ∨ c = 6 ∨ c = 7 ∨ c = 8 ∨ c = 9 ∨ c = 99 := by omega
    exacts [⟨.add, rfl⟩, ⟨.mul, rfl⟩, ⟨.read, rfl⟩, ⟨.write, rfl⟩, ⟨.jumpIfTrue, rfl⟩,
      ⟨.jumpIfFalse, rfl⟩, ⟨.less, rfl⟩, ⟨.equals, rfl⟩, ⟨.adjustBase, rfl⟩, ⟨.exit, rfl⟩]

end Opcode

namespace Instruction

variable {w : Word} {pc : Nat} {i : Instruction} {e : Error}

theorem decode_eq_ok_iff :
    decode w pc = .ok i ↔
      i.opcode.code = (Fields.ofWord w).code.val ∧ i.fields = Fields.ofWord w := by
  obtain ⟨op, fields⟩ := i
  rw [← Opcode.ofCode?_eq_some_iff, decode]
  cases Opcode.ofCode? (Fields.ofWord w).code.val with
  | some found =>
    rw [Except.ok.injEq, Instruction.mk.injEq, Option.some.injEq, eq_comm (a := fields)]
  | none => exact ⟨nofun, nofun⟩

/-- **A word that is no instruction is told with its place**, as it stands in memory. -/
theorem decode_eq_error_iff :
    decode w pc = .error e ↔ (¬∃ op : Opcode, op.code = (Fields.ofWord w).code.val) ∧
      e = { kind := .invalidOpcode, address := some pc, value := some w } := by
  simp only [← Opcode.ofCode?_eq_some_iff]
  rw [decode]
  cases Opcode.ofCode? (Fields.ofWord w).code.val with
  | some found => exact ⟨nofun, fun h => absurd ⟨found, rfl⟩ h.1⟩
  | none =>
    rw [Except.error.injEq, eq_comm]
    exact ⟨fun h => ⟨nofun, h⟩, fun h => h.2⟩

/-- **Decoding undoes encoding**, for every word.  A word that is encoded from a code, mode digits
and whatever is above them decodes to this code and these digits; a negative word to the code that
its remainder by a hundred is, without any mode digit but zero.  No result on the way is out of
range.  So words that are not negative decode alike exactly if they agree in their five lowest
digits; and a word is an instruction exactly if its code is one's, and otherwise told as it is. -/
theorem decoding_undoes_encoding :
    (∀ (f : Fields) (above : Nat) (w : Word), w.toInt = f.encoded above → Fields.ofWord w = f) ∧
      (∀ w : Word, w.toInt < 0 → ((Fields.ofWord w).code.val : Int) = w.toInt % 100 ∧
        (Fields.ofWord w).first = 0 ∧ (Fields.ofWord w).second = 0 ∧ (Fields.ofWord w).third = 0) ∧
      (∀ w : Word, ∃ code modes, Fields.split? w = some (code, modes) ∧
        code.toInt = (Fields.ofWord w).code.val ∧
        modes.map Word.toInt = [((Fields.ofWord w).first.val : Int), (Fields.ofWord w).second.val,
          (Fields.ofWord w).third.val]) ∧
      (∀ w v : Word, 0 ≤ w.toInt → 0 ≤ v.toInt →
        (Fields.ofWord w = Fields.ofWord v ↔ w.toInt % 100000 = v.toInt % 100000)) ∧
      ∀ (w : Word) (pc : Nat), let code : Int := (Fields.ofWord w).code.val
        ((∃ i, decode w pc = .ok i) ↔ (1 ≤ code ∧ code ≤ 9) ∨ code = 99) ∧
          (∀ i, decode w pc = .ok i → i.opcode.code = code ∧ i.fields = Fields.ofWord w) ∧
          (¬((1 ≤ code ∧ code ≤ 9) ∨ code = 99) → decode w pc =
            .error { kind := .invalidOpcode, address := some pc, value := some w }) := by
  refine ⟨fun f above w => Fields.ofWord_of_encoded, fun w => Fields.ofWord_of_neg,
    Fields.split?_eq_some, fun w v hw hv => ?_, fun w pc => ?_⟩
  · rw [Fields.ofWord_eq_iff hw, (Fields.ofWord_eq_iff hv).mp rfl]
  · intro code
    rw [← Opcode.exists_code_iff]
    refine ⟨⟨fun ⟨i, hi⟩ => ⟨i.opcode, (decode_eq_ok_iff.mp hi).1⟩, fun ⟨op, hop⟩ => ?_⟩,
      fun i => decode_eq_ok_iff.mp, fun hnone => decode_eq_error_iff.mpr ⟨hnone, rfl⟩⟩
    exact ⟨⟨op, Fields.ofWord w⟩, decode_eq_ok_iff.mpr ⟨hop, rfl⟩⟩

/-- A multiplication with seven above its mode digits, one less than zero, which is an exit, and the
least word, which is none. -/
theorem decoding_undoes_encoding_mul :
    Fields.ofWord (.wrap 701002) = ⟨2, 0, 1, 0⟩ ∧ Fields.ofWord (.wrap 1002) = ⟨2, 0, 1, 0⟩ ∧
      ((Fields.ofWord (.wrap (-1))).code.val : Int) = 99 ∧
      (∃ i, decode (.wrap (-1)) 0 = .ok i ∧ i.opcode.code = 99) ∧
      decode (.wrap (-9223372036854775808)) 4 =
        .error { kind := .invalidOpcode, address := some 4,
                 value := some (.wrap (-9223372036854775808)) } := by
  obtain ⟨hencoded, hnegative, -, halike, hdecode⟩ := decoding_undoes_encoding
  have hmul := hencoded ⟨2, 0, 1, 0⟩ 7 (.wrap 701002) (by decide)
  have hlow := (halike (.wrap 1002) (.wrap 701002) (by decide) (by decide)).mpr (by decide)
  have hcode := (hnegative (.wrap (-1)) (by decide)).1
  obtain ⟨i, hi⟩ := (hdecode (.wrap (-1)) 0).1.mpr (by decide)
  exact ⟨hmul, hlow.trans hmul, hcode, ⟨i, hi, ((hdecode _ _).2.1 i hi).1⟩, (hdecode _ 4).2.2 (by decide)⟩

end Instruction

end Intcode
