import Intcode.Proofs.Grammar

/-!
# Proofs/Grammar/Numerals — the reader of numerals reads just the numerals

* `Text.readNumeral?_eq_some_iff` — an integer of any size is read off a text exactly if the text is
  a numeral of it;
* `Word.read?_eq_some_iff` — so is a word.
-/

namespace Intcode

/-- There is nothing but a sign and digits in a numeral. -/
theorem Numeral.sign_or_digit {text : List Char} {i : Int} (h : Numeral text i) :
    ∀ c ∈ text, c = '+' ∨ c = '-' ∨ '0' ≤ c ∧ c ≤ '9' := by
  cases h with
  | unsigned hrow => exact fun c hc => .inr (.inr (hrow.digits c hc))
  | plus hrow =>
    exact List.forall_mem_cons.mpr ⟨.inl rfl, fun c hc => .inr (.inr (hrow.digits c hc))⟩
  | minus hrow =>
    exact List.forall_mem_cons.mpr ⟨.inr (.inl rfl), fun c hc => .inr (.inr (hrow.digits c hc))⟩

namespace Text

variable {text row : List Char} {n : Nat} {i : Int}

theorem ofDigitChars_eq_decimal (row : List Char) : Nat.ofDigitChars 10 row 0 = decimal row := by
  induction row with
  | nil => rfl
  | cons digit rest ih =>
    rw [Nat.ofDigitChars_cons, Nat.ofDigitChars_eq_ofDigitChars_zero, ih, decimal, Nat.mul_zero,
      Nat.zero_add, Nat.mul_comm]

theorem digitRow_iff : DigitRow row ↔ row ≠ [] ∧ row.all Char.isDigit := by
  have hdigit : ∀ c : Char, c.isDigit ↔ '0' ≤ c ∧ c ≤ '9' := fun c => by
    rw [Char.isDigit, Bool.and_eq_true, decide_eq_true_eq, decide_eq_true_eq]
    rfl
  simp only [List.all_eq_true, hdigit]
  exact ⟨fun h => ⟨h.ne_nil, h.digits⟩, fun h => ⟨h.1, h.2⟩⟩

theorem readNatural?_eq_some_iff :
    readNatural? text = some n ↔ DigitRow text ∧ decimal text = n := by
  rw [readNatural?, Option.ite_none_right_eq_some, ofDigitChars_eq_decimal, ← digitRow_iff,
    Option.some.injEq]

theorem map_readNatural?_eq_some_iff {f : Int → Int} :
    (do let n ← readNatural? row; pure (n : Int)).map f = some i ↔
      DigitRow row ∧ f (decimal row) = i := by
  constructor
  · intro h
    rcases hread : readNatural? row with _ | n <;> rw [hread] at h
    · cases h
    · obtain ⟨hrow, rfl⟩ := readNatural?_eq_some_iff.mp hread
      exact ⟨hrow, Option.some.inj h⟩
  · rintro ⟨hrow, rfl⟩
    rw [readNatural?_eq_some_iff.mpr ⟨hrow, rfl⟩]
    rfl

/-- A row of digits has no sign. -/
theorem readNumeral?_of_digitRow (h : DigitRow row) :
    readNumeral? row = some (decimal row : Int) := by
  unfold readNumeral?
  split
  next => exact absurd (h.digits '-' List.mem_cons_self) (by decide)
  next => exact absurd (h.digits '+' List.mem_cons_self) (by decide)
  next => exact map_readNatural?_eq_some_iff.mpr ⟨h, rfl⟩

/-- **An integer is read off its numerals, and off nothing else.** -/
theorem readNumeral?_eq_some_iff : readNumeral? text = some i ↔ Numeral text i := by
  constructor
  · intro h
    unfold readNumeral? at h
    split at h <;> obtain ⟨hrow, rfl⟩ := map_readNatural?_eq_some_iff.mp h
    · exact .minus hrow
    · exact .plus hrow
    · exact .unsigned hrow
  · intro h
    cases h with
    | unsigned hrow => exact readNumeral?_of_digitRow hrow
    | plus hrow => exact map_readNatural?_eq_some_iff.mpr ⟨hrow, rfl⟩
    | minus hrow => exact map_readNatural?_eq_some_iff.mpr ⟨hrow, rfl⟩

end Text

/-- **A word is read off its numerals, and off nothing else.** -/
theorem Word.read?_eq_some_iff {text : List Char} {w : Word} :
    read? text = some w ↔ Numeral text w.toInt := by
  rw [read?, Option.bind_eq_some_iff]
  constructor
  · rintro ⟨i, hread, hfits⟩
    rw [ofInt?_eq_some_iff] at hfits
    exact hfits ▸ Text.readNumeral?_eq_some_iff.mp hread
  · intro h
    exact ⟨w.toInt, Text.readNumeral?_eq_some_iff.mpr h, ofInt?_toInt w⟩

theorem Word.read?_eq_none_iff {text : List Char} :
    read? text = none ↔ ¬∃ w : Word, Numeral text w.toInt := by
  rw [Option.eq_none_iff_forall_ne_some, not_exists]
  exact forall_congr' fun w => not_congr read?_eq_some_iff

end Intcode
