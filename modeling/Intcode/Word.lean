/-!
# Intcode/Word — the signed 64-bit words a machine computes with

A **word** is an exact integer together with its bounds.  Arithmetic is done on the integers and
brought back through one gate, `Word.ofInt?`, which refuses what does not fit:

* `ofInt?_toInt` and `toInt_of_ofInt?` — the gate changes no integer it lets through;
* `ofInt?_eq_none_iff` — it refuses exactly the integers outside `-2^63 ≤ i < 2^63`.

`Word.wrap` is the other way back, reduction modulo `2^64`, for the places where a count that has
left the range starts again at the other end.
-/

namespace Intcode

/-- A signed 64-bit integer. -/
@[ext] structure Word where
  /-- The integer itself. -/
  toInt : Int
  le_toInt : -9223372036854775808 ≤ toInt
  toInt_le : toInt ≤ 9223372036854775807
deriving DecidableEq

namespace Word

/-- The integer as a word, if it fits into 64 bits. -/
@[inline] def ofInt? (i : Int) : Option Word :=
  if h : -9223372036854775808 ≤ i ∧ i ≤ 9223372036854775807 then some ⟨i, h.1, h.2⟩ else none

/-- The word that differs from the integer by a multiple of `2^64`. -/
def wrap (i : Int) : Word where
  toInt := i.bmod 18446744073709551616
  le_toInt := by
    have := Int.le_bmod (x := i) (m := 18446744073709551616) (by decide)
    omega
  toInt_le := by
    have := Int.bmod_le (x := i) (m := 18446744073709551616) (by decide)
    omega

instance : OfNat Word 0 := ⟨⟨0, by decide, by decide⟩⟩

instance : OfNat Word 1 := ⟨⟨1, by decide, by decide⟩⟩

instance : Inhabited Word := ⟨0⟩

/-- One for true, zero for false. -/
def ofBool (b : Bool) : Word := if b then 1 else 0

/-- The exact sum, if it is a word. -/
@[inline] def add? (a b : Word) : Option Word := ofInt? (a.toInt + b.toInt)

/-- The exact product, if it is a word. -/
@[inline] def mul? (a b : Word) : Option Word := ofInt? (a.toInt * b.toInt)

/-- The word after this one; after the greatest comes the least. -/
def succ (a : Word) : Word := wrap (a.toInt + 1)

/-- The sum modulo `2^64`. -/
def wrapAdd (a b : Word) : Word := wrap (a.toInt + b.toInt)

/-! ## The gate -/

@[simp] theorem toInt_zero : (0 : Word).toInt = 0 := rfl

@[simp] theorem ofInt?_toInt (w : Word) : ofInt? w.toInt = some w :=
  dif_pos ⟨w.le_toInt, w.toInt_le⟩

theorem toInt_of_ofInt? {i : Int} {w : Word} (h : ofInt? i = some w) : w.toInt = i := by
  unfold ofInt? at h
  split at h
  · exact congrArg toInt (Option.some.inj h).symm
  · exact absurd h (by simp)

/-- **The gate lets exactly the word's own integer through** — so a checked sum or product is some
word precisely when that word is the exact result. -/
theorem ofInt?_eq_some_iff {i : Int} {w : Word} : ofInt? i = some w ↔ w.toInt = i :=
  ⟨toInt_of_ofInt?, fun h => h ▸ ofInt?_toInt w⟩

theorem ofInt?_eq_none_iff {i : Int} :
    ofInt? i = none ↔ i < -9223372036854775808 ∨ 9223372036854775807 < i := by
  unfold ofInt?
  split <;> simp <;> omega

end Word

end Intcode
