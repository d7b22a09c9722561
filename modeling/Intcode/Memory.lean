import Intcode.Error

/-!
# Intcode/Memory — the machine's growable, zero-initialised memory

Memory is a row of words.  Every cell beyond its end reads as zero, and a write there extends it,
with zeros in between, up to `maxAddress`; a write beyond that is refused.

* `read_set` — after a write, its cell holds the new word and every other cell what it held before;
* `size_set` — a write extends memory just as far as its cell.
-/

namespace Intcode

/-- The highest address that a program may touch. -/
def maxAddress : Nat := 16777215

/-- A row of words; the cells beyond its end count as zero. -/
@[ext] structure Memory where
  words : Array Word
deriving DecidableEq

namespace Memory

/-- Memory without any cell of its own. -/
def empty : Memory := ⟨#[]⟩

/-- The number of cells up to the last one loaded or written. -/
def size (m : Memory) : Nat := m.words.size

/-- The word at an address. -/
@[inline] def read (m : Memory) (address : Nat) : Word := m.words.getD address 0

/-- The address that a word stands for. -/
@[inline] def address (word : Word) : Except Error Nat :=
  if 0 ≤ word.toInt ∧ word.toInt ≤ maxAddress then .ok word.toInt.toNat
  else .error (.noAddress word)

/-- A word is refused as an address before any instruction is blamed for it. -/
theorem address_eq_none_of_address {word : Word} {e : Error} (h : address word = .error e) :
    e.address = none := by
  unfold address at h
  split at h
  · cases h
  · cases h
    rfl

/-- Memory with a word put at an address, extended by zeros if need be. -/
def set (m : Memory) (address : Nat) (value : Word) : Memory :=
  if h : address < m.words.size then
    ⟨m.words.set address value⟩
  else
    ⟨(m.words ++ Array.replicate (address - m.words.size) 0).push value⟩

/-- Why a write at an address is refused, if it is. -/
@[inline] def refusal? (address : Nat) : Option Error :=
  if maxAddress < address then some (.beyondMemory address) else none

/-- No write is refused but one beyond the last address. -/
theorem refusal?_eq_none_iff {address : Nat} : refusal? address = none ↔ address ≤ maxAddress := by
  simp [refusal?]

/-- A write is refused before any instruction is blamed for it. -/
theorem address_eq_none_of_refusal? {address : Nat} {e : Error} (h : refusal? address = some e) :
    e.address = none := by
  unfold refusal? at h
  split at h
  · cases h
    rfl
  · cases h

/-- Memory with a word written at an address, unless the address is too high. -/
def write (m : Memory) (address : Nat) (value : Word) : Except Error Memory :=
  match refusal? address with
  | some e => .error e
  | none => .ok (m.set address value)

/-- The cells that are not zero, with their addresses in ascending order. -/
def cells (m : Memory) : List (Nat × Word) :=
  ((m.words.foldl (fun (found, address) word =>
    (if word = 0 then found else found.push (address, word), address + 1)) (#[], 0)).1).toList

/-! ## Reading back -/

theorem size_set (m : Memory) (a : Nat) (w : Word) : (m.set a w).size = max m.size (a + 1) := by
  unfold set size
  split
  · rw [Array.size_set]
    omega
  · rw [Array.size_push, Array.size_append, Array.size_replicate]
    omega

theorem read_set (m : Memory) (a b : Nat) (w : Word) :
    (m.set a w).read b = if b = a then w else m.read b := by
  unfold set read
  simp only [Array.getD_eq_getD_getElem?]
  split
  next h =>
    rw [Array.getElem?_set]
    by_cases hb : b = a
    · rw [if_pos hb.symm, if_pos hb, Option.getD_some]
    · rw [if_neg (Ne.symm hb), if_neg hb]
  next h =>
    rw [Array.getElem?_push, Array.getElem?_append, Array.getElem?_replicate]
    simp only [Array.size_append, Array.size_replicate]
    by_cases hb : b = a
    · rw [if_pos (by omega), if_pos hb, Option.getD_some]
    · rw [if_neg (by omega), if_neg hb]
      by_cases hlt : b < m.words.size
      · rw [if_pos hlt]
      · rw [if_neg hlt, Array.getElem?_eq_none (by omega)]
        split <;> rfl

end Memory

end Intcode
