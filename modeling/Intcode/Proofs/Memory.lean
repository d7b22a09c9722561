import Intcode.Memory
import Mathlib.Data.List.Induction

/-!
# Proofs/Memory — memory as a map that is zero where nothing was put

What a memory holds is told by what was done with it: images were loaded and words were written.
Since the last load, which did away with all that came before, the last word written to a cell is
what is there; a cell that was not written since then holds what it had in the image, and zero
beyond its end.

* `Memory.updates_eq_put` — what is left of a history is its last image and the writes since then;
* `Memory.read_put` and `Memory.size_put` — words and size of such a memory;
* `Memory.eq_iff_read` — a memory is its size and its words, and nothing else;
* `Memory.history_tells` — all of it, with what is refused.
-/

namespace Intcode

namespace Memory

/-! ## Histories -/

/-- What is done with a memory. -/
inductive Update
  /-- Fills memory with an image, in place of what was there. -/
  | load (image : Array Word)
  /-- Writes a word at an address. -/
  | write (address : Nat) (value : Word)

/-- The image that is loaded, if one is. -/
def Update.image? : Update → Option (Array Word)
  | .load image => some image
  | .write .. => none

/-- The address and the word of a write that is not beyond the last address. -/
def Update.cell? : Update → Option (Nat × Word)
  | .load _ => none
  | .write address value => if address ≤ maxAddress then some (address, value) else none

/-- The image that was loaded last, and no words if none was. -/
def lastImage (history : List Update) : Array Word :=
  (history.reverse.findSome? Update.image?).getD #[]

/-- What was written since the last load, the latest word first. -/
def sinceLoad (history : List Update) : List (Nat × Word) :=
  (history.reverse.takeWhile fun update => update.image?.isNone).filterMap Update.cell?

section

variable (history : List Update) (image : Array Word) (address : Nat) (value : Word)

@[simp] theorem lastImage_load : lastImage (history ++ [.load image]) = image := by
  rw [lastImage, List.reverse_concat]
  rfl

@[simp] theorem lastImage_write :
    lastImage (history ++ [.write address value]) = lastImage history := by
  rw [lastImage, List.reverse_concat]
  rfl

@[simp] theorem sinceLoad_load : sinceLoad (history ++ [.load image]) = [] := by
  rw [sinceLoad, List.reverse_concat]
  rfl

@[simp] theorem sinceLoad_write :
    sinceLoad (history ++ [.write address value]) =
      if address ≤ maxAddress then (address, value) :: sinceLoad history
      else sinceLoad history := by
  rw [sinceLoad, List.reverse_concat, List.takeWhile_cons_of_pos rfl, List.filterMap_cons,
    Update.cell?]
  by_cases h : address ≤ maxAddress
  · rw [if_pos h, if_pos h]
    rfl
  · rw [if_neg h, if_neg h]
    rfl

end

/-! ## Updates -/

/-- What an update replies, and memory after it.  A write that is refused leaves it as it was. -/
def update (m : Memory) : Update → Except Error Unit × Memory
  | .load image => (.ok (), ⟨image⟩)
  | .write address value =>
    match m.write address value with
    | .ok after => (.ok (), after)
    | .error e => (.error e, m)

/-- Memory after a row of updates. -/
def updates (m : Memory) (row : List Update) : Memory := row.foldl (fun m u => (m.update u).2) m

variable (m : Memory)

theorem update_write_of_le {address : Nat} (value : Word) (h : address ≤ maxAddress) :
    m.update (.write address value) = (.ok (), m.set address value) := by
  rw [update, write, refusal?_eq_none_iff.mpr h]

theorem update_write_of_lt {address : Nat} (value : Word) (h : maxAddress < address) :
    m.update (.write address value) = (.error (.beyondMemory address), m) := by
  rw [update, write, refusal?, if_pos h]

theorem updates_concat (row : List Update) (u : Update) :
    m.updates (row ++ [u]) = ((m.updates row).update u).2 := by
  simp [updates]

/-- Memory with words put into its cells, the last one of the row first. -/
def put (m : Memory) (cells : List (Nat × Word)) : Memory :=
  cells.foldr (fun cell m => m.set cell.1 cell.2) m

theorem put_cons (cell : Nat × Word) (cells : List (Nat × Word)) :
    m.put (cell :: cells) = (m.put cells).set cell.1 cell.2 :=
  rfl

/-- **Only what was written since the last load is left of a history**, on top of its image. -/
theorem updates_eq_put (history : List Update) :
    empty.updates history = put ⟨lastImage history⟩ (sinceLoad history) := by
  -- from its end, since a load does away with all that was before it
  induction history using List.reverseRecOn with
  | nil => rfl
  | append_singleton history u ih =>
    rw [updates_concat]
    cases u with
    | load image =>
      rw [lastImage_load, sinceLoad_load]
      rfl
    | write address value =>
      rw [lastImage_write, sinceLoad_write]
      by_cases h : address ≤ maxAddress
      · rw [update_write_of_le _ _ h, ih, if_pos h]
        rfl
      · rw [update_write_of_lt _ _ (Nat.lt_of_not_le h), ih, if_neg h]

/-- A cell holds the first word of the row that is put there. -/
theorem read_put (cells : List (Nat × Word)) (a : Nat) :
    (m.put cells).read a = ((cells.find? fun cell => cell.1 = a).map Prod.snd).getD (m.read a) := by
  induction cells with
  | nil => rfl
  | cons cell cells ih =>
    rw [put_cons, read_set, List.find?_cons]
    by_cases h : a = cell.1
    · simp [h]
    · simp [h, Ne.symm h, ih]

theorem size_put (cells : List (Nat × Word)) :
    (m.put cells).size = (cells.map fun cell => cell.1 + 1).foldr max m.size := by
  induction cells with
  | nil => rfl
  | cons cell cells ih =>
    rw [put_cons, size_set, List.map_cons, List.foldr_cons, Nat.max_comm, ih]

/-! ## Words -/

theorem toList_words : m.words.toList = (List.range m.size).map m.read := by
  refine List.ext_getElem ?_ fun i h h' => ?_
  · rw [List.length_map, List.length_range]
    rfl
  · rw [List.getElem_map, List.getElem_range, Array.getElem_toList, read,
      Array.getD_eq_getD_getElem?, Array.getElem?_eq_getElem h, Option.getD_some]

/-- **A memory is its size and its words.** -/
theorem eq_iff_read {m other : Memory} :
    m = other ↔ m.size = other.size ∧ ∀ a, m.read a = other.read a := by
  refine ⟨fun h => h ▸ ⟨rfl, fun _ => rfl⟩, fun ⟨hsize, hread⟩ => ?_⟩
  rw [Memory.mk.injEq, ← Array.toList_inj, toList_words, toList_words, hsize, funext hread]

theorem address_eq_ok_iff {w : Word} {a : Nat} :
    address w = .ok a ↔ (0 ≤ w.toInt ∧ w.toInt ≤ maxAddress) ∧ (a : Int) = w.toInt := by
  unfold address
  split
  next h =>
    rw [Except.ok.injEq]
    omega
  next h => exact ⟨nofun, fun hw => absurd hw.1 h⟩

/-- **A memory is a map that is zero where nothing was put.**  After any history of loads and
writes, the word at an address is the last one written there since the last load, or else the one in
the image that was loaded, or else zero; and memory reaches just as far as the image and the writes.
Its words in a row are those read there, and memories of one size and with the same words are equal.
A write is refused exactly beyond the last address, however large memory is, and leaves it as it
was; and a word is an address exactly within these bounds. -/
theorem history_tells (history : List Update) :
    (∀ a, (empty.updates history).read a =
        (((sinceLoad history).find? fun cell => cell.1 = a).map Prod.snd).getD
          ((lastImage history).getD a 0)) ∧
      (empty.updates history).size =
        ((sinceLoad history).map fun cell => cell.1 + 1).foldr max (lastImage history).size ∧
      (∀ m : Memory, m.words.toList = (List.range m.size).map m.read) ∧
      (∀ m other : Memory, m = other ↔ m.size = other.size ∧ ∀ a, m.read a = other.read a) ∧
      (∀ (m : Memory) address value,
        ((∃ e, (m.update (.write address value)).1 = .error e) ↔ maxAddress < address) ∧
          (maxAddress < address → (m.update (.write address value)).2 = m)) ∧
      ∀ w a, address w = .ok a ↔ (0 ≤ w.toInt ∧ w.toInt ≤ maxAddress) ∧ (a : Int) = w.toInt := by
  refine ⟨fun a => ?_, ?_, toList_words, fun m other => eq_iff_read, fun m address value => ?_,
    fun w a => address_eq_ok_iff⟩
  · rw [updates_eq_put, read_put]
    rfl
  · rw [updates_eq_put, size_put]
    rfl
  · obtain h | h := Nat.lt_or_ge maxAddress address
    · rw [update_write_of_lt m value h]
      exact ⟨⟨fun _ => h, fun _ => ⟨_, rfl⟩⟩, fun _ => rfl⟩
    · have hnot : ¬maxAddress < address := Nat.not_lt.mpr h
      rw [update_write_of_le m value h]
      exact ⟨⟨fun ⟨_, he⟩ => (nomatch he), fun hlt => absurd hlt hnot⟩, fun hlt => absurd hlt hnot⟩

/-- Two images one after the other, the second one shorter, then writes behind it, two of them to
one cell, and one beyond the last address. -/
theorem history_tells_reload :
    let history : List Update := [.load (Array.replicate 3 1), .write 1 0, .load #[.wrap 8],
      .write 4 1, .write 4 (.wrap 2), .write 16777216 1]
    let m := empty.updates history
    m.read 0 = .wrap 8 ∧ m.read 1 = 0 ∧ m.read 4 = .wrap 2 ∧ m.size = 5 ∧
      (m.update (.write 16777216 0)).2 = m ∧ address (.wrap 16777215) = .ok 16777215 := by
  intro history m
  obtain ⟨hread, hsize, -, -, hwrite, haddress⟩ := history_tells history
  exact ⟨(hread 0).trans rfl, (hread 1).trans rfl, (hread 4).trans rfl, hsize.trans rfl,
    (hwrite m 16777216 0).2 (by decide), (haddress _ _).mpr (by decide)⟩

end Memory

end Intcode
