/-!
# Intcode/Queue — first in, first out

A queue is a row of elements that grows at its end and shrinks at its front.  It is kept as a row
cut in two, with its end turned round, so that neither operation walks through the row.  Where it
is cut makes no difference: rows are taken up to the cut, so a queue is nothing but its elements.

* `ext` — queues with the same elements are equal;
* `toList_push` — a new element goes to the end;
* `pop?_eq` — the element taken is the first, and the others stay as they are.
-/

namespace Intcode

/-- A row of elements, cut in two. -/
structure CutRow (α : Type) where
  /-- The elements before the cut. -/
  front : List α
  /-- The elements behind the cut, the last one first. -/
  back : List α
  /-- The number of elements, so that they need not be counted. -/
  size : Nat
  size_eq : size = front.length + back.length

namespace CutRow

variable {α : Type}

/-- The elements in their order. -/
def toList (row : CutRow α) : List α := row.front ++ row.back.reverse

/-- The row that is not cut. -/
def whole (xs : List α) : CutRow α where
  front := xs
  back := []
  size := xs.length
  size_eq := rfl

/-- The row with one more element at its end. -/
def push (row : CutRow α) (x : α) : CutRow α where
  front := row.front
  back := x :: row.back
  size := row.size + 1
  size_eq := congrArg (· + 1) row.size_eq

/-- Takes the first element.  If none is left before the cut, the cut moves to the end. -/
def pop? (row : CutRow α) : Option (α × CutRow α) :=
  match row with
  | ⟨x :: front, back, size, h⟩ =>
    some (x, ⟨front, back, size - 1, by rw [h, List.length_cons]; omega⟩)
  | ⟨[], back, size, h⟩ =>
    match hb : back.reverse with
    | [] => none
    | x :: front =>
      some (x, ⟨front, [], size - 1, by
        have := congrArg List.length hb
        rw [List.length_reverse, List.length_cons] at this
        rw [h, this, List.length_nil]
        omega⟩)

theorem toList_push (row : CutRow α) (x : α) : (row.push x).toList = row.toList ++ [x] := by
  rw [toList, toList, push, List.reverse_cons, List.append_assoc]

theorem size_eq_length (row : CutRow α) : row.size = row.toList.length := by
  rw [row.size_eq, toList, List.length_append, List.length_reverse]

/-- What is taken is the first element, and what is left are the others. -/
theorem map_toList_pop? (row : CutRow α) :
    row.pop?.map (fun taken => (taken.1, taken.2.toList)) =
      match row.toList with
      | [] => none
      | x :: rest => some (x, rest) := by
  obtain ⟨_ | ⟨x, front⟩, back, size, h⟩ := row
  · rw [toList, pop?, List.nil_append]
    split
    next hb => rw [hb]; rfl
    next x front hb =>
      refine (congrArg (fun rest => some (x, rest)) (List.append_nil front)).trans ?_
      rw [hb]
  · rfl

/-- Rows are alike if they have the same elements, wherever they are cut. -/
instance alike (α : Type) : Setoid (CutRow α) where
  r row other := row.toList = other.toList
  iseqv := ⟨fun _ => rfl, Eq.symm, Eq.trans⟩

end CutRow

/-- A queue: a row of elements, wherever it is cut. -/
def Queue (α : Type) : Type := Quotient (CutRow.alike α)

namespace Queue

variable {α : Type}

/-- The queue that is cut so. -/
def ofRow (row : CutRow α) : Queue α := Quotient.mk _ row

/-- The elements, the next one to be taken first. -/
def toList : Queue α → List α := Quotient.lift CutRow.toList fun _ _ h => h

/-- A queue is nothing but its elements. -/
@[ext] theorem ext {p q : Queue α} (h : p.toList = q.toList) : p = q := by
  induction p using Quotient.ind
  induction q using Quotient.ind
  exact Quotient.sound h

/-- The queue with these elements. -/
def ofList (xs : List α) : Queue α := ofRow (.whole xs)

/-- The queue without elements. -/
def empty : Queue α := ofList []

/-- The number of elements. -/
def size : Queue α → Nat :=
  Quotient.lift CutRow.size fun row other h => by
    rw [CutRow.size_eq_length, CutRow.size_eq_length]
    exact congrArg List.length h

/-- The queue with one more element at its end. -/
def push (q : Queue α) (x : α) : Queue α :=
  Quotient.lift (fun row => ofRow (row.push x)) (fun row other h => ext (by
    show (row.push x).toList = (other.push x).toList
    rw [CutRow.toList_push, CutRow.toList_push]
    exact congrArg (· ++ [x]) h)) q

theorem map_ofRow_pop? (row : CutRow α) :
    row.pop?.map (fun taken => (taken.1, ofRow taken.2)) =
      match row.toList with
      | [] => none
      | x :: rest => some (x, ofList rest) := by
  have h := row.map_toList_pop?
  cases hp : row.pop? with
  | none =>
    rw [hp] at h
    cases hl : row.toList with
    | nil => rfl
    | cons x rest => rw [hl] at h; cases h
  | some taken =>
    rw [hp] at h
    cases hl : row.toList with
    | nil => rw [hl] at h; cases h
    | cons x rest =>
      rw [hl] at h
      obtain ⟨rfl, rfl⟩ := Prod.mk.inj (Option.some.inj h)
      exact congrArg (fun q => some (taken.1, q)) (ext (List.append_nil _).symm)

/-- Takes the first element, if there is one. -/
def pop? : Queue α → Option (α × Queue α) :=
  Quotient.lift (fun row => row.pop?.map fun taken => (taken.1, ofRow taken.2))
    fun row other h => by
      rw [map_ofRow_pop?, map_ofRow_pop?]
      exact congrArg (fun
        | [] => none
        | x :: rest => some (x, ofList rest)) h

@[simp] theorem toList_ofList (xs : List α) : (ofList xs).toList = xs := List.append_nil xs

@[simp] theorem ofList_toList (q : Queue α) : ofList q.toList = q := ext (toList_ofList _)

theorem size_eq (q : Queue α) : q.size = q.toList.length := by
  induction q using Quotient.ind
  exact CutRow.size_eq_length _

@[simp] theorem toList_push (q : Queue α) (x : α) : (q.push x).toList = q.toList ++ [x] := by
  induction q using Quotient.ind
  exact CutRow.toList_push _ x

theorem pop?_eq (q : Queue α) :
    q.pop? =
      match q.toList with
      | [] => none
      | x :: rest => some (x, ofList rest) := by
  induction q using Quotient.ind
  exact map_ofRow_pop? _

end Queue

end Intcode
