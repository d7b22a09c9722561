import Intcode.Circuit

/-!
# Intcode/PhaseSearch — the order of phases that gives the strongest signal

Every order of a range of phases is tried, in lexicographic order, on a new circuit each; the
signal sent is zero.  The strongest result wins, and the first order that reaches it.  An order
whose circuit fails ends the search with its error, whatever the orders behind it would give.

`orders` lists the orders; `visitOrders` makes them one by one, and `visitOrders_eq_foldlM` says
that it misses none and keeps their sequence.
-/

namespace Intcode.PhaseSearch

/-- Each element of a list together with the others. -/
def picks {α : Type} : List α → List (α × List α)
  | [] => []
  | x :: xs => (x, xs) :: (picks xs).map fun pick => (pick.1, x :: pick.2)

/-- All orders of so many elements taken from a list: lexicographic, if the list ascends. -/
def orders {α : Type} : Nat → List α → List (List α)
  | 0, _ => [[]]
  | n + 1, xs => (picks xs).flatMap fun pick => (orders n pick.2).map (pick.1 :: ·)

/-- Visits the elements of a list one after the other, each together with the others; `before` are
those that were visited, the latest first.  What comes behind an element is not touched before its
turn. -/
def visitPicks {α β : Type} (visit : β → α → List α → Outcome β) :
    List α → List α → β → Outcome β
  | _, [], acc => .done acc
  | before, x :: rest, acc =>
    (visit acc x (before.reverse ++ rest)).bind (visitPicks visit (x :: before) rest)

/-- Visits the orders of `orders n xs` one after the other, each behind the elements already
chosen, the latest of which comes first.  None is made before its turn comes. -/
def visitOrders {α β : Type} (visit : β → List α → Outcome β) :
    Nat → List α → List α → β → Outcome β
  | 0, chosen, _, acc => visit acc chosen.reverse
  | n + 1, chosen, xs, acc =>
    visitPicks (fun acc x rest => visitOrders visit n (x :: chosen) rest acc) [] xs acc

theorem visitPicks_eq_foldlM {α β : Type} (visit : β → α → List α → Outcome β)
    (before xs : List α) (acc : β) :
    visitPicks visit before xs acc =
      (picks xs).foldlM (fun acc pick => visit acc pick.1 (before.reverse ++ pick.2)) acc := by
  induction xs generalizing before acc with
  | nil => rfl
  | cons x rest ih =>
    rw [visitPicks, picks, List.foldlM_cons]
    refine congrArg (Outcome.bind _) (funext fun acc => ?_)
    rw [ih, List.foldlM_map]
    simp only [List.reverse_cons, List.append_assoc, List.singleton_append]

/-- **A visit goes through the orders as they are listed**, each behind the elements already
chosen. -/
theorem visitOrders_eq_foldlM {α β : Type} (visit : β → List α → Outcome β) (n : Nat)
    (chosen xs : List α) (acc : β) :
    visitOrders visit n chosen xs acc =
      (orders n xs).foldlM (fun acc order => visit acc (chosen.reverse ++ order)) acc := by
  induction n generalizing chosen xs acc with
  | zero => simp [visitOrders, orders]
  | succ n ih =>
    rw [visitOrders, visitPicks_eq_foldlM, orders]
    simp only [List.reverse_nil, List.nil_append]
    generalize picks xs = ps
    induction ps generalizing acc with
    | nil => rfl
    | cons pick ps ihp =>
      rw [List.foldlM_cons, List.flatMap_cons, List.foldlM_append, List.foldlM_map, ih]
      simp only [ihp, List.reverse_cons, List.append_assoc, List.singleton_append]

/-- An order of phases, and the signal it gives. -/
abbrev Best := List Word × Word

/-- The phases from one word up to another, which is not among them. -/
def phases (start stop : Word) : List Word :=
  (List.range (stop.toInt - start.toInt).toNat).map fun (k : Nat) => Word.wrap (start.toInt + k)

/-- The signal that an order of phases gives. -/
def signal (patience : Nat) (program : Program) (wiring : Circuit.Wiring) (order : List Word) :
    Outcome Word :=
  ((Circuit.create program order).send wiring patience 0).1

/-- The better of the best so far and an order with its signal; of two equal ones the first. -/
def better (best : Option Best) (order : List Word) (signal : Word) : Option Best :=
  match best with
  | some (_, strongest) => if strongest.toInt < signal.toInt then some (order, signal) else best
  | none => some (order, signal)

/-- Tries one more order. -/
def attempt (patience : Nat) (program : Program) (wiring : Circuit.Wiring) (best : Option Best)
    (order : List Word) : Outcome (Option Best) :=
  (signal patience program wiring order).bind fun signal => .done (better best order signal)

/-- The best order of a range of phases, if the range is not empty. -/
def maxSignal (patience : Nat) (program : Program) (start stop : Word) (wiring : Circuit.Wiring) :
    Outcome (Option Best) :=
  match phases start stop with
  | [] => .done none
  | range => visitOrders (attempt patience program wiring) range.length [] range none

end Intcode.PhaseSearch
