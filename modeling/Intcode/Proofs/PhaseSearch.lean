import Mathlib.Data.List.Induction
import Mathlib.Data.List.Lex
import Intcode.PhaseSearch
import Intcode.Proofs.Circuit.Passage

/-!
# Proofs/PhaseSearch — the search finds the best order, and the first of the best

The orders of a range of phases are listed completely, each once, in lexicographic order.  So the
search comes to the first of the best orders if the circuits of all of them give a signal, and
otherwise to the error of the first that gives none.

* `PhaseSearch.mem_orders_iff`, `PhaseSearch.pairwise_orders` — the orders of a list, in sequence;
* `PhaseSearch.IsOrder`, `PhaseSearch.isOrder_iff_mem` — the orders of a range are those tried;
* `PhaseSearch.exists_first_best` — trying orders one after the other keeps the first of the best;
* `PhaseSearch.search_settles` — what the search comes to.
-/

namespace Intcode

/-- A word is wrapped to itself. -/
theorem Word.toInt_wrap {i : Int} (hle : -9223372036854775808 ≤ i) (hlt : i ≤ 9223372036854775807) :
    (wrap i).toInt = i :=
  Int.bmod_eq_of_le (by omega) (by omega)

namespace PhaseSearch

/-! ## The orders of a list -/

section Orders

variable {α : Type} {r : α → α → Prop} {x : α} {xs rest order : List α} {n : Nat}

/-- What is picked stands somewhere in the list, and the others keep their places. -/
theorem mem_picks_iff :
    (x, rest) ∈ picks xs ↔
      ∃ before behind, xs = before ++ x :: behind ∧ rest = before ++ behind := by
  induction xs generalizing rest with
  | nil => simp [picks]
  | cons y ys ih =>
    rw [picks, List.mem_cons]
    constructor
    · rintro (hfirst | hother)
      · obtain ⟨rfl, rfl⟩ := Prod.mk.inj hfirst
        exact ⟨[], _, rfl, rfl⟩
      · obtain ⟨⟨x', rest'⟩, hpick, heq⟩ := List.mem_map.mp hother
        obtain ⟨rfl, rfl⟩ := Prod.mk.inj heq
        obtain ⟨before, behind, rfl, rfl⟩ := ih.mp hpick
        exact ⟨y :: before, behind, rfl, rfl⟩
    · rintro ⟨_ | ⟨y', before⟩, behind, hxs, rfl⟩
      · obtain ⟨rfl, rfl⟩ := List.cons.inj hxs
        exact .inl rfl
      · obtain ⟨rfl, rfl⟩ := List.cons.inj hxs
        exact .inr (List.mem_map.mpr ⟨_, ih.mpr ⟨before, behind, rfl, rfl⟩, rfl⟩)

theorem map_fst_picks (xs : List α) : (picks xs).map Prod.fst = xs := by
  induction xs with
  | nil => rfl
  | cons x xs ih =>
    rw [picks, List.map_cons, List.map_map]
    exact congrArg (x :: ·) ih

/-- **All orders are listed**, and nothing else. -/
theorem mem_orders_iff (hlength : xs.length = n) : order ∈ orders n xs ↔ order.Perm xs := by
  induction n generalizing xs order with
  | zero =>
    obtain rfl := List.length_eq_zero_iff.mp hlength
    rw [orders, List.mem_singleton, List.perm_nil]
  | succ n ih =>
    have hrest {x : α} {before behind : List α} (hxs : xs = before ++ x :: behind) :
        (before ++ behind).length = n := by
      rw [hxs, List.length_append, List.length_cons] at hlength
      rw [List.length_append]
      omega
    rw [orders, List.mem_flatMap]
    constructor
    · rintro ⟨⟨x, rest⟩, hpick, hmem⟩
      obtain ⟨before, behind, hxs, rfl⟩ := mem_picks_iff.mp hpick
      obtain ⟨tail, htail, rfl⟩ := List.mem_map.mp hmem
      have hperm : tail.Perm (before ++ behind) := (ih (hrest hxs)).mp htail
      rw [hxs]
      exact (hperm.cons x).trans List.perm_middle.symm
    · intro hperm
      obtain _ | ⟨x, tail⟩ := order
      · rw [List.nil_perm.mp hperm] at hlength
        cases hlength
      · obtain ⟨before, behind, hxs⟩ := List.append_of_mem (hperm.subset List.mem_cons_self)
        rw [hxs] at hperm
        have htail : tail ∈ orders n (before ++ behind) :=
          (ih (hrest hxs)).mpr (hperm.trans List.perm_middle).cons_inv
        exact ⟨(x, before ++ behind), mem_picks_iff.mpr ⟨before, behind, hxs, rfl⟩,
          List.mem_map_of_mem htail⟩

/-- **Orders are listed in lexicographic order**, if the list ascends. -/
theorem pairwise_orders (hxs : xs.Pairwise r) (n : Nat) :
    (orders n xs).Pairwise (List.Lex r) := by
  induction n generalizing xs with
  | zero => exact List.pairwise_singleton _ _
  | succ n ih =>
    rw [orders, List.pairwise_flatMap]
    constructor
    · rintro ⟨x, rest⟩ hpick
      obtain ⟨before, behind, rfl, rfl⟩ := mem_picks_iff.mp hpick
      have hsublist : (before ++ behind).Sublist (before ++ x :: behind) :=
        (List.Sublist.refl before).append (List.sublist_cons_self x behind)
      exact List.pairwise_map.mpr ((ih (hxs.sublist hsublist)).imp .cons)
    · -- the picked elements ascend as the list does
      have hpicked : (picks xs).Pairwise fun pick pick' => r pick.1 pick'.1 := by
        rw [← List.pairwise_map (f := Prod.fst), map_fst_picks]
        exact hxs
      refine hpicked.imp fun hr order horder order' horder' => ?_
      obtain ⟨tail, -, rfl⟩ := List.mem_map.mp horder
      obtain ⟨tail', -, rfl⟩ := List.mem_map.mp horder'
      exact .rel hr

end Orders

/-! ## The orders of a range -/

/-- One order comes before another, lexicographically. -/
abbrev Precedes : List Word → List Word → Prop := List.Lex fun v w => v.toInt < w.toInt

/-- **An order of a range of phases** has each of them once. -/
structure IsOrder (start stop : Word) (order : List Word) : Prop where
  nodup : order.Nodup
  mem_iff : ∀ w, w ∈ order ↔ start.toInt ≤ w.toInt ∧ w.toInt < stop.toInt

section Range

variable {start stop w : Word} {order : List Word}

theorem map_toInt_phases (start stop : Word) :
    (phases start stop).map Word.toInt =
      (List.range (stop.toInt - start.toInt).toNat).map fun k : Nat => start.toInt + k := by
  rw [phases, List.map_map]
  refine List.map_congr_left fun k hk => Word.toInt_wrap ?_ ?_
  · have := start.le_toInt
    omega
  · have := stop.toInt_le
    have := List.mem_range.mp hk
    omega

theorem mem_phases_iff :
    w ∈ phases start stop ↔ start.toInt ≤ w.toInt ∧ w.toInt < stop.toInt := by
  have hinj : Function.Injective Word.toInt := fun _ _ => Word.ext
  rw [← List.mem_map_of_injective hinj, map_toInt_phases, List.mem_map]
  constructor
  · rintro ⟨k, hk, hw⟩
    have := List.mem_range.mp hk
    omega
  · intro hw
    exact ⟨(w.toInt - start.toInt).toNat, List.mem_range.mpr (by omega), by omega⟩

theorem pairwise_phases (start stop : Word) :
    (phases start stop).Pairwise fun v w => v.toInt < w.toInt := by
  rw [← List.pairwise_map (f := Word.toInt), map_toInt_phases]
  exact List.pairwise_map.mpr (List.pairwise_lt_range.imp fun h => by omega)

theorem isOrder_phases (start stop : Word) : IsOrder start stop (phases start stop) where
  nodup := (pairwise_phases start stop).imp fun h heq => by rw [heq] at h; omega
  mem_iff _ := mem_phases_iff

/-- **The orders that are tried are those of the range.** -/
theorem isOrder_iff_mem :
    IsOrder start stop order ↔ order ∈ orders (phases start stop).length (phases start stop) := by
  have hphases := isOrder_phases start stop
  rw [mem_orders_iff rfl]
  constructor
  · intro h
    refine (List.perm_ext_iff_of_nodup h.nodup hphases.nodup).mpr fun w => ?_
    rw [h.mem_iff, hphases.mem_iff]
  · intro h
    exact ⟨h.nodup_iff.mpr hphases.nodup, fun w => h.mem_iff.trans (hphases.mem_iff w)⟩

theorem phases_eq_nil_iff : phases start stop = [] ↔ stop.toInt ≤ start.toInt := by
  rw [phases, List.map_eq_nil_iff, List.range_eq_nil]
  omega

end Range

/-! ## Trying orders -/

/-- **A new circuit with these phases comes to this**, sent the signal zero. -/
def Yields (program : Program) (wiring : Circuit.Wiring) (order : List Word) (r : Outcome Word) :
    Prop :=
  ∃ last, ComesTo (fun patience => (Circuit.create program order).send wiring patience 0) (r, last)

variable {program : Program} {wiring : Circuit.Wiring} {order : List Word} {r : Outcome Word}
  {list : List (List Word)} {best : Option Best}

theorem Yields.unique {r' : Outcome Word} (h : Yields program wiring order r)
    (h' : Yields program wiring order r') : r = r' := by
  obtain ⟨last, -, enough, heq⟩ := h
  obtain ⟨last', -, enough', heq'⟩ := h'
  have hsend := (heq _ (le_max_left enough enough')).symm.trans (heq' _ (le_max_right _ _))
  exact congrArg Prod.fst hsend

theorem Yields.signal_eq (h : Yields program wiring order r) :
    ∃ enough, ∀ patience, enough ≤ patience → signal patience program wiring order = r := by
  obtain ⟨last, -, enough, heq⟩ := h
  exact ⟨enough, fun patience hp => congrArg Prod.fst (heq patience hp)⟩

/-- What a pipeline has come to is what it comes to. -/
theorem yields_pipeline (patience : Nat) (h : signal patience program .pipeline order = r)
    (hend : r ≠ .unfinished) : Yields program .pipeline order r :=
  ⟨_, (Circuit.pipeline_patient _ 0).comesTo_iff.mpr ⟨hend, patience, eq_pair_of_fst h⟩⟩

/-- **Orders that all give a signal are tried one after the other.** -/
theorem exists_foldlM_done {f : List Word → Word}
    (h : ∀ order ∈ list, Yields program wiring order (.done (f order))) :
    ∃ enough, ∀ patience, enough ≤ patience → ∀ best,
      list.foldlM (attempt patience program wiring) best =
        .done (list.foldl (fun best order => better best order (f order)) best) := by
  induction list with
  | nil => exact ⟨0, fun _ _ _ => rfl⟩
  | cons order list ih =>
    obtain ⟨hfirst, hothers⟩ := List.forall_mem_cons.mp h
    obtain ⟨enough, hsignal⟩ := hfirst.signal_eq
    obtain ⟨enough', hrest⟩ := ih hothers
    refine ⟨max enough enough', fun patience hp best => ?_⟩
    rw [List.foldlM_cons, attempt, hsignal patience (le_trans (le_max_left _ _) hp)]
    exact hrest patience (le_trans (le_max_right _ _) hp) _

/-- **An order that gives an error ends the search**, whatever comes behind it. -/
theorem exists_foldlM_failed {e : Error} {before : List (List Word)} (behind : List (List Word))
    (hbefore : ∀ order ∈ before, ∃ signal, Yields program wiring order (.done signal))
    (h : Yields program wiring order (.failed e)) (best : Option Best) :
    ∃ enough, ∀ patience, enough ≤ patience →
      (before ++ order :: behind).foldlM (attempt patience program wiring) best = .failed e := by
  choose! f hf using hbefore
  obtain ⟨enough, htried⟩ := exists_foldlM_done hf
  obtain ⟨enough', hsignal⟩ := h.signal_eq
  refine ⟨max enough enough', fun patience hp => ?_⟩
  rw [List.foldlM_append, htried patience (le_trans (le_max_left _ _) hp)]
  change (attempt patience program wiring _ order).bind _ = _
  rw [attempt, hsignal patience (le_trans (le_max_right _ _) hp)]
  rfl

theorem isSome_better (best : Option Best) (order : List Word) (signal : Word) :
    (better best order signal).isSome := by
  unfold better
  split
  · split <;> rfl
  · rfl

/-- Where an order has been tried there is a best one. -/
theorem foldlM_attempt_ne_none {patience : Nat} (h : best.isSome ∨ list ≠ []) :
    list.foldlM (attempt patience program wiring) best ≠ .done none := by
  induction list generalizing best with
  | nil =>
    obtain hbest | hnil := h
    · rintro ⟨⟩
      cases hbest
    · exact absurd rfl hnil
  | cons order list ih =>
    rw [List.foldlM_cons]
    change (attempt patience program wiring best order).bind _ ≠ _
    rw [attempt]
    cases signal patience program wiring order with
    | done value => exact ih (.inl (isSome_better best order value))
    | failed | unfinished => exact nofun

/-- **Trying orders one after the other keeps the first of the best.** -/
theorem exists_first_best (f : List Word → Word) (hne : list ≠ []) :
    ∃ before order behind, list = before ++ order :: behind ∧
      list.foldl (fun best order => better best order (f order)) none = some (order, f order) ∧
      (∀ other ∈ before, (f other).toInt < (f order).toInt) ∧
      ∀ other ∈ behind, (f other).toInt ≤ (f order).toInt := by
  induction list using List.reverseRecOn with
  | nil => exact absurd rfl hne
  | append_singleton list last ih =>
    rw [List.foldl_append]
    by_cases hnil : list = []
    · subst hnil
      exact ⟨[], last, [], rfl, rfl, List.forall_mem_nil _, List.forall_mem_nil _⟩
    · obtain ⟨before, order, behind, hlist, hbest, hbefore, hbehind⟩ := ih hnil
      rw [hbest]
      by_cases hlast : (f order).toInt < (f last).toInt
      · refine ⟨list, last, [], rfl, if_pos hlast, ?_, List.forall_mem_nil _⟩
        subst hlist
        simp only [List.forall_mem_append, List.forall_mem_cons]
        exact ⟨fun other h => Int.lt_trans (hbefore other h) hlast, hlast,
          fun other h => Int.lt_of_le_of_lt (hbehind other h) hlast⟩
      · refine ⟨before, order, behind ++ [last], ?_, if_neg hlast, hbefore, ?_⟩
        · rw [hlist, List.append_assoc, List.cons_append]
        · exact List.forall_mem_append.mpr
            ⟨hbehind, List.forall_mem_singleton.mpr (Int.not_lt.mp hlast)⟩

/-- Among orders that end up to one that gives an error there is a first one that does. -/
theorem exists_first_failed {e : Error} {before : List (List Word)} (behind : List (List Word))
    (hbefore : ∀ order ∈ before, ∃ r, Yields program wiring order r)
    (h : Yields program wiring order (.failed e)) :
    ∃ front first rest cause, before ++ order :: behind = front ++ first :: rest ∧
      (∀ other ∈ front, ∃ signal, Yields program wiring other (.done signal)) ∧
      Yields program wiring first (.failed cause) := by
  induction before with
  | nil => exact ⟨[], order, behind, e, rfl, List.forall_mem_nil _, h⟩
  | cons first before ih =>
    obtain ⟨⟨r, hfirst⟩, hothers⟩ := List.forall_mem_cons.mp hbefore
    cases r with
    | done signal =>
      obtain ⟨front, failed, rest, cause, hlist, hfront, hfailed⟩ := ih hothers
      exact ⟨first :: front, failed, rest, cause, congrArg (first :: ·) hlist,
        List.forall_mem_cons.mpr ⟨⟨signal, hfirst⟩, hfront⟩, hfailed⟩
    | failed cause => exact ⟨[], first, _, cause, rfl, List.forall_mem_nil _, hfirst⟩
    | unfinished =>
      obtain ⟨_, hend, -⟩ := hfirst
      exact absurd rfl hend

/-! ## The search -/

section Search

variable {start stop : Word} {before behind : List (List Word)}

/-- With patience enough, the search comes to this. -/
def Settles (program : Program) (start stop : Word) (wiring : Circuit.Wiring)
    (result : Outcome (Option Best)) : Prop :=
  ∃ enough, ∀ patience, enough ≤ patience → maxSignal patience program start stop wiring = result

/-- The search tries all orders, if there are phases at all. -/
theorem maxSignal_eq_foldlM (h : phases start stop ≠ []) (patience : Nat) :
    maxSignal patience program start stop wiring =
      (orders (phases start stop).length (phases start stop)).foldlM
        (attempt patience program wiring) none := by
  rw [maxSignal]
  split
  next hnil => exact absurd hnil h
  next =>
    rw [visitOrders_eq_foldlM]
    rfl

theorem maxSignal_eq_none_iff {patience : Nat} :
    maxSignal patience program start stop wiring = .done none ↔ stop.toInt ≤ start.toInt := by
  rw [← phases_eq_nil_iff]
  constructor
  · intro h
    by_contra hne
    rw [maxSignal_eq_foldlM hne] at h
    have hmem := isOrder_iff_mem.mp (isOrder_phases start stop)
    exact foldlM_attempt_ne_none (.inr (List.ne_nil_of_mem hmem)) h
  · intro h
    rw [maxSignal, h]

/-- Where an order stands in the list, those that come before it stand before it, and those behind
it come after. -/
theorem precedes_of_orders
    (h : orders (phases start stop).length (phases start stop) = before ++ order :: behind) :
    (∀ other ∈ before, Precedes other order) ∧ ∀ other ∈ behind, Precedes order other := by
  have hsorted := pairwise_orders (pairwise_phases start stop) (phases start stop).length
  rw [h] at hsorted
  obtain ⟨-, hrest, hcross⟩ := List.pairwise_append.mp hsorted
  exact ⟨fun other hmem => hcross other hmem order List.mem_cons_self,
    (List.pairwise_cons.mp hrest).1⟩

/-- **If all orders give a signal, the search comes to the first of the best.** -/
theorem settles_best (hne : start.toInt < stop.toInt)
    (h : ∀ order, IsOrder start stop order →
      ∃ signal, Yields program wiring order (.done signal)) :
    ∃ order strongest, IsOrder start stop order ∧ Yields program wiring order (.done strongest) ∧
      (∀ other signal, IsOrder start stop other → Yields program wiring other (.done signal) →
        signal.toInt ≤ strongest.toInt ∧
          (signal = strongest → other = order ∨ Precedes order other)) ∧
      Settles program start stop wiring (.done (some (order, strongest))) := by
  have hphases : phases start stop ≠ [] := fun hnil => by
    have := phases_eq_nil_iff.mp hnil
    omega
  choose! f hf using h
  have hall : ∀ order ∈ orders (phases start stop).length (phases start stop),
      Yields program wiring order (.done (f order)) := fun order hmem =>
    hf order (isOrder_iff_mem.mpr hmem)
  have hmem := isOrder_iff_mem.mp (isOrder_phases start stop)
  obtain ⟨before, order, behind, hlist, hbest, hbefore, hbehind⟩ :=
    exists_first_best f (List.ne_nil_of_mem hmem)
  have horder : IsOrder start stop order := isOrder_iff_mem.mpr (by simp [hlist])
  refine ⟨order, f order, horder, hf order horder, fun other signal hother hsignal => ?_, ?_⟩
  · obtain rfl : signal = f other := Outcome.done.inj (hsignal.unique (hf other hother))
    rw [isOrder_iff_mem, hlist, List.mem_append, List.mem_cons] at hother
    obtain hmem | rfl | hmem := hother
    · have hlt := hbefore other hmem
      exact ⟨Int.le_of_lt hlt, fun heq => absurd (congrArg Word.toInt heq) (Int.ne_of_lt hlt)⟩
    · exact ⟨Int.le_refl _, fun _ => .inl rfl⟩
    · exact ⟨hbehind other hmem, fun _ => .inr ((precedes_of_orders hlist).2 other hmem)⟩
  · obtain ⟨enough, htried⟩ := exists_foldlM_done hall
    refine ⟨enough, fun patience hp => ?_⟩
    rw [maxSignal_eq_foldlM hphases, htried patience hp, hbest]

/-- **If an order gives an error, the search comes to the error of the first that does.** -/
theorem settles_failed {e : Error} (hne : start.toInt < stop.toInt)
    (horder : IsOrder start stop order) (h : Yields program wiring order (.failed e))
    (hends : ∀ other, IsOrder start stop other → Precedes other order →
      ∃ r, Yields program wiring other r) :
    ∃ first cause, IsOrder start stop first ∧ Yields program wiring first (.failed cause) ∧
      (∀ other e, IsOrder start stop other → Yields program wiring other (.failed e) →
        other = first ∨ Precedes first other) ∧
      Settles program start stop wiring (.failed cause) := by
  have hphases : phases start stop ≠ [] := fun hnil => by
    have := phases_eq_nil_iff.mp hnil
    omega
  obtain ⟨before, behind, hlist⟩ := List.append_of_mem (isOrder_iff_mem.mp horder)
  have hbefore : ∀ other ∈ before, ∃ r, Yields program wiring other r := fun other hmem =>
    hends other (isOrder_iff_mem.mpr (by simp [hlist, hmem]))
      ((precedes_of_orders hlist).1 other hmem)
  obtain ⟨front, first, rest, cause, hsplit, hfront, hfirst⟩ :=
    exists_first_failed behind hbefore h
  rw [hsplit] at hlist
  refine ⟨first, cause, isOrder_iff_mem.mpr (by simp [hlist]), hfirst,
    fun other e hother hfailed => ?_, ?_⟩
  · rw [isOrder_iff_mem, hlist, List.mem_append, List.mem_cons] at hother
    obtain hmem | hmem | hmem := hother
    · obtain ⟨signal, hdone⟩ := hfront other hmem
      cases hdone.unique hfailed
    · exact .inl hmem
    · exact .inr ((precedes_of_orders hlist).2 other hmem)
  · obtain ⟨enough, htried⟩ := exists_foldlM_failed rest hfront hfirst none
    refine ⟨enough, fun patience hp => ?_⟩
    rw [maxSignal_eq_foldlM hphases, hlist, htried patience hp]

end Search

/-- **The search comes to the true optimum, the first in order.**  It comes to nothing if and only
if there are no phases.  Otherwise, if every order of the phases gives a signal, it comes to an
order whose signal no other exceeds, the lexicographically first of these.  If an order gives an
error, and those before it come to an end, it comes to the error of the lexicographically first
order that gives one, whatever comes of those behind it. -/
theorem search_settles (program : Program) (start stop : Word) (wiring : Circuit.Wiring) :
    (∀ patience, maxSignal patience program start stop wiring = .done none ↔
        stop.toInt ≤ start.toInt) ∧
      (start.toInt < stop.toInt →
        (∀ order, IsOrder start stop order →
          ∃ signal, Yields program wiring order (.done signal)) →
        ∃ order strongest, IsOrder start stop order ∧
          Yields program wiring order (.done strongest) ∧
          (∀ other signal, IsOrder start stop other → Yields program wiring other (.done signal) →
            signal.toInt ≤ strongest.toInt ∧
              (signal = strongest → other = order ∨ Precedes order other)) ∧
          Settles program start stop wiring (.done (some (order, strongest)))) ∧
      (start.toInt < stop.toInt →
        ∀ order e, IsOrder start stop order → Yields program wiring order (.failed e) →
        (∀ other, IsOrder start stop other → Precedes other order →
          ∃ r, Yields program wiring other r) →
        ∃ first cause, IsOrder start stop first ∧ Yields program wiring first (.failed cause) ∧
          (∀ other e, IsOrder start stop other → Yields program wiring other (.failed e) →
            other = first ∨ Precedes first other) ∧
          Settles program start stop wiring (.failed cause)) :=
  ⟨fun _ => maxSignal_eq_none_iff, settles_best, fun hne _ _ => settles_failed hne⟩

/-- With a program that writes twice its signal and its phase, the phases 0 and 1 are best the other
way round.  A program that halts at once gives no signal in any order. -/
theorem search_settles_two :
    let doubling : Program :=
      ⟨([3, 15, 3, 16, 102, 2, 16, 16, 1, 15, 16, 16, 4, 16, 99].map Word.wrap).toArray⟩
    let halting : Program := ⟨#[.wrap 99]⟩
    Settles doubling 0 (.wrap 2) .pipeline (.done (some ([1, 0], .wrap 2))) ∧
      Settles halting 0 (.wrap 2) .pipeline (.failed (.noSignal 0)) ∧
      ∀ patience, maxSignal patience halting 0 0 .pipeline = .done none := by
  intro doubling halting
  have hlist : orders (phases 0 (.wrap 2)).length (phases 0 (.wrap 2)) = [[0, 1], [1, 0]] := by
    decide +kernel
  have horders {order : List Word} :
      IsOrder 0 (.wrap 2) order ↔ order = [0, 1] ∨ order = [1, 0] := by
    rw [isOrder_iff_mem, hlist, List.mem_pair]
  have hnone {order : List Word} (h : IsOrder 0 (.wrap 2) order) : ¬Precedes order [0, 1] := by
    obtain rfl | rfl := horders.mp h <;> decide
  have hfirst : Yields doubling .pipeline [0, 1] (.done 1) :=
    yields_pipeline 1 (by decide +kernel) nofun
  have hbest : Yields doubling .pipeline [1, 0] (.done (.wrap 2)) :=
    yields_pipeline 1 (by decide +kernel) nofun
  have hhalts {order : List Word} (h : IsOrder 0 (.wrap 2) order) :
      Yields halting .pipeline order (.failed (.noSignal 0)) := by
    obtain rfl | rfl := horders.mp h <;>
      exact yields_pipeline 1 (by decide +kernel) nofun
  have hempty := (search_settles halting 0 0 .pipeline).1
  refine ⟨?_, ?_, fun patience => (hempty patience).mpr (by decide)⟩
  · obtain ⟨order, strongest, horder, hyields, hothers, hsettles⟩ :=
      (search_settles doubling 0 (.wrap 2) .pipeline).2.1 (by decide) fun order horder => by
        obtain rfl | rfl := horders.mp horder
        · exact ⟨1, hfirst⟩
        · exact ⟨.wrap 2, hbest⟩
    have hle := (hothers [1, 0] (.wrap 2) (horders.mpr (.inr rfl)) hbest).1
    obtain rfl | rfl := horders.mp horder
    · obtain rfl := Outcome.done.inj (hyields.unique hfirst)
      exact absurd hle (by decide)
    · obtain rfl := Outcome.done.inj (hyields.unique hbest)
      exact hsettles
  · have horder := horders.mpr (.inl rfl)
    obtain ⟨first, cause, hfirst, hyields, -, hsettles⟩ :=
      (search_settles halting 0 (.wrap 2) .pipeline).2.2 (by decide) _ _ horder (hhalts horder)
        fun other hother hprecedes => absurd hprecedes (hnone hother)
    obtain rfl := Outcome.failed.inj (hyields.unique (hhalts hfirst))
    exact hsettles

end PhaseSearch

end Intcode
