import Intcode.Proofs.Feeding
import Intcode.Proofs.Patience

/-!
# Proofs/Answers — a machine that is run from output to output

Each run to the next output gives an **answer**: the value written, or none if the machine has
halted.  What matters of a machine that is connected to others is which answers it gives to what it
is fed with.

* `Machine.nextOutput_preserves`, `Machine.collect_preserves` — what every slice preserves, the run
  to the next output preserves, and the run to the end;
* `Machine.nextOutputs_feed` — a machine gives the same answers when it is fed with more;
* `Machine.nextOutputs_prefix` — when it is run less often, it gives the first of them;
* `Machine.nextOutputs_of_exchange` — and it does not matter whether it gets its input at once or
  value by value.
-/

namespace Intcode.Machine

variable {σ : Type}

@[simp] theorem feed_nil (m : Machine σ) : m.feed [] = m := by
  unfold feed
  rw [List.append_nil, Queue.ofList_toList]

theorem feed_feed (m : Machine σ) (xs ys : List Word) :
    (m.feed xs).feed ys = m.feed (xs ++ ys) := by
  unfold feed
  simp only [Queue.toList_ofList, List.append_assoc]

theorem append_feed (m : Machine σ) (x : Word) (xs : List Word) :
    (m.append x).feed xs = m.feed (x :: xs) := by
  rw [append_eq_feed, feed_feed, List.singleton_append]

variable [Source σ] {patience : Nat} {m after : Machine σ}

/-! ## One answer -/

/-- What a slice that stops the run to the next output makes of it. -/
def answer : Except Error Event → Outcome (Option Word)
  | .ok .running => .unfinished
  | .ok (.output value) => .done (some value)
  | .ok .halted => .done none
  | .error e => .failed e

/-- A run to the next output that ends does so in its last slice. -/
theorem exists_last_slice {r : Outcome (Option Word)} (h : m.nextOutput patience = (r, after))
    (hend : r ≠ .unfinished) :
    ∃ before result, execute sliceCycles before = (result, after) ∧ r = answer result := by
  induction patience generalizing m with
  | zero => exact absurd (congrArg Prod.fst h).symm hend
  | succ patience ih =>
    rw [nextOutput] at h
    rcases hslice : m.execute sliceCycles with ⟨e | _ | value | _, mid⟩ <;> rw [hslice] at h
    · obtain ⟨rfl, rfl⟩ := Prod.mk.inj h
      exact ⟨m, .error e, hslice, rfl⟩
    · exact ih h
    · obtain ⟨rfl, rfl⟩ := Prod.mk.inj h
      exact ⟨m, .ok (.output value), hslice, rfl⟩
    · obtain ⟨rfl, rfl⟩ := Prod.mk.inj h
      exact ⟨m, .ok .halted, hslice, rfl⟩

/-- **What every slice preserves, the run to the next output preserves.** -/
theorem nextOutput_preserves {P : Machine σ → Prop}
    (hslice : ∀ m, P m → P (m.execute sliceCycles).2) (hm : P m) :
    P (m.nextOutput patience).2 := by
  induction patience generalizing m with
  | zero => exact hm
  | succ patience ih =>
    have hmid := hslice m hm
    rw [nextOutput]
    rcases hrun : m.execute sliceCycles with ⟨e | _ | value | _, mid⟩ <;> rw [hrun] at hmid
    · exact hmid
    · exact ih hmid
    · exact hmid
    · exact hmid

/-- **What every slice preserves, the run to the end preserves.** -/
theorem collect_preserves {P : Machine σ → Prop}
    (hslice : ∀ m, P m → P (m.execute sliceCycles).2) (hm : P m) (n : Nat) (outputs : Array Word) :
    P (m.collect patience n outputs).2 := by
  induction n generalizing m outputs with
  | zero => exact hm
  | succ n ih =>
    have hmid : P (m.nextOutput patience).2 := nextOutput_preserves hslice hm
    rw [collect]
    rcases hrun : m.nextOutput patience with ⟨(_ | value) | e | _, mid⟩ <;> rw [hrun] at hmid
    · exact hmid
    · exact ih hmid _
    · exact hmid
    · exact hmid

theorem nextOutput_source_eq_none (hsource : m.input.source = none)
    {r : Outcome (Option Word)} (h : m.nextOutput patience = (r, after)) :
    after.input.source = none := by
  have hafter : (m.nextOutput patience).2.input.source = none :=
    nextOutput_preserves (P := fun m => m.input.source = none)
      (fun m hm => execute_source_eq_none hm sliceCycles) hsource
  rwa [h] at hafter

/-- **An answer stays when the machine is fed.** -/
theorem nextOutput_feed (hsource : m.input.source = none) {answer : Option Word}
    (h : m.nextOutput patience = (.done answer, after)) (xs : List Word) :
    (m.feed xs).nextOutput patience = (.done answer, after.feed xs) := by
  induction patience generalizing m with
  | zero => cases h
  | succ patience ih =>
    rw [nextOutput] at h ⊢
    rcases hslice : m.execute sliceCycles with ⟨e | event, mid⟩
    · rw [hslice] at h
      cases h
    · have hgoes : ¬Starved (m.execute sliceCycles).1 := hslice ▸ not_starved_ok event
      have hfed := execute_feed hsource hgoes xs
      have hsource' := execute_source_eq_none hsource sliceCycles
      rw [hslice] at h hfed hsource'
      rw [hfed]
      cases event with
      | running => exact ih hsource' h
      | output value | halted =>
        cases h
        rfl

/-! ## Answer after answer -/

/-- Runs the machine from output to output, so many times: all the answers. -/
def nextOutputs (patience n : Nat) (m : Machine σ) : Outcome (List (Option Word)) × Machine σ :=
  inTurn (fun _ => nextOutput patience) (List.replicate n ()) m

variable {n k : Nat} {answers answers' : List (Option Word)} {last last' : Machine σ}

theorem nextOutputs_succ_eq_done :
    m.nextOutputs patience (n + 1) = (.done answers, last) ↔
      ∃ answer mid more, m.nextOutput patience = (.done answer, mid) ∧
        mid.nextOutputs patience n = (.done more, last) ∧ answers = answer :: more :=
  inTurn_cons_eq_done

theorem nextOutputs_one_eq_done :
    m.nextOutputs patience 1 = (.done answers, last) ↔
      ∃ answer, m.nextOutput patience = (.done answer, last) ∧ answers = [answer] :=
  inTurn_singleton_eq_done

theorem nextOutputs_add_eq_done :
    m.nextOutputs patience (n + k) = (.done answers, last) ↔
      ∃ before mid more, m.nextOutputs patience n = (.done before, mid) ∧
        mid.nextOutputs patience k = (.done more, last) ∧ answers = before ++ more := by
  rw [nextOutputs, ← List.replicate_append_replicate]
  exact inTurn_append_eq_done

theorem length_of_nextOutputs (h : m.nextOutputs patience n = (.done answers, last)) :
    answers.length = n :=
  (length_of_inTurn h).trans List.length_replicate

/-- An answer comes first, whether the machine is fed before it or after it. -/
theorem nextOutputs_succ_of_feed (hsource : m.input.source = none) {xs : List Word}
    {first : Option Word} (hfirst : m.nextOutput patience = (.done first, after))
    (hrest : (after.feed xs).nextOutputs patience n = (.done answers, last)) :
    (m.feed xs).nextOutputs patience (n + 1) = (.done (first :: answers), last) :=
  nextOutputs_succ_eq_done.mpr
    ⟨first, after.feed xs, answers, nextOutput_feed hsource hfirst xs, hrest, rfl⟩

/-- **The answers stay when the machine is fed.** -/
theorem nextOutputs_feed (hsource : m.input.source = none)
    (h : m.nextOutputs patience n = (.done answers, last)) (xs : List Word) :
    (m.feed xs).nextOutputs patience n = (.done answers, last.feed xs) := by
  induction n generalizing m answers with
  | zero =>
    cases h
    rfl
  | succ n ih =>
    obtain ⟨answer, mid, more, hnext, hmore, rfl⟩ := nextOutputs_succ_eq_done.mp h
    have hsource' := nextOutput_source_eq_none hsource hnext
    exact nextOutputs_succ_of_feed hsource hnext (ih hsource' hmore)

/-- **A machine that is run less often gives the first of its answers.** -/
theorem nextOutputs_prefix (hnk : n ≤ k) (h : m.nextOutputs patience n = (.done answers, last))
    (h' : m.nextOutputs patience k = (.done answers', last')) : answers <+: answers' := by
  obtain ⟨j, rfl⟩ := Nat.exists_eq_add_of_le hnk
  obtain ⟨before, mid, more, hbefore, -, rfl⟩ := nextOutputs_add_eq_done.mp h'
  rw [hbefore] at h
  cases h
  exact List.prefix_append answers more

/-- A machine that is fed with less and run less often gives the first of its answers. -/
theorem nextOutputs_feed_prefix (hsource : m.input.source = none) {xs ys : List Word}
    (hxs : xs <+: ys) (hnk : n ≤ k)
    (h : (m.feed xs).nextOutputs patience n = (.done answers, last))
    (h' : (m.feed ys).nextOutputs patience k = (.done answers', last')) : answers <+: answers' := by
  obtain ⟨more, rfl⟩ := hxs
  have hfed := nextOutputs_feed (m := m.feed xs) hsource h more
  rw [feed_feed] at hfed
  exact nextOutputs_prefix hnk hfed h'

/-- Appends each value in turn and runs the machine to its next output: all the answers. -/
def exchange (patience : Nat) (values : List Word) (m : Machine σ) :
    Outcome (List (Option Word)) × Machine σ :=
  inTurn (fun value m => (m.append value).nextOutput patience) values m

/-- **A machine gives the same answers to values that it gets at once** as to those that it gets one
by one, and is the same machine afterwards. -/
theorem nextOutputs_of_exchange (hsource : m.input.source = none) {values : List Word}
    (h : m.exchange patience values = (.done answers, last)) :
    (m.feed values).nextOutputs patience values.length = (.done answers, last) := by
  induction values generalizing m answers with
  | nil =>
    cases h
    rw [feed_nil]
    rfl
  | cons value values ih =>
    obtain ⟨answer, mid, more, hnext, hmore, rfl⟩ := inTurn_cons_eq_done.mp h
    have hsource' := nextOutput_source_eq_none (m := m.append value) hsource hnext
    rw [← append_feed]
    exact nextOutputs_succ_of_feed (m := m.append value) hsource hnext (ih hsource' hmore)

end Intcode.Machine
