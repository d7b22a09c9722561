import Intcode.Proofs.Slicing

/-!
# Proofs/Patience — how long one waits makes no difference

A run is given some patience, and is unfinished if that does not last.  Once a run ends, more
patience changes nothing: then what it comes to is what it gives with any patience at all that is
enough (`Patient.comesTo_iff`).

* `Machine.nextOutput_patient` — the run to the next output is patient;
* `inTurn_patient` — so are calls that are made one after the other, if each of them is;
* `inTurn_cons_eq_done`, `inTurn_append_eq_done` — a row of calls, taken apart.
-/

namespace Intcode

variable {ι α β S : Type}

/-- A run that comes out so leaves some state along with that. -/
theorem eq_pair_of_fst {r : Outcome α × S} {o : Outcome α} (h : r.1 = o) : r = (o, r.2) :=
  Prod.ext h rfl

/-- More patience makes no difference to the run, once it ends. -/
def Patient (run : Nat → Outcome α × S) : Prop :=
  ∀ p q, p ≤ q → (run p).1 ≠ .unfinished → run q = run p

theorem Patient.comesTo_iff {run : Nat → Outcome α × S} (h : Patient run)
    {result : Outcome α × S} :
    ComesTo run result ↔ result.1 ≠ .unfinished ∧ ∃ p, run p = result := by
  constructor
  · rintro ⟨hend, enough, heq⟩
    exact ⟨hend, enough, heq enough (Nat.le_refl enough)⟩
  · rintro ⟨hend, p, rfl⟩
    exact ⟨hend, p, fun q hq => h p q hq hend⟩

theorem Patient.of_le {run : Nat → Outcome α × S} (h : Patient run) {p q : Nat} (hpq : p ≤ q)
    {result : Outcome α × S} (hend : result.1 ≠ .unfinished) (hp : run p = result) :
    run q = result := by
  subst hp
  exact h p q hpq hend

/-! ## One call after the other -/

/-- Goes on with the value that a call gives and the state it leaves; a call that gives none has the
last word. -/
def proceed (r : Outcome α × S) (go : α → S → Outcome β × S) : Outcome β × S :=
  match r with
  | (.done value, s) => go value s
  | (.failed e, s) => (.failed e, s)
  | (.unfinished, s) => (.unfinished, s)

theorem proceed_eq_done {r : Outcome α × S} {go : α → S → Outcome β × S} {value : β} {last : S} :
    proceed r go = (.done value, last) ↔
      ∃ x mid, r = (.done x, mid) ∧ go x mid = (.done value, last) := by
  constructor
  · intro h
    obtain ⟨x | e | _, mid⟩ := r
    · exact ⟨x, mid, rfl, h⟩
    · cases h
    · cases h
  · rintro ⟨x, mid, rfl, h⟩
    exact h

theorem Patient.proceed {run : Nat → Outcome α × S} {go : Nat → α → S → Outcome β × S}
    (hrun : Patient run) (hgo : ∀ x s, Patient (go · x s)) :
    Patient fun p => Intcode.proceed (run p) (go p) := by
  intro p q hpq hend
  dsimp only at hend ⊢
  have hfirst := hrun p q hpq
  rcases hp : run p with ⟨x | e | _, s⟩
  · rw [hp] at hend hfirst
    rw [hfirst nofun]
    exact hgo x s p q hpq hend
  · rw [hp] at hfirst
    rw [hfirst nofun]
    rfl
  · rw [hp] at hend
    exact absurd rfl hend

/-- Makes one call after the other, as long as they give values: all these values, and the state
afterwards. -/
def inTurn (call : ι → S → Outcome α × S) : List ι → S → Outcome (List α) × S
  | [], s => (.done [], s)
  | i :: rest, s =>
    proceed (call i s) fun value s =>
      proceed (inTurn call rest s) fun values s => (.done (value :: values), s)

/-- **A row of patient calls is patient.** -/
theorem inTurn_patient {call : Nat → ι → S → Outcome α × S} (h : ∀ i s, Patient (call · i s))
    (row : List ι) (s : S) : Patient fun p => inTurn (call p) row s := by
  induction row generalizing s with
  | nil => exact fun _ _ _ _ => rfl
  | cons i rest ih =>
    exact (h i s).proceed fun value s => (ih s).proceed fun values s _ _ _ _ => rfl

section InTurn

variable {call : ι → S → Outcome α × S} {s last : S} {values : List α}

theorem inTurn_nil_eq_done : inTurn call [] s = (.done values, last) ↔ values = [] ∧ last = s := by
  constructor
  · intro h
    cases h
    exact ⟨rfl, rfl⟩
  · rintro ⟨rfl, rfl⟩
    rfl

/-- A row of calls is its first call and the others. -/
theorem inTurn_cons_eq_done {i : ι} {rest : List ι} :
    inTurn call (i :: rest) s = (.done values, last) ↔
      ∃ value mid more, call i s = (.done value, mid) ∧
        inTurn call rest mid = (.done more, last) ∧ values = value :: more := by
  rw [inTurn, proceed_eq_done]
  constructor
  · rintro ⟨value, mid, hcall, h⟩
    obtain ⟨more, last', hrest, heq⟩ := proceed_eq_done.mp h
    cases heq
    exact ⟨value, mid, more, hcall, hrest, rfl⟩
  · rintro ⟨value, mid, more, hcall, hrest, rfl⟩
    exact ⟨value, mid, hcall, proceed_eq_done.mpr ⟨more, last, hrest, rfl⟩⟩

theorem inTurn_singleton_eq_done {i : ι} :
    inTurn call [i] s = (.done values, last) ↔
      ∃ value, call i s = (.done value, last) ∧ values = [value] := by
  rw [inTurn_cons_eq_done]
  constructor
  · rintro ⟨value, mid, more, hcall, hrest, rfl⟩
    obtain ⟨rfl, rfl⟩ := inTurn_nil_eq_done.mp hrest
    exact ⟨value, hcall, rfl⟩
  · rintro ⟨value, hcall, rfl⟩
    exact ⟨value, last, [], hcall, rfl, rfl⟩

/-- **A row of calls may be cut anywhere.** -/
theorem inTurn_append_eq_done {row row' : List ι} :
    inTurn call (row ++ row') s = (.done values, last) ↔
      ∃ before mid after, inTurn call row s = (.done before, mid) ∧
        inTurn call row' mid = (.done after, last) ∧ values = before ++ after := by
  induction row generalizing s values with
  | nil =>
    constructor
    · intro h
      exact ⟨[], s, values, rfl, h, rfl⟩
    · rintro ⟨before, mid, after, hrow, hrow', rfl⟩
      obtain ⟨rfl, rfl⟩ := inTurn_nil_eq_done.mp hrow
      exact hrow'
  | cons i row ih =>
    rw [List.cons_append, inTurn_cons_eq_done]
    constructor
    · rintro ⟨value, mid, more, hcall, hrest, rfl⟩
      obtain ⟨before, cut, after, hrow, hrow', rfl⟩ := ih.mp hrest
      have hfirst := inTurn_cons_eq_done.mpr ⟨value, mid, before, hcall, hrow, rfl⟩
      exact ⟨value :: before, cut, after, hfirst, hrow', rfl⟩
    · rintro ⟨before, cut, after, hfirst, hrow', rfl⟩
      obtain ⟨value, mid, more, hcall, hrow, rfl⟩ := inTurn_cons_eq_done.mp hfirst
      exact ⟨value, mid, more ++ after, hcall, ih.mpr ⟨more, cut, after, hrow, hrow', rfl⟩, rfl⟩

/-- Each call gives one value. -/
theorem length_of_inTurn {row : List ι} (h : inTurn call row s = (.done values, last)) :
    values.length = row.length := by
  induction row generalizing s values with
  | nil => exact congrArg List.length (inTurn_nil_eq_done.mp h).1
  | cons i row ih =>
    obtain ⟨value, mid, more, -, hrest, rfl⟩ := inTurn_cons_eq_done.mp h
    exact congrArg (· + 1) (ih hrest)

end InTurn

/-! ## To the next output -/

namespace Machine

variable {σ : Type} [Source σ]

theorem nextOutput_patient (m : Machine σ) : Patient (nextOutput · m) := by
  intro p
  dsimp only
  induction p generalizing m with
  | zero => exact fun q _ hend => absurd rfl hend
  | succ p ih =>
    intro q hpq hend
    obtain ⟨q, rfl⟩ := Nat.exists_eq_succ_of_ne_zero (Nat.ne_zero_of_lt hpq)
    rw [nextOutput] at hend
    rw [nextOutput, nextOutput]
    rcases hslice : m.execute sliceCycles with ⟨e | _ | value | _, after⟩
    · rfl
    · rw [hslice] at hend
      exact ih after q (Nat.le_of_succ_le_succ hpq) hend
    · rfl
    · rfl

end Machine

end Intcode
