import Intcode.Proofs.History

/-!
# Proofs/History/Conservation — input is neither lost nor doubled nor mixed up

A history tells which values a machine was given to read since it was last started over, which of
them its `READ`s took from the queue, and what its source answered since it was installed.

* `History.conserved` — what was taken and what is still queued is what was given, in this order;
* `History.consulted` — the source has been asked for its answers and has not been asked otherwise;
* `Machine.input_conserved` — both, in any session, with what each `READ` does.
-/

namespace Intcode

open Machine

variable {σ : Type}

namespace Change

/-- The values given to read since the machine was last started over, after a change. -/
def given (before : List Word) : Change σ → List Word
  | .started inputs => inputs
  | .appended value => before ++ [value]
  | .sourced _ | .stored .. | .took .. | .asked .. => before

/-- The values taken from the queue since the machine was last started over, after a change. -/
def taken (before : List Word) : Change σ → List Word
  | .started _ => []
  | .took _ value => before ++ [value]
  | .appended _ | .sourced _ | .stored .. | .asked .. => before

/-- The source that was last installed, after a change. -/
def installed (before : Option σ) : Change σ → Option σ
  | .sourced source => source
  | .started _ | .appended _ | .stored .. | .took .. | .asked .. => before

/-- The answers of a source since it was installed, after a change. -/
def answers (before : List (Option Word)) : Change σ → List (Option Word)
  | .sourced _ => []
  | .asked _ answer => before ++ [answer]
  | .started _ | .appended _ | .stored .. | .took .. => before

end Change

namespace History

/-- The values that the machine was given to read since it was last started over. -/
def given (h : History σ) : List Word := h.foldl Change.given []

/-- The values that `READ`s took from the queue since the machine was last started over. -/
def taken (h : History σ) : List Word := h.foldl Change.taken []

/-- The source that was last installed, if it was not taken away. -/
def installed (h : History σ) : Option σ := h.foldl Change.installed none

/-- What the source answered since it was installed. -/
def answers (h : History σ) : List (Option Word) := h.foldl Change.answers []

variable (h : History σ) (change : Change σ)

@[simp] theorem given_concat : given (h ++ [change]) = change.given h.given := by simp [given]

@[simp] theorem taken_concat : taken (h ++ [change]) = change.taken h.taken := by simp [taken]

@[simp] theorem installed_concat : installed (h ++ [change]) = change.installed h.installed := by
  simp [installed]

@[simp] theorem answers_concat : answers (h ++ [change]) = change.answers h.answers := by
  simp [answers]

end History

variable [Source σ]

/-- **A source is asked again and again**: what it answers, and the source afterwards.  If there is
none, it is not asked. -/
inductive Consulted : Option σ → List (Option Word) → Option σ → Prop
  | never (source : Option σ) : Consulted source [] source
  | again {source : Option σ} {answers : List (Option Word)} {now : σ}
    (h : Consulted source answers (some now)) :
    Consulted source (answers ++ [(Source.next now).1]) (some (Source.next now).2)

namespace History

/-- **What was taken and what is still queued is what was given**, in this order. -/
theorem conserved : Kept fun (past : History σ) m =>
    past.taken ++ m.input.queue.toList = past.given where
  step := by
    intro past m changes result hdoes h
    cases hdoes with
    | reads _ _ hreads =>
      cases hreads with
      | takes hqueue => simpa [Change.taken, Change.given, hqueue] using h
      | asks | asksInVain => simpa [Change.taken, Change.given] using h
      | starves => simpa using h
    | stores => simpa [Change.taken, Change.given] using h
    | fails | emits | jumps | passes | rebases | halts => simpa using h
  resume _ h := h
  stop _ _ h := h
  reset inputs _ := by simp [Change.taken, Change.given]
  append value h := by simp [Change.taken, Change.given, ← h]
  withSource source h := by simpa [Change.taken, Change.given] using h
  poke value _ h := by simpa [Change.taken, Change.given] using h

/-- **The source is what the last one installed has become**, by being asked for its answers and by
nothing else. -/
theorem consulted : Kept fun (past : History σ) m =>
    Consulted past.installed past.answers m.input.source where
  step := by
    intro past m changes result hdoes h
    cases hdoes with
    | reads _ _ hreads =>
      cases hreads with
      | takes => simpa [Change.installed, Change.answers] using h
      -- asked in vain or not, the source has been asked once more than before
      | asks _ hsource hnext | asksInVain _ hsource hnext =>
        rw [hsource] at h
        simpa [Change.installed, Change.answers, hnext] using h.again
      | starves => simpa using h
    | stores => simpa [Change.installed, Change.answers] using h
    | fails | emits | jumps | passes | rebases | halts => simpa using h
  resume _ h := h
  stop _ _ h := h
  reset inputs h := by simpa [Change.installed, Change.answers] using h
  append value h := by simpa [Change.installed, Change.answers] using h
  withSource source _ := by simpa [Change.installed, Change.answers] using Consulted.never source
  poke value _ h := by simpa [Change.installed, Change.answers] using h

end History

namespace Machine

/-! ## A `READ` and the other instructions -/

variable {m : Machine σ}

omit [Source σ] in
/-- A `READ` is worked out as far as its destination. -/
theorem plan_of_read {fields : Fields} (h : m.instruction = .ok ⟨.read, fields⟩) :
    m.plan = ((m.operands fields).target 0).map fun target => (.read, .receive target) := by
  rw [plan, h]
  cases htarget : (m.operands fields).target 0 <;>
    simp [Operands.action, htarget, bind, Except.bind, pure, Except.pure, Except.map]

/-- An instruction other than `READ` leaves the input alone. -/
theorem does_of_ne_read (h : ∀ fields, m.instruction ≠ .ok ⟨.read, fields⟩) {changes : History σ}
    {result : Except Error Event × Machine σ} (hdoes : m.Does changes result) :
    result.2.input = m.input ∧ ∀ c ∈ changes, ∃ address value, c = .stored address value := by
  cases hdoes with
  | reads hplan =>
    obtain ⟨fields, hread⟩ := instruction_of_plan_ok hplan
    exact absurd hread (h fields)
  | stores => simp
  | fails | emits | jumps | passes | rebases | halts => simp

/-! ## A session -/

/-- **Input is neither lost nor doubled nor mixed up.**  In any session, what `READ`s took from the
queue since the machine was last started over is followed there by what was not taken yet, just as
it was given.  The source has been asked once for each of its answers, and at no other time.  A
`READ` without a destination changes nothing at all, one with a destination takes one value from the
queue, or else asks the source once, and puts what it got there; no other instruction touches the
input. -/
theorem input_conserved (program : Program) (patience : Nat) (ops : List (Operation σ)) :
    let last := (session patience ops (create program)).2
    let past := history patience ops (create program)
    past.taken ++ last.input.queue.toList = past.given ∧
      Consulted past.installed past.answers last.input.source ∧
      ∀ m : Machine σ,
        (∀ fields e, m.instruction = .ok ⟨.read, fields⟩ →
          (m.operands fields).target 0 = .error e → m.changes = [] ∧ m.step = (.error e, m)) ∧
        (∀ fields target, m.instruction = .ok ⟨.read, fields⟩ →
          (m.operands fields).target 0 = .ok target → m.Reads target m.changes m.step) ∧
        ((∀ fields, m.instruction ≠ .ok ⟨.read, fields⟩) → m.step.2.input = m.input ∧
          ∀ c ∈ m.changes, ∃ address value, c = .stored address value) := by
  intro last past
  refine ⟨History.conserved.session patience ops [] rfl,
    History.consulted.session patience ops [] (.never none), fun m => ⟨?_, ?_, ?_⟩⟩
  · intro fields e hread htarget
    have hplan : m.plan = .error e := by rw [plan_of_read hread, htarget]; rfl
    exact ⟨by rw [changes, hplan], step_of_plan_error hplan⟩
  · intro fields target hread htarget
    exact reads (by rw [plan_of_read hread, htarget]; rfl)
  · exact fun h => does_of_ne_read h m.does

/-- A program that reads a queued value and then one from a source that counts. -/
theorem input_conserved_counting :
    let program : Program := ⟨([3, 9, 3, 10, 99].map Word.wrap).toArray⟩
    let counter : Option Supply := some (.counting (.wrap 7) 1)
    let ops : List (Operation Supply) := [.append (.wrap 5), .withSource counter, .execute 3]
    let last : Machine Supply := (session 1 ops (create program)).2
    let past : History Supply := history 1 ops (create program)
    let m : Machine Supply := (session 1 [.withSource counter] (create program)).2
    past.given = [.wrap 5] ∧ past.answers = [some (.wrap 7)] ∧
      past.taken ++ last.input.queue.toList = past.given ∧
      last.input.source = some (.counting (.wrap 8) 1) ∧
      m.Reads 9 m.changes m.step ∧ m.changes = [.asked 9 (some (.wrap 7))] := by
  refine ⟨rfl, rfl, (input_conserved _ 1 _).1, rfl, ?_, rfl⟩
  exact ((input_conserved ⟨#[]⟩ 1 []).2.2 _).2.1 (Fields.ofWord (.wrap 3)) 9 rfl rfl

end Machine

end Intcode
