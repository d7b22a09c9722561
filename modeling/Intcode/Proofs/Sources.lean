import Intcode.Proofs.Feeding
import Intcode.Proofs.Lockstep

/-!
# Proofs/Sources — a source is as good as a queue

A source that gives certain words in turn, and then nothing, stands for these words at the end of
the queue: it is asked just when the queue is empty, and once for each word.

* `Source.Gives` — the words that a source gives in turn;
* `Machine.Sourced` — one machine has a source for what the other has queued;
* `Machine.Sourced.lockstep` — such machines go in lockstep;
* `Machine.Sourced.starves` — they starve in front of the same `READ`;
* `Machine.source_as_queue` — so their owner cannot tell them apart, however he lets them run.
-/

namespace Intcode

/-! ## What a source gives -/

namespace Source

variable {σ : Type} [Source σ]

/-- The source after it was asked so many times. -/
def asked : Nat → σ → σ
  | 0, source => source
  | n + 1, source => asked n (next source).2

/-- **The source gives these words in turn**, and then nothing any more: however often it was asked,
it answers with the next of them, if there is one left. -/
def Gives (source : σ) (words : List Word) : Prop := ∀ n, (next (asked n source)).1 = words[n]?

/-- The first answer is the first word, and the others are given from then on. -/
theorem Gives.next {source : σ} {words : List Word} (h : Gives source words) :
    (Source.next source).1 = words.head? ∧ Gives (Source.next source).2 words.tail := by
  refine ⟨(h 0).trans List.head?_eq_getElem?.symm, fun n => ?_⟩
  rw [List.getElem?_tail]
  exact h (n + 1)

/-- A source gives no other words. -/
theorem Gives.unique {source : σ} {words words' : List Word} (h : Gives source words)
    (h' : Gives source words') : words = words' :=
  List.ext_getElem? fun n => (h n).symm.trans (h' n)

end Source

/-- What is listed without gaps is given in turn. -/
theorem Supply.gives_listed (words : List Word) :
    Source.Gives (Supply.listed (words.map some)) words := by
  induction words with
  | nil =>
    intro n
    -- a list that is used up stays so
    induction n with
    | zero => rfl
    | succ n ih => exact ih
  | cons word words ih =>
    intro n
    cases n with
    | zero => rfl
    | succ n => exact ih n

/-! ## Machines with the same to read -/

namespace Machine

variable {σ : Type} [Source σ]

/-- **One machine has a source for what the other has queued**: apart from that, and from the source
itself, they are the same. -/
def Sourced (m other : Machine σ) : Prop :=
  ∃ source words, m.input.source = some source ∧ Source.Gives source words ∧
    other = (m.withSource none).feed words

namespace Sourced

/-- Both get the same word to read, or none. -/
theorem pop {m other : Machine σ} (h : Sourced m other) :
    Likewise (fun input input' => Sourced { m with input := input } { other with input := input' })
      m.input.pop other.input.pop := by
  obtain ⟨source, words, hsource, hgives, rfl⟩ := h
  have hfed : ((m.withSource none).feed words).input.queue.toList =
      m.input.queue.toList ++ words := toList_feed _ words
  cases hqueue : m.input.queue.toList with
  | cons x rest =>
    rw [hqueue, List.cons_append] at hfed
    rw [Input.pop_of_cons hqueue, Input.pop_of_cons hfed]
    refine ⟨rfl, source, words, hsource, hgives, ?_⟩
    simp only [feed, withSource, Input.withSource, Queue.toList_ofList]
  | nil =>
    obtain ⟨hfirst, hothers⟩ := hgives.next
    rw [hqueue, List.nil_append] at hfed
    rw [Input.pop_of_source hqueue hsource, hfirst]
    cases words with
    | nil =>
      rw [Input.pop_of_nil hfed rfl]
      exact ⟨rfl, _, [], rfl, hothers, rfl⟩
    | cons x rest =>
      rw [Input.pop_of_cons hfed]
      refine ⟨rfl, _, rest, rfl, hothers, ?_⟩
      simp only [feed, withSource, Input.withSource, hqueue, List.nil_append]

/-- **A machine with a source and one with a queue go in lockstep**, whatever they change. -/
theorem lockstep : Lockstep (fun _ => True) (Sourced (σ := σ)) where
  pc := fun ⟨_, _, _, _, h⟩ => h ▸ rfl
  state := fun ⟨_, _, _, _, h⟩ => h ▸ rfl
  fault := fun ⟨_, _, _, _, h⟩ => h ▸ rfl
  plan := fun ⟨_, _, _, _, h⟩ => h ▸ rfl
  withRecord _ _ := fun ⟨source, words, hsource, hgives, h⟩ =>
    ⟨source, words, hsource, hgives, h ▸ rfl⟩
  setPc _ := fun ⟨source, words, hsource, hgives, h⟩ => ⟨source, words, hsource, hgives, h ▸ rfl⟩
  setBase _ := fun ⟨source, words, hsource, hgives, h⟩ => ⟨source, words, hsource, hgives, h ▸ rfl⟩
  setMemory _ _ := fun ⟨source, words, hsource, hgives, h⟩ =>
    ⟨source, words, hsource, hgives, h ▸ rfl⟩
  pop h _ _ _ := h.pop

variable {m other : Machine σ} (h : Sourced m other)
include h

theorem execute (budget : Nat) : Likewise Sourced (m.execute budget) (other.execute budget) :=
  lockstep.execute h budget (fun _ _ => trivial) fun _ _ => trivial

/-- **They starve in front of the same `READ`**: with the source exhausted and both queues empty. -/
theorem starves {n : Nat} {e : Error} {after : Machine σ} (hstate : m.state ≠ .faulted)
    (hrun : m.execute n = (.error e, after)) (he : e.kind = .inputStarvation) :
    ∃ k < n, ∃ before before' target, m.execute k = (.ok .running, before) ∧
      other.execute k = (.ok .running, before') ∧ Sourced before before' ∧
      before.plan = .ok (.read, .receive target) ∧ before.input.queue.toList = [] ∧
      before'.input.queue.toList = [] := by
  obtain ⟨k, hk, before, last, hbefore, hstep, -⟩ :=
    exists_of_execute_stop (live_of_error hstate hrun) hrun nofun
  obtain ⟨before', hbefore', hafter⟩ := (h.execute k).exists_of_eq hbefore
  have hstep' := lockstep.step hafter (fun _ _ => trivial) fun _ _ => trivial
  obtain ⟨hplan, -⟩ | ⟨target, hplan, -, hqueue, -⟩ := step_of_error hstep
  · exact absurd he (kind_of_plan_error hplan).2.1
  · -- the other fails with the same error, so it is at a `READ` that finds its queue empty, too
    obtain ⟨_, hfails, -⟩ := hstep'.exists_of_eq hstep
    obtain ⟨hplan', -⟩ | ⟨-, -, -, hqueue', -⟩ := step_of_error hfails
    · exact absurd he (kind_of_plan_error hplan').2.1
    · exact ⟨k, hk, _, before', target, hbefore, hbefore', hafter, hplan, hqueue, hqueue'⟩

end Sourced

/-- **A source is as good as a queue.**  A machine with a source that gives certain words in turn,
and then nothing, and the same machine without a source but with these words behind its queue give
the same replies, however they are let run, and are the same afterwards, but for where the words are
that have not been read: those that the source has not given yet are behind the queue of the other.
If they starve they do so in front of the same `READ`, with the same error. -/
theorem source_as_queue (m : Machine σ) {source : σ} {words : List Word}
    (hwords : Source.Gives source words) (patience : Nat) (ops : List (Operation σ))
    (hops : ∀ op ∈ ops, op.Runs) :
    let sourced := (m.withSource (some source)).session patience ops
    let queued := ((m.withSource none).feed words).session patience ops
    sourced.1 = queued.1 ∧ sourced.2.memory = queued.2.memory ∧ sourced.2.pc = queued.2.pc ∧
      sourced.2.base = queued.2.base ∧ sourced.2.state = queued.2.state ∧
      sourced.2.fault = queued.2.fault ∧
      (∃ now left, sourced.2.input.source = some now ∧ Source.Gives now left ∧
        queued.2.input.queue.toList = sourced.2.input.queue.toList ++ left) ∧
      queued.2.input.source = none ∧
      ∀ n, (sourced.2.execute n).1 = (queued.2.execute n).1 ∧
        ∀ e after, sourced.2.state ≠ .faulted → sourced.2.execute n = (.error e, after) →
          e.kind = .inputStarvation →
            ∃ k < n, ∃ before before' target, sourced.2.execute k = (.ok .running, before) ∧
              queued.2.execute k = (.ok .running, before') ∧ Sourced before before' ∧
              before.plan = .ok (.read, .receive target) ∧ before.input.queue.toList = [] ∧
              before'.input.queue.toList = [] := by
  intro sourced queued
  have hstart : Sourced (m.withSource (some source)) ((m.withSource none).feed words) :=
    ⟨source, words, rfl, hwords, rfl⟩
  have hsession : Likewise Sourced sourced queued :=
    likewise_session (fun op hop _ _ h => Sourced.lockstep.operate h patience (hops op hop)) hstart
      (fun _ _ => trivial) fun _ _ => trivial
  obtain ⟨now, left, hnow, hleft, hqueued⟩ := hsession.snd
  refine ⟨hsession.fst, by rw [hqueued]; rfl, by rw [hqueued]; rfl, by rw [hqueued]; rfl,
    by rw [hqueued]; rfl, by rw [hqueued]; rfl, ⟨now, left, hnow, hleft, ?_⟩, by rw [hqueued]; rfl,
    fun n => ⟨(hsession.snd.execute n).fst, fun e after => hsession.snd.starves⟩⟩
  rw [hqueued]
  exact toList_feed _ left

/-- A program that writes what it reads, again and again, with one value queued and two from a
source. -/
theorem source_as_queue_echo :
    let program : Program := ⟨([3, 11, 4, 11, 1105, 1, 0].map Word.wrap).toArray⟩
    let m : Machine Supply := (create program).feed [.wrap 5]
    let supply : Supply := .listed ([.wrap 6, .wrap 7].map some)
    let ops : List (Operation Supply) := [.execute 4, .execute 9, .nextOutput, .runToHalt]
    Source.Gives supply [.wrap 6, .wrap 7] ∧ (∀ op ∈ ops, op.Runs) ∧
      ((m.withSource (some supply)).session 1 ops).1 =
        (((m.withSource none).feed [.wrap 6, .wrap 7]).session 1 ops).1 ∧
      (((m.withSource none).feed [.wrap 6, .wrap 7]).session 1 ops).1 =
        [.event (.ok (.output (.wrap 5))), .event (.ok (.output (.wrap 6))),
          .answer (.done (some (.wrap 7))), .outputs (.failed (.starved 0))] := by
  have hops : ∀ op ∈ ([.execute 4, .execute 9, .nextOutput, .runToHalt] : List (Operation Supply)),
      op.Runs := by simp [Operation.Runs]
  have hgives := Supply.gives_listed [.wrap 6, .wrap 7]
  exact ⟨hgives, hops, (source_as_queue _ hgives 1 _ hops).1, rfl⟩

end Machine

end Intcode
