import Intcode.Proofs.Answers

/-!
# Proofs/Session — a machine in the hands of its owner

The owner of a machine may start it over, give it more to read, look into its memory and patch it,
change its source, and run it in one way or another.  A **session** is a row of such operations on
one machine: `Machine.operate` carries out a single one, and `Machine.session` all of them, with the
replies that they give.

Runs that may not end are given some patience, the same throughout a session.
-/

namespace Intcode

/-- What the owner of a machine may do with it. -/
inductive Operation (σ : Type)
  /-- Start it over, with these values to read. -/
  | reset (inputs : List Word)
  /-- Add one value to those to be read. -/
  | append (value : Word)
  /-- Put a word at an address. -/
  | poke (address : Nat) (value : Word)
  /-- Look at the word at an address. -/
  | peek (address : Nat)
  /-- Install a source, or take it away. -/
  | withSource (source : Option σ)
  | execute (budget : Nat)
  | nextOutput
  | runToHalt
  | runToCompletion (inputs : List Word)

/-- Whether an operation starts the machine over. -/
def Operation.Restarts {σ : Type} : Operation σ → Prop
  | .reset _ | .runToCompletion _ => True
  | .append _ | .poke .. | .peek _ | .withSource _ | .execute _ | .nextOutput | .runToHalt => False

/-- Whether an operation lets the machine run on from where it is, and does nothing else. -/
def Operation.Runs {σ : Type} : Operation σ → Prop
  | .execute _ | .nextOutput | .runToHalt => True
  | .reset _ | .append _ | .poke .. | .peek _ | .withSource _ | .runToCompletion _ => False

/-- What an operation gives back. -/
inductive Reply
  | nothing
  | poked (result : Except Error Unit)
  | word (word : Word)
  | event (result : Except Error Event)
  | answer (outcome : Outcome (Option Word))
  | outputs (outcome : Outcome (Array Word))

namespace Machine

variable {σ : Type}

/-! ## The input in the owner's hand -/

section Input

variable (m : Machine σ)

@[simp] theorem toList_queue_reset (inputs : List Word) :
    (m.reset inputs).input.queue.toList = inputs := Queue.toList_ofList inputs

@[simp] theorem source_reset (inputs : List Word) :
    (m.reset inputs).input.source = m.input.source := rfl

@[simp] theorem toList_queue_append (value : Word) :
    (m.append value).input.queue.toList = m.input.queue.toList ++ [value] :=
  Queue.toList_push m.input.queue value

@[simp] theorem source_append (value : Word) :
    (m.append value).input.source = m.input.source := rfl

@[simp] theorem queue_withSource (source : Option σ) :
    (m.withSource source).input.queue = m.input.queue := rfl

@[simp] theorem source_withSource (source : Option σ) :
    (m.withSource source).input.source = source := rfl

end Input

/-! ## Operations -/

variable [Source σ]

/-- Carries out an operation: the reply, and the machine afterwards. -/
def operate (patience : Nat) (m : Machine σ) : Operation σ → Reply × Machine σ
  | .reset inputs => (.nothing, m.reset inputs)
  | .append value => (.nothing, m.append value)
  | .poke address value => ((m.poke address value).map .poked id)
  | .peek address => (.word (m.peek address), m)
  | .withSource source => (.nothing, m.withSource source)
  | .execute budget => (m.execute budget).map .event id
  | .nextOutput => (m.nextOutput patience).map .answer id
  | .runToHalt => (m.runToHalt patience).map .outputs id
  | .runToCompletion inputs => (m.runToCompletion patience inputs).map .outputs id

/-- Carries out operations, one after the other: all the replies, and the machine afterwards. -/
def session (patience : Nat) : List (Operation σ) → Machine σ → List Reply × Machine σ
  | [], m => ([], m)
  | op :: ops, m =>
    ((m.operate patience op).1 :: (session patience ops (m.operate patience op).2).1,
      (session patience ops (m.operate patience op).2).2)

@[simp] theorem session_nil (patience : Nat) (m : Machine σ) : session patience [] m = ([], m) :=
  rfl

@[simp] theorem session_cons (patience : Nat) (op : Operation σ) (ops : List (Operation σ))
    (m : Machine σ) :
    session patience (op :: ops) m =
      ((m.operate patience op).1 :: (session patience ops (m.operate patience op).2).1,
        (session patience ops (m.operate patience op).2).2) :=
  rfl

end Machine

end Intcode
