import Intcode.Error

/-!
# Intcode/Outcome — how a run that may not end comes out

A program can run for ever, so whoever lets it run says how long to wait.  An outcome keeps the
three cases apart: the run ended with a value, it ended with an error, or patience ran out first.
-/

namespace Intcode

/-- How a run came out. -/
inductive Outcome (α : Type)
  | done (value : α)
  | failed (error : Error)
  /-- The run had not ended when patience ran out. -/
  | unfinished
deriving DecidableEq

namespace Outcome

variable {α β : Type}

/-- Goes on with the value, if there is one. -/
def bind (o : Outcome α) (f : α → Outcome β) : Outcome β :=
  match o with
  | .done value => f value
  | .failed error => .failed error
  | .unfinished => .unfinished

instance : Monad Outcome where
  pure := .done
  bind := bind

instance : LawfulMonad Outcome :=
  LawfulMonad.mk' Outcome (fun o => by cases o <;> rfl) (fun _ _ => rfl)
    (fun o _ _ => by cases o <;> rfl)

end Outcome

end Intcode
