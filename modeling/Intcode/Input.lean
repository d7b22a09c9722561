import Intcode.Queue
import Intcode.Text.Numeral

/-!
# Intcode/Input — the queue a machine reads from, and the source behind it

Values are read in the order in which they were queued.  When the queue is dry, a **source** is
asked, if there is one: anything that may be asked for a word, again and again, and that changes by
being asked.  `Supply` holds a few plain ones.
-/

namespace Intcode

/-- Something that can be asked for words. -/
class Source (σ : Type) where
  /-- Asks once: the word given, if any, and the source afterwards. -/
  next : σ → Option Word × σ
  /-- Tells the source of a word that its machine has written. -/
  observe : Word → σ → σ

/-- There is no source of this kind. -/
instance : Source Empty where
  next source := nomatch source
  observe _ source := source

/-- A queue of words, and perhaps a source for when it is dry. -/
@[ext] structure Input (σ : Type) where
  /-- The words to be read. -/
  queue : Queue Word := .empty
  source : Option σ := none

namespace Input

variable {σ : Type}

/-- The input with other words in its queue; the source stays. -/
def reset (input : Input σ) (values : List Word) : Input σ :=
  { input with queue := .ofList values }

/-- The input with one more word at the end of its queue. -/
def push (input : Input σ) (value : Word) : Input σ :=
  { input with queue := input.queue.push value }

/-- The input with another source, or none. -/
def withSource (input : Input σ) (source : Option σ) : Input σ := { input with source := source }

/-- Takes the next word: from the queue, or from the source when the queue is dry. -/
def pop [Source σ] (input : Input σ) : Option Word × Input σ :=
  match input.queue.pop?, input.source with
  | some (value, rest), _ => (some value, { input with queue := rest })
  | none, none => (none, input)
  | none, some source =>
    match Source.next source with
    | (value, source) => (value, { input with source := some source })

theorem pop_of_cons [Source σ] {input : Input σ} {x : Word} {rest : List Word}
    (h : input.queue.toList = x :: rest) :
    input.pop = (some x, { input with queue := .ofList rest }) := by
  rw [pop, Queue.pop?_eq, h]

theorem pop_of_nil [Source σ] {input : Input σ} (h : input.queue.toList = [])
    (hsource : input.source = none) : input.pop = (none, input) := by
  rw [pop, Queue.pop?_eq, h, hsource]

/-- Tells the source, if there is one, of a word that the machine has written. -/
def observe [Source σ] (input : Input σ) (value : Word) : Input σ :=
  { input with source := input.source.map (Source.observe value) }

/-- The queue in brackets, and whether there is a source. -/
def text (input : Input σ) : String :=
  "Input \x7b queue: [" ++ ", ".intercalate (input.queue.toList.map Word.text) ++ "], source: " ++
    (if input.source.isSome then "true" else "false") ++ " \x7d"

end Input

/-! ## Plain sources -/

/-- Sources that follow a simple rule. -/
inductive Supply
  /-- Gives what is listed, where a gap gives nothing that once, and then nothing any more. -/
  | listed (rest : List (Option Word))
  /-- Gives a word, then the one a step further, and so on, modulo `2^64`. -/
  | counting (value step : Word)
  /-- Gives the successor of the word last seen. -/
  | following (last : Word)

instance : Source Supply where
  next
    | .listed [] => (none, .listed [])
    | .listed (value :: rest) => (value, .listed rest)
    | .counting value step => (some value, .counting (value.wrapAdd step) step)
    | .following last => (some last.succ, .following last)
  observe
    | value, .following _ => .following value
    | _, supply => supply

end Intcode
