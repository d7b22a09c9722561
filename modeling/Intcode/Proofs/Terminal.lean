import Intcode.Proofs.Grammar.Printing
import Intcode.Proofs.Sources
import Intcode.Terminal

/-!
# Proofs/Terminal — what is said at a terminal

What happens at a terminal is told by its **transcript**: which lines were typed at its prompts, and
which values it was given to show.  The lines still untyped, the number of prompts and the screen
follow from that.

* `Terminal.Accounts` — a transcript accounts for what has become of a terminal;
* `Terminal.exists_answers` — a terminal that is asked takes lines up to the first that is a word;
* `Terminal.gives` — so it is a source of the words among its lines;
* `Transcript.screen_filter` — but for the refusals, its screen shows what it was given to show.
-/

namespace Intcode

/-! ## Transcripts -/

/-- What happens at a terminal. -/
inductive Turn
  /-- At a prompt, a line is typed that is no word; it is refused. -/
  | refused (line : String)
  /-- At a prompt, a line is typed that is a word. -/
  | accepted (line : String)
  /-- At a prompt, no line is typed, and none will be. -/
  | ended
  /-- A value is shown. -/
  | shown (value : Word)

namespace Turn

/-- The line that is typed. -/
def line? : Turn → Option String
  | refused line | accepted line => some line
  | ended | shown _ => none

/-- Whether a prompt is shown. -/
def prompts : Turn → Bool
  | refused _ | accepted _ | ended => true
  | shown _ => false

/-- The line that appears on the screen, the prompt apart. -/
def display? : Turn → Option String
  | refused _ => some Terminal.refusal
  | shown value => some value.text
  | accepted _ | ended => none

/-- The value that is shown. -/
def value? : Turn → Option Word
  | shown value => some value
  | refused _ | accepted _ | ended => none

end Turn

/-- What happens at a terminal, turn after turn. -/
abbrev Transcript : Type := List Turn

namespace Transcript

/-- The lines that were typed. -/
def lines (talk : Transcript) : List String := talk.filterMap Turn.line?

/-- The number of prompts. -/
def prompts (talk : Transcript) : Nat := talk.countP Turn.prompts

/-- The lines that appeared on the screen, the prompts apart. -/
def screen (talk : Transcript) : List String := talk.filterMap Turn.display?

/-- The values that were shown. -/
def values (talk : Transcript) : List Word := talk.filterMap Turn.value?

section Append

variable (talk more : Transcript)

@[simp] theorem lines_append : lines (talk ++ more) = lines talk ++ lines more :=
  List.filterMap_append

@[simp] theorem prompts_append : prompts (talk ++ more) = prompts talk + prompts more :=
  List.countP_append

@[simp] theorem screen_append : screen (talk ++ more) = screen talk ++ screen more :=
  List.filterMap_append

@[simp] theorem values_append : values (talk ++ more) = values talk ++ values more :=
  List.filterMap_append

end Append

/-- The transcript of lines that are all refused. -/
def refusals (lines : List String) : Transcript := lines.map .refused

@[simp] theorem lines_refusals (lines : List String) : (refusals lines).lines = lines := by
  induction lines with
  | nil => rfl
  | cons line lines ih => exact congrArg (line :: ·) ih

@[simp] theorem prompts_refusals (lines : List String) :
    (refusals lines).prompts = lines.length := by
  rw [prompts, refusals, List.countP_map]
  exact List.countP_eq_length.mpr fun _ _ => rfl

@[simp] theorem values_refusals (lines : List String) : (refusals lines).values = [] := by
  rw [values, refusals, List.filterMap_map]
  exact List.filterMap_eq_nil_iff.mpr fun _ _ => rfl

end Transcript

/-- No word is shown like a refusal. -/
theorem Word.text_ne_refusal (w : Word) : w.text ≠ Terminal.refusal := by
  intro h
  have hread : read? w.chars = some w := read?_eq_some_iff.mpr w.numeral_chars
  have hchars : w.chars = Terminal.refusal.toList := by
    rw [← h, text, String.toList_ofList]
  rw [hchars] at hread
  cases hread

/-- **But for the refusals, the screen shows the values**, each on a line. -/
theorem Transcript.screen_filter (talk : Transcript) :
    talk.screen.filter (· ≠ Terminal.refusal) = talk.values.map Word.text := by
  rw [screen, values, List.filter_filterMap, List.map_filterMap]
  refine congrArg (talk.filterMap ·) (funext fun turn => ?_)
  cases turn with
  | refused | accepted | ended => rfl
  | shown value => exact Option.filter_some_pos (decide_eq_true value.text_ne_refusal)

/-! ## Terminals -/

namespace Terminal

/-- **A transcript accounts for what has become of a terminal.** -/
structure Accounts (talk : Transcript) (before after : Terminal) : Prop where
  untyped : before.untyped = talk.lines ++ after.untyped
  prompts : after.prompts = before.prompts + talk.prompts
  screen : after.screen.toList = before.screen.toList ++ talk.screen

theorem Accounts.nil (t : Terminal) : Accounts [] t t :=
  ⟨rfl, rfl, (List.append_nil _).symm⟩

theorem Accounts.append {talk more : Transcript} {t mid after : Terminal}
    (h : Accounts talk t mid) (hmore : Accounts more mid after) :
    Accounts (talk ++ more) t after where
  untyped := by
    rw [h.untyped, hmore.untyped, Transcript.lines_append, List.append_assoc]
  prompts := by
    rw [hmore.prompts, h.prompts, Transcript.prompts_append, Nat.add_assoc]
  screen := by
    rw [hmore.screen, h.screen, Transcript.screen_append, List.append_assoc]

/-- A value that is displayed is a turn of its own. -/
theorem accounts_observe (t : Terminal) (value : Word) :
    Accounts [.shown value] t (Source.observe value t) :=
  ⟨rfl, rfl, Array.toList_push⟩

/-- **What a terminal does that is asked for a word**: it refuses lines up to the first that is one,
or until no more lines come. -/
inductive Answers (t : Terminal) : Transcript → Option Word × Terminal → Prop
  | accepted {lines line word after} (hlines : ∀ l ∈ lines, readLine? l = none)
    (hline : readLine? line = some word)
    (haccounts : Accounts (Transcript.refusals lines ++ [.accepted line]) t after) :
    Answers t (Transcript.refusals lines ++ [.accepted line]) (some word, after)
  | ended {lines after} (hlines : ∀ l ∈ lines, readLine? l = none) (hleft : after.untyped = [])
    (haccounts : Accounts (Transcript.refusals lines ++ [.ended]) t after) :
    Answers t (Transcript.refusals lines ++ [.ended]) (none, after)

section Answers

variable {t : Terminal} {talk : Transcript} {answer : Option Word} {after : Terminal}

theorem Answers.accounts (h : t.Answers talk (answer, after)) : Accounts talk t after := by
  cases h with
  | accepted _ _ haccounts | ended _ _ haccounts => exact haccounts

/-- A terminal that is asked shows no value. -/
theorem Answers.values_eq (h : t.Answers talk (answer, after)) : talk.values = [] := by
  cases h with
  | accepted | ended =>
    rw [Transcript.values_append, Transcript.values_refusals]
    rfl

/-- Every prompt takes a line, but for the last one if there is no answer. -/
theorem Answers.prompts_eq (h : t.Answers talk (answer, after)) :
    talk.prompts = talk.lines.length + if answer = none then 1 else 0 := by
  cases h with
  | accepted | ended =>
    rw [Transcript.prompts_append, Transcript.lines_append, Transcript.prompts_refusals,
      Transcript.lines_refusals, List.length_append]
    rfl

/-- There is an answer unless no more lines come. -/
theorem Answers.untyped_eq_nil (h : t.Answers talk (none, after)) : after.untyped = [] := by
  cases h with
  | ended _ hleft => exact hleft

end Answers

/-! ## Asking -/

/-- The terminal after its first line was refused. -/
def refuse (t : Terminal) : Terminal :=
  ⟨t.untyped.tail, t.prompts + 1, t.screen.push refusal⟩

section Next

variable {t : Terminal} {line : String} {rest : List String} {word : Word}

theorem next_of_nil (huntyped : t.untyped = []) :
    Source.next t = (none, ⟨[], t.prompts + 1, t.screen⟩) := by
  change ask t.untyped t.prompts t.screen = _
  rw [huntyped, ask]

theorem next_of_accepted (huntyped : t.untyped = line :: rest)
    (hline : readLine? line = some word) :
    Source.next t = (some word, ⟨rest, t.prompts + 1, t.screen⟩) := by
  change ask t.untyped t.prompts t.screen = _
  rw [huntyped, ask, hline]

/-- A terminal whose first line is refused answers as it does after that. -/
theorem next_of_refused (huntyped : t.untyped = line :: rest) (hline : readLine? line = none) :
    Source.next t = Source.next t.refuse := by
  change ask t.untyped t.prompts t.screen = ask t.untyped.tail (t.prompts + 1) _
  rw [huntyped, ask, hline]
  rfl

theorem untyped_refuse (huntyped : t.untyped = line :: rest) : t.refuse.untyped = rest :=
  congrArg List.tail huntyped

theorem accounts_refuse (huntyped : t.untyped = line :: rest) :
    Accounts [.refused line] t t.refuse :=
  ⟨huntyped.trans (congrArg (line :: ·) (untyped_refuse huntyped).symm), rfl, Array.toList_push⟩

theorem Answers.of_refuse {talk : Transcript} {answer : Option Word × Terminal}
    (huntyped : t.untyped = line :: rest) (hline : readLine? line = none)
    (h : t.refuse.Answers talk answer) : t.Answers (.refused line :: talk) answer := by
  have hrefuse := accounts_refuse huntyped
  cases h with
  | accepted hlines hline' haccounts =>
    exact .accepted (List.forall_mem_cons.mpr ⟨hline, hlines⟩) hline' (hrefuse.append haccounts)
  | ended hlines hleft haccounts =>
    exact .ended (List.forall_mem_cons.mpr ⟨hline, hlines⟩) hleft (hrefuse.append haccounts)

end Next

/-- **A terminal that is asked takes lines up to the first that is a word.** -/
theorem exists_answers (t : Terminal) : ∃ talk, t.Answers talk (Source.next t) := by
  induction huntyped : t.untyped generalizing t with
  | nil =>
    rw [next_of_nil huntyped]
    have hlines : ∀ l ∈ ([] : List String), readLine? l = none := List.forall_mem_nil _
    exact ⟨_, .ended hlines rfl ⟨huntyped, rfl, (List.append_nil _).symm⟩⟩
  | cons line rest ih =>
    cases hline : readLine? line with
    | some word =>
      rw [next_of_accepted huntyped hline]
      have hlines : ∀ l ∈ ([] : List String), readLine? l = none := List.forall_mem_nil _
      exact ⟨_, .accepted hlines hline ⟨huntyped, rfl, (List.append_nil _).symm⟩⟩
    | none =>
      obtain ⟨talk, hanswers⟩ := ih t.refuse (untyped_refuse huntyped)
      rw [next_of_refused huntyped hline]
      exact ⟨_, hanswers.of_refuse huntyped hline⟩

/-- **A terminal gives the words among its lines**, in turn. -/
theorem gives (t : Terminal) : Source.Gives t (t.untyped.filterMap readLine?) := by
  induction huntyped : t.untyped generalizing t with
  | nil =>
    intro n
    -- a terminal at which no more lines come stays so, however often it is asked
    induction n generalizing t with
    | zero =>
      rw [Source.asked, next_of_nil huntyped]
      rfl
    | succ n ih =>
      rw [Source.asked, next_of_nil huntyped]
      exact ih _ rfl
  | cons line rest ih =>
    cases hline : readLine? line with
    | some word =>
      rw [List.filterMap_cons_some hline]
      intro n
      cases n with
      | zero =>
        rw [Source.asked, next_of_accepted huntyped hline]
        rfl
      | succ n =>
        rw [Source.asked, next_of_accepted huntyped hline]
        exact ih _ rfl n
    | none =>
      rw [List.filterMap_cons_none hline]
      intro n
      have hrest := ih t.refuse (untyped_refuse huntyped) n
      cases n with
      | zero => rwa [Source.asked, next_of_refused huntyped hline]
      | succ n => rwa [Source.asked, next_of_refused huntyped hline]

/-- What a terminal displays does not change what it gives. -/
theorem gives_observe {t : Terminal} {words : List Word} (h : Source.Gives t words) (value : Word) :
    Source.Gives (Source.observe value t) words :=
  h.unique t.gives ▸ (Source.observe value t).gives

end Terminal

end Intcode
