import Intcode.Command.Report
import Intcode.Proofs.Grammar.Parsing
import Mathlib.Data.List.TakeWhile

/-!
# Proofs/Grammar/Printing — what is printed is read back

The numerals of words with commas between them are a text of the program with these words, and so
they are with white space around the numerals and with a last comma.

* `Word.numeral_chars` — what is printed of a word is a numeral of it, and so of no other one
  (`Word.chars_inj`);
* `records_intercalate`, `records_append_comma` — the records of a printed text are the numerals of
  its words;
* `Folder.Holds.read_eq` — a text that was saved to a file is read there;
* `Program.parse_render` — so a program is read off what was printed of it;
* `Program.printing_inverse` — the same with white space and a last comma, and of the memory that is
  shown at the end of a run.
-/

namespace Intcode

/-- Nothing but white space. -/
def Blank (text : List Char) : Prop := ∀ c ∈ text, Text.isBlank c

/-! ## Numerals -/

namespace Text

theorem digitRow_natural (n : Nat) : DigitRow (natural n) := by
  rw [digitRow_iff, List.all_eq_true]
  exact ⟨Nat.toDigits_ne_nil, fun c hc =>
    Nat.isDigit_of_mem_toDigits (Nat.zero_lt_succ 9) (Nat.le_refl 10) hc⟩

theorem decimal_natural (n : Nat) : decimal (natural n) = n := by
  rw [← ofDigitChars_eq_decimal, natural, Nat.ofDigitChars_ten_toDigits]

/-- What is printed of an integer is a numeral of it. -/
theorem numeral_numeral (i : Int) : Numeral (numeral i) i := by
  cases i with
  | ofNat n =>
    have h := Numeral.unsigned (digitRow_natural n)
    rwa [decimal_natural] at h
  | negSucc n =>
    have h := Numeral.minus (digitRow_natural (n + 1))
    rwa [decimal_natural] at h

theorem not_blank_of_digit {c : Char} (h : '0' ≤ c ∧ c ≤ '9') : isBlank c = false ∧ c ≠ ',' := by
  have hlow : 48 ≤ c.toNat := h.1
  have hhigh : c.toNat ≤ 57 := h.2
  refine ⟨?_, ?_⟩
  · simp [isBlank, isIn, blankRanges]
    omega
  · rintro rfl
    exact absurd hlow (by decide)

/-- There is neither white space nor a comma in a numeral. -/
theorem not_blank_of_mem_numeral {text : List Char} {i : Int} (h : Numeral text i) :
    ∀ c ∈ text, isBlank c = false ∧ c ≠ ',' := by
  intro c hc
  obtain rfl | rfl | hdigit := h.sign_or_digit c hc
  · decide
  · decide
  · exact not_blank_of_digit hdigit

/-- Where there is no white space, none is trimmed off. -/
theorem trim_eq_self {text : List Char} (h : ∀ c ∈ text, isBlank c = false) : trim text = text := by
  have hkeep (row : List Char) (hrow : ∀ c ∈ row, isBlank c = false) :
      row.dropWhile isBlank = row :=
    List.dropWhile_eq_self_iff.mpr fun hl => by
      rw [hrow _ (List.getElem_mem hl)]
      exact nofun
  have hreverse : ∀ c ∈ text.reverse, isBlank c = false := fun c hc => h c (List.mem_reverse.mp hc)
  rw [trim, trimEnd, trimStart, hkeep text h, hkeep text.reverse hreverse, List.reverse_reverse]

end Text

theorem Numeral.ne_nil {text : List Char} {i : Int} (h : Numeral text i) : text ≠ [] := by
  cases h with
  | unsigned hrow => exact hrow.ne_nil
  | plus | minus => exact List.cons_ne_nil _ _

theorem Word.numeral_chars (w : Word) : Numeral w.chars w.toInt := Text.numeral_numeral w.toInt

/-- Words with one numeral are one word. -/
theorem Word.chars_inj {v w : Word} (h : v.chars = w.chars) : v = w := by
  have hv : read? v.chars = some v := read?_eq_some_iff.mpr v.numeral_chars
  have hw : read? w.chars = some w := read?_eq_some_iff.mpr w.numeral_chars
  exact Option.some.inj (hv.symm.trans (h ▸ hw))

/-! ## Records -/

/-- **What is printed of a word**, with white space around it, or with none. -/
inductive Printed (w : Word) : List Char → Prop
  | padded {before after : List Char} (hbefore : Blank before) (hafter : Blank after) :
    Printed w (before ++ w.chars ++ after)

namespace Printed

variable {w : Word} {piece : List Char}

theorem plain (w : Word) : Printed w w.chars := by
  have h : Printed w ([] ++ w.chars ++ []) := padded nofun nofun
  rwa [List.nil_append, List.append_nil] at h

theorem trim_eq (h : Printed w piece) : Text.trim piece = w.chars := by
  obtain ⟨hbefore, hafter⟩ := h
  rw [Text.trim_append_blanks hafter, Text.trim_blanks_append hbefore]
  exact Text.trim_eq_self fun c hc => (Text.not_blank_of_mem_numeral w.numeral_chars c hc).1

theorem comma_not_mem (h : Printed w piece) : ',' ∉ piece := by
  obtain ⟨hbefore, hafter⟩ := h
  have hchars : ',' ∉ w.chars := fun hmem =>
    (Text.not_blank_of_mem_numeral w.numeral_chars ',' hmem).2 rfl
  simp only [List.mem_append, not_or]
  exact ⟨⟨comma_not_mem_of_blank hbefore, hchars⟩, comma_not_mem_of_blank hafter⟩

end Printed

section Row

variable {words : List Word} {row : List (List Char)} (h : List.Forall₂ Printed words row)
include h

theorem map_trim_eq : row.map Text.trim = words.map Word.chars := by
  induction h with
  | nil => rfl
  | cons hpiece _ ih => rw [List.map_cons, List.map_cons, hpiece.trim_eq, ih]

theorem comma_not_mem_row : ∀ piece ∈ row, ',' ∉ piece := by
  induction h with
  | nil => exact nofun
  | cons hpiece _ ih => exact List.forall_mem_cons.mpr ⟨hpiece.comma_not_mem, ih⟩

theorem pieces_intercalate (hne : words ≠ []) :
    pieces ([','].intercalate row) = words.map Word.chars := by
  have hrow : row ≠ [] := fun hnil => hne (List.forall₂_nil_right_iff.mp (hnil ▸ h))
  rw [pieces, List.splitOn_intercalate ',' (comma_not_mem_row h) hrow, map_trim_eq h]

/-- **The records of a printed text are the numerals of its words.** -/
theorem records_intercalate : records ([','].intercalate row) = words.map Word.chars := by
  by_cases hne : words = []
  · -- no words leave no text, whose only piece is the empty one at its end
    subst hne
    obtain rfl := List.forall₂_nil_left_iff.mp h
    rfl
  · rw [records, pieces_intercalate h hne, if_neg]
    intro hlast
    obtain ⟨w, -, hw⟩ := List.mem_map.mp (List.mem_of_getLast? hlast)
    exact w.numeral_chars.ne_nil hw

/-- A last comma brings no record of its own. -/
theorem records_append_comma (hne : words ≠ []) {before after : List Char} (hbefore : Blank before)
    (hafter : Blank after) :
    records ([','].intercalate row ++ before ++ [','] ++ after) = words.map Word.chars := by
  rw [records, pieces_append_blanks hafter, pieces_append_comma, pieces_append_blanks hbefore,
    pieces_intercalate h hne, List.getLast?_concat, if_pos rfl, List.dropLast_concat]

end Row

/-! ## Files -/

/-- The file that a path leads to holds just this text. -/
structure Folder.Holds (f : Folder) (path text : String) : Prop where
  nul_not_mem : '\x00' ∉ path.toList
  ne_empty : path ≠ ""
  size_le : path.utf8ByteSize ≤ maxPath
  leads : ∃ place, f.follow (if path.toList.head? = some '/' then .outside else .inside [])
    (names path) = .ok (.inside place) ∧ f.entry? place = some (.file text.toUTF8)

/-- A file that holds a text is read as this text. -/
theorem Folder.Holds.read_eq {f : Folder} {path text : String} (h : f.Holds path text) :
    f.read path = .ok text := by
  obtain ⟨place, hfollow, hentry⟩ := h.leads
  have htext : String.fromUTF8? text.toUTF8 = some text := dif_pos text.isValidUTF8
  rw [read, if_neg h.nul_not_mem, if_neg h.ne_empty, if_neg (Nat.not_lt.mpr h.size_le)]
  simp only [hfollow, hentry, htext]

/-! ## Programs -/

namespace Program

theorem parse_of_records {text : List Char} {words : List Word}
    (h : records text = words.map Word.chars) :
    parse (.ofList text) = .ok ⟨words.toArray⟩ := by
  refine parse_of_numerals ?_
  rw [String.toList_ofList, h]
  exact List.forall₂_map_left_iff.mpr (List.forall₂_same.mpr fun w _ => w.numeral_chars)

theorem records_renderChars (words : Array Word) :
    records (renderChars words) = words.toList.map Word.chars :=
  records_intercalate (List.forall₂_map_right_iff.mpr
    (List.forall₂_same.mpr fun w _ => .plain w))

/-- **A program is read off what was printed of it.** -/
theorem parse_render (p : Program) : parse p.render = .ok p :=
  parse_of_records (records_renderChars p.image)

/-- A program is read off a line that was printed of it, too. -/
theorem parse_render_line (p : Program) : parse (p.render ++ "\n") = .ok p := by
  have hblank : Blank ['\n'] := List.forall_mem_singleton.mpr rfl
  have hrecords : records (renderChars p.image ++ ['\n']) = p.image.toList.map Word.chars := by
    rw [records, pieces_append_blanks hblank]
    exact records_renderChars p.image
  have hline := parse_of_records hrecords
  rwa [String.ofList_append] at hline

end Program

/-- A run that halts shows its memory last, if it is asked to. -/
theorem Command.output_of_halt {patience : Nat} {level : LogLevel} {path : String}
    {inputs : List Word} {noun verb : Option Word} {file : Except FileError String}
    {typed : Option (List String)} {program : Program} {outputs : Array Word}
    {last : Machine Empty} (hfile : Program.ofFile path file = .ok program)
    (hdrive : drive patience #[] (prepare program inputs noun verb).2 = (.done (), outputs, last)) :
    (report patience level (.run path inputs noun verb true) file typed).output =
      outputs.map Word.text ++ #[Program.render ⟨last.memory.words⟩] := by
  simp only [report, Command.path, hfile]
  rw [reportRun, prepare_eq]
  simp only [hdrive, Program.render]

/-- **Printing and parsing are inverse.**  A program is read off the numerals of its words with
commas between them, whatever white space is around the numerals, and with a last comma if there are
words at all.  So it is read again off what was printed of it after it was read, and what a run
shows of its memory when it halts is loaded, once it is saved, as a program with just this
memory. -/
theorem Program.printing_inverse :
    (∀ (words : List Word) (row : List (List Char)), List.Forall₂ Printed words row →
      parse (.ofList ([','].intercalate row)) = .ok ⟨words.toArray⟩ ∧
        (words ≠ [] → ∀ before after, Blank before → Blank after →
          parse (.ofList ([','].intercalate row ++ before ++ [','] ++ after)) =
            .ok ⟨words.toArray⟩)) ∧
      (∀ words : List Word, parse (.ofList ([','].intercalate (words.map Word.chars))) =
        .ok ⟨words.toArray⟩) ∧
      (∀ text p, parse text = .ok p → parse p.render = .ok p) ∧
      ∀ patience level path inputs noun verb file typed program outputs last,
        ofFile path file = .ok program →
        Command.drive patience #[] (Command.prepare program inputs noun verb).2 =
          (.done (), outputs, last) →
        let final : Program := ⟨last.memory.words⟩
        (Command.report patience level (.run path inputs noun verb true) file typed).output =
            outputs.map Word.text ++ #[final.render] ∧
          ∀ (f : Folder) saved, f.Holds saved final.render ∨ f.Holds saved (final.render ++ "\n") →
            load f saved = .ok final := by
  refine ⟨fun words row h => ⟨parse_of_records (records_intercalate h), fun hne before after hbefore
    hafter => parse_of_records (records_append_comma h hne hbefore hafter)⟩,
    fun words => parse_render ⟨words.toArray⟩, fun _ p _ => p.parse_render, ?_⟩
  intro patience level path inputs noun verb file typed program outputs last hfile hdrive final
  refine ⟨Command.output_of_halt hfile hdrive, fun f saved hsaved => ?_⟩
  obtain hsaved | hsaved := hsaved
  · rw [load, hsaved.read_eq]
    exact final.parse_render
  · rw [load, hsaved.read_eq]
    exact final.parse_render_line

/-- A word with white space and a comma around it, and a program that adds two numbers, with its
memory at the end saved to a file. -/
theorem Program.printing_inverse_add :
    let program : Program := ⟨([1101, 1, 2, 0, 99].map Word.wrap).toArray⟩
    let final : Program := ⟨([3, 1, 2, 0, 99].map Word.wrap).toArray⟩
    let folder : Folder := ⟨[(["dump"], .file "3,1,2,0,99\n".toUTF8)]⟩
    parse (.ofList [' ', '-', '5', '\n', ',', '\t']) = .ok ⟨[.wrap (-5)].toArray⟩ ∧
      parse "1101,1,2,0,99" = .ok program ∧ parse program.render = .ok program ∧
      (Command.report 1 .off (.run "add" [] none none true) (.ok "1101,1,2,0,99") none).output =
        #[final.render] ∧
      load folder "dump" = .ok final := by
  obtain ⟨hprinted, -, hagain, hdump⟩ := printing_inverse
  have hfive : Printed (.wrap (-5)) ([' '] ++ ['-', '5'] ++ ['\n']) :=
    .padded (List.forall_mem_singleton.mpr rfl) (List.forall_mem_singleton.mpr rfl)
  have hcomma := (hprinted _ _ (.cons hfive .nil)).2 (List.cons_ne_nil _ _) [] ['\t'] nofun
    (List.forall_mem_singleton.mpr rfl)
  have hparse : parse "1101,1,2,0,99" = .ok ⟨([1101, 1, 2, 0, 99].map Word.wrap).toArray⟩ := by
    decide +kernel
  have hhalts := hdump 1 .off "add" [] none none (.ok "1101,1,2,0,99") none _ #[]
    { Machine.create ⟨([1101, 1, 2, 0, 99].map Word.wrap).toArray⟩ with
      memory := ⟨([3, 1, 2, 0, 99].map Word.wrap).toArray⟩, pc := 4, state := .halted } hparse rfl
  exact ⟨hcomma, hparse, hagain _ _ hparse, by simpa using hhalts.1,
    hhalts.2 _ "dump" (.inr ⟨by decide, by decide, by decide, ["dump"], rfl, rfl⟩)⟩

end Intcode
