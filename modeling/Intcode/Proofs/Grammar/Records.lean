import Intcode.Proofs.Grammar

/-!
# Proofs/Grammar/Records — trimming a text and cutting it at its commas

The reader trims a text, drops a last comma, cuts at the commas and trims again.  Nothing comes of
the first trimming that the second would not do (`pieces_trim`), and a last comma is one with an
empty piece behind it (`map_trim_splitOn`), so that what the reader gets are the text's `records`.
-/

namespace Intcode

namespace Text

variable {text blanks : List Char} {c : Char}

/-! ## Trimming -/

theorem trim_blanks_append (h : ∀ c ∈ blanks, isBlank c) : trim (blanks ++ text) = trim text := by
  rw [trim, trim, trimStart, trimStart, List.dropWhile_append_of_pos h]

theorem trimEnd_append_blanks (h : ∀ c ∈ blanks, isBlank c) :
    trimEnd (text ++ blanks) = trimEnd text := by
  have hreverse : ∀ c ∈ blanks.reverse, isBlank c := fun c hc => h c (List.mem_reverse.mp hc)
  rw [trimEnd, trimEnd, List.reverse_append, List.dropWhile_append_of_pos hreverse]

theorem trim_append_blanks (h : ∀ c ∈ blanks, isBlank c) : trim (text ++ blanks) = trim text := by
  rw [trim, trim, trimStart, trimStart, List.dropWhile_append]
  split
  next hempty =>
    have hblanks : blanks.dropWhile isBlank = [] := by
      rw [← List.append_nil blanks, List.dropWhile_append_of_pos h]
      rfl
    rw [hblanks, List.isEmpty_iff.mp hempty]
  next => exact trimEnd_append_blanks h

/-- What is trimmed off a text is white space. -/
theorem exists_trim (text : List Char) :
    ∃ front back, (∀ c ∈ front, isBlank c) ∧ (∀ c ∈ back, isBlank c) ∧
      text = front ++ trim text ++ back := by
  have htake : ∀ (row : List Char), ∀ c ∈ row.takeWhile isBlank, isBlank c := fun row =>
    List.all_eq_true.mp List.all_takeWhile
  refine ⟨text.takeWhile isBlank, ((trimStart text).reverse.takeWhile isBlank).reverse,
    htake text, fun c hc => htake _ c (List.mem_reverse.mp hc), ?_⟩
  rw [List.append_assoc, trim, trimEnd, ← List.reverse_append, List.takeWhile_append_dropWhile,
    List.reverse_reverse, trimStart, List.takeWhile_append_dropWhile]

/-- A trimmed text does not end in white space. -/
theorem isBlank_of_getLast?_trim (h : (trim text).getLast? = some c) : isBlank c = false := by
  have hhead := List.head?_dropWhile_not isBlank (trimStart text).reverse
  rw [trim, trimEnd, List.getLast?_reverse] at h
  rw [h] at hhead
  exact hhead

theorem trim_append_singleton_ne_nil (h : isBlank c = false) : trim (text ++ [c]) ≠ [] := by
  intro hnil
  obtain ⟨front, back, hfront, hback, htext⟩ := exists_trim (text ++ [c])
  rw [hnil, List.append_nil] at htext
  have hc : c ∈ front ++ back := htext ▸ List.mem_append_right text List.mem_cons_self
  have hblank : isBlank c := (List.mem_append.mp hc).elim (hfront c) (hback c)
  exact absurd (hblank.symm.trans h) nofun

end Text

/-! ## Cutting -/

section SplitOn

variable {sep : Char} {more : List Char}

/-- What is put in front of a text without a separator belongs to the text's first piece. -/
theorem splitOn_append_left (h : sep ∉ more) (text : List Char) :
    ∃ first after, text.splitOn sep = first :: after ∧
      (more ++ text).splitOn sep = (more ++ first) :: after := by
  induction more with
  | nil =>
    obtain ⟨first, after, htext⟩ := List.exists_cons_of_ne_nil (List.splitOn_ne_nil sep text)
    exact ⟨first, after, htext, htext⟩
  | cons c more ih =>
    obtain ⟨first, after, htext, hcut⟩ := ih fun hmem => h (List.mem_cons_of_mem c hmem)
    have hc : ¬(c == sep) = true := fun heq => h (List.mem_cons.mpr (.inl (eq_of_beq heq).symm))
    refine ⟨first, after, htext, ?_⟩
    rw [List.cons_append, List.splitOn_cons_eq_if_modifyHead, hcut, if_neg hc]
    rfl

/-- What is put behind a text without a separator belongs to the text's last piece. -/
theorem splitOn_append_right (h : sep ∉ more) (text : List Char) :
    ∃ before last, text.splitOn sep = before ++ [last] ∧
      (text ++ more).splitOn sep = before ++ [last ++ more] := by
  induction text with
  | nil => exact ⟨[], [], List.splitOn_nil sep, List.splitOn_eq_singleton h⟩
  | cons c text ih =>
    obtain ⟨before, last, htext, hcut⟩ := ih
    rw [List.cons_append, List.splitOn_cons_eq_if_modifyHead, List.splitOn_cons_eq_if_modifyHead,
      htext, hcut]
    split
    next => exact ⟨[] :: before, last, rfl, rfl⟩
    next =>
      obtain _ | ⟨piece, before⟩ := before
      · exact ⟨[], c :: last, rfl, rfl⟩
      · exact ⟨(c :: piece) :: before, last, rfl, rfl⟩

end SplitOn

/-! ## Pieces -/

variable {text blanks : List Char}

theorem comma_not_mem_of_blank (h : ∀ c ∈ blanks, Text.isBlank c) : ',' ∉ blanks := fun hmem =>
  absurd (h ',' hmem) (by decide)

theorem pieces_blanks_append (h : ∀ c ∈ blanks, Text.isBlank c) :
    pieces (blanks ++ text) = pieces text := by
  obtain ⟨first, after, htext, hcut⟩ := splitOn_append_left (comma_not_mem_of_blank h) text
  rw [pieces, pieces, htext, hcut, List.map_cons, List.map_cons, Text.trim_blanks_append h]

theorem pieces_append_blanks (h : ∀ c ∈ blanks, Text.isBlank c) :
    pieces (text ++ blanks) = pieces text := by
  obtain ⟨before, last, htext, hcut⟩ := splitOn_append_right (comma_not_mem_of_blank h) text
  rw [pieces, pieces, htext, hcut, List.map_append, List.map_append, List.map_singleton,
    List.map_singleton, Text.trim_append_blanks h]

/-- **White space around a text makes no difference to its pieces.** -/
theorem pieces_trim (text : List Char) : pieces (Text.trim text) = pieces text := by
  obtain ⟨front, back, hfront, hback, htext⟩ := Text.exists_trim text
  have hpieces := congrArg pieces htext
  rw [pieces_append_blanks hback, pieces_blanks_append hfront] at hpieces
  exact hpieces.symm

theorem records_trim (text : List Char) : records (Text.trim text) = records text := by
  rw [records, records, pieces_trim]

theorem pieces_append_comma (text : List Char) : pieces (text ++ [',']) = pieces text ++ [[]] := by
  rw [pieces, List.splitOn_append_cons_self, List.splitOn_nil, List.map_append]
  rfl

/-- **A text's records are its pieces without a last comma**, if white space does not end it. -/
theorem pieces_dropLastComma {c : Char} (hc : Text.isBlank c = false) (text : List Char) :
    pieces (Program.dropLastComma (text ++ [c])) = records (text ++ [c]) := by
  rw [Program.dropLastComma, List.getLast?_concat, records]
  by_cases hcomma : c = ','
  · rw [if_pos (congrArg some hcomma), hcomma, pieces_append_comma, List.getLast?_concat,
      if_pos rfl, List.dropLast_concat, List.dropLast_concat]
  · have hmem : ',' ∉ [c] := fun h => hcomma (List.mem_singleton.mp h).symm
    obtain ⟨before, last, -, hcut⟩ := splitOn_append_right hmem text
    have hpieces : pieces (text ++ [c]) = before.map Text.trim ++ [Text.trim (last ++ [c])] := by
      rw [pieces, hcut, List.map_append, List.map_singleton]
    have hlast : (pieces (text ++ [c])).getLast? ≠ some [] := by
      rw [hpieces, List.getLast?_concat]
      exact fun h => Text.trim_append_singleton_ne_nil hc (Option.some.inj h)
    rw [if_neg hlast, if_neg fun h => hcomma (Option.some.inj h)]

end Intcode
