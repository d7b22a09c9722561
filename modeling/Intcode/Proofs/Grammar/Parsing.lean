import Mathlib.Data.List.Forall2
import Intcode.Proofs.Grammar.Numerals
import Intcode.Proofs.Grammar.Records

/-!
# Proofs/Grammar/Parsing — the parser accepts its grammar, and tells the first fault

* `Program.readRecords_of_numerals`, `Program.readRecords_of_firstFault` — what is read of a row of
  records, and what is said of it;
* `Program.words_or_firstFault` — one of the two applies to every row of records;
* `Program.exists_readRecords` — what the parser reads are the records of its text;
* `Program.parse_iff_grammar` — a text is a program exactly if its records are the numerals of the
  program's words, and the first record that is the numeral of no word is the one complained of.
-/

namespace Intcode.Program

variable {index : Nat} {record row : List Char} {rows : List (List Char)} {words : Array Word}
  {w : Word} {e : Error}

/-! ## One record -/

theorem readRecord_eq (index : Nat) (record : List Char) :
    readRecord index record =
      match Word.read? record with
      | some word => .ok word
      | none => .error (complaint index record) := by
  unfold readRecord
  split
  next => rfl
  next hne =>
    have hcomplaint : complaint index record = .noInteger index record := by
      rw [complaint, if_neg hne]
      rfl
    rcases Word.read? record with _ | word
    · exact congrArg Except.error hcomplaint.symm
    · rfl

theorem readRecord_eq_ok_iff : readRecord index record = .ok w ↔ Numeral record w.toInt := by
  rw [readRecord_eq, ← Word.read?_eq_some_iff]
  rcases Word.read? record with _ | word
  · exact ⟨nofun, nofun⟩
  · rw [Except.ok.injEq, Option.some.injEq]

theorem readRecord_eq_error_iff :
    readRecord index record = .error e ↔
      (¬∃ w : Word, Numeral record w.toInt) ∧ e = complaint index record := by
  rw [readRecord_eq, ← Word.read?_eq_none_iff]
  rcases Word.read? record with _ | word
  · exact ⟨fun h => ⟨rfl, (Except.error.inj h).symm⟩, fun h => congrArg Except.error h.2.symm⟩
  · exact ⟨nofun, nofun⟩

/-! ## Record after record -/

theorem readRecords_cons_of_numeral (h : Numeral (Text.trim row) w.toInt) :
    readRecords words (row :: rows) = readRecords (words.push w) rows := by
  rw [readRecords, readRecord_eq_ok_iff.mpr h]

/-- **Records that are numerals of words are read**, and give these words. -/
theorem readRecords_of_numerals {records : List (List Char)} {more : List Word}
    (h : List.Forall₂ (fun record (w : Word) => Numeral record w.toInt) records more)
    (hrows : rows.map Text.trim = records) :
    readRecords words rows = .ok (words ++ more) := by
  induction h generalizing words rows with
  | nil =>
    obtain rfl := List.map_eq_nil_iff.mp hrows
    rfl
  | cons hrecord _ ih =>
    obtain ⟨row, rest, rfl, rfl, hrest⟩ := List.map_eq_cons_iff.mp hrows
    rw [readRecords_cons_of_numeral hrecord, ih hrest, Array.appendList_cons]

/-- **The first fault among the records is complained of**, by its number. -/
theorem readRecords_of_firstFault {records : List (List Char)} {index : Nat}
    (h : FirstFault records index record) (hrows : rows.map Text.trim = records) :
    readRecords words rows = .error (complaint (words.size + index) record) := by
  induction h generalizing words rows with
  | here _ hrecord =>
    obtain ⟨row, rest, rfl, rfl, -⟩ := List.map_eq_cons_iff.mp hrows
    rw [readRecords, readRecord_eq_error_iff.mpr ⟨hrecord, rfl⟩]
    rfl
  | later hfirst _ ih =>
    obtain ⟨row, rest, rfl, rfl, hrest⟩ := List.map_eq_cons_iff.mp hrows
    rw [readRecords_cons_of_numeral hfirst, ih hrest, Array.size_push, Nat.add_assoc,
      Nat.add_comm 1]

/-- **Records are the numerals of words, or there is a first fault among them.** -/
theorem words_or_firstFault (records : List (List Char)) :
    (∃ words, List.Forall₂ (fun record (w : Word) => Numeral record w.toInt) records words) ∨
      ∃ index record, FirstFault records index record := by
  induction records with
  | nil => exact .inl ⟨[], .nil⟩
  | cons record rest ih =>
    by_cases hrecord : ∃ w : Word, Numeral record w.toInt
    · obtain ⟨w, hw⟩ := hrecord
      obtain ⟨words, hwords⟩ | ⟨index, fault, hfault⟩ := ih
      · exact .inl ⟨w :: words, .cons hw hwords⟩
      · exact .inr ⟨index + 1, fault, .later hw hfault⟩
    · exact .inr ⟨0, record, .here rest hrecord⟩

/-! ## A text -/

/-- What the parser reads are the records of its text. -/
theorem exists_readRecords (text : List Char) :
    ∃ rows, rows.map Text.trim = records text ∧ parseChars text = readRecords #[] rows := by
  rw [← records_trim]
  unfold parseChars
  split
  next hnil =>
    rw [hnil]
    exact ⟨[], rfl, rfl⟩
  next hne =>
    refine ⟨(dropLastComma (Text.trim text)).splitOn ',', ?_, rfl⟩
    obtain hnil | ⟨front, c, hbody⟩ := (Text.trim text).eq_nil_or_concat
    · exact absurd hnil hne
    · rw [List.concat_eq_append] at hbody
      -- the reader drops a comma only where no white space can follow it any more
      have hc : Text.isBlank c = false :=
        Text.isBlank_of_getLast?_trim (hbody ▸ List.getLast?_concat)
      rw [hbody]
      exact pieces_dropLastComma hc front

theorem parse_of_numerals {text : String} {image : List Word}
    (h : List.Forall₂ (fun record (w : Word) => Numeral record w.toInt)
      (records text.toList) image) :
    parse text = .ok ⟨image.toArray⟩ := by
  obtain ⟨rows, hrows, hparse⟩ := exists_readRecords text.toList
  rw [parse, hparse, readRecords_of_numerals h hrows, List.toArray_appendList,
    List.nil_append]

theorem parse_of_firstFault {text : String} (h : FirstFault (records text.toList) index record) :
    parse text = .error (complaint index record) := by
  obtain ⟨rows, hrows, hparse⟩ := exists_readRecords text.toList
  rw [parse, hparse, readRecords_of_firstFault h hrows, Array.size_empty, Nat.zero_add]

/-- **A text is a program exactly if its records are the numerals of the program's words**, in their
order.  Otherwise it is an error, about the first record that is the numeral of no word. -/
theorem parse_iff_grammar (text : String) :
    (∀ p : Program, parse text = .ok p ↔
      List.Forall₂ (fun record (w : Word) => Numeral record w.toInt)
        (records text.toList) p.image.toList) ∧
    ∀ e, parse text = .error e ↔
      ∃ index record, FirstFault (records text.toList) index record ∧
        e = complaint index record := by
  have heither := words_or_firstFault (records text.toList)
  refine ⟨fun p => ⟨fun h => ?_, parse_of_numerals⟩, fun e => ⟨fun h => ?_, ?_⟩⟩
  · obtain ⟨words, hwords⟩ | ⟨index, record, hfault⟩ := heither
    · rw [parse_of_numerals hwords] at h
      obtain rfl := Except.ok.inj h
      exact hwords
    · rw [parse_of_firstFault hfault] at h
      cases h
  · obtain ⟨words, hwords⟩ | ⟨index, record, hfault⟩ := heither
    · rw [parse_of_numerals hwords] at h
      cases h
    · rw [parse_of_firstFault hfault] at h
      exact ⟨index, record, hfault, (Except.error.inj h).symm⟩
  · rintro ⟨index, record, hfault, rfl⟩
    exact parse_of_firstFault hfault

end Intcode.Program
