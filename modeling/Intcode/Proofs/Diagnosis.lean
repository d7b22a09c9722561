import Intcode.Error
import Intcode.Proofs.Grammar.Printing
import Mathlib.Data.List.Induction

/-!
# Proofs/Diagnosis — an error is known by its text

The text of an error is its title with up to three parts behind it, each of which may be missing.
It can be taken apart in one way only: a title that starts another one does not go on there with a
mark, and each of the parts starts with marks of its own and ends before those of the next.

* `StartsIn.append_inj` — a text is cut in one way only where the first mark stands;
* `Error.text_inj` — errors with one text are one error;
* `Error.build?_eq_some` — an error is the last of each that was said of it, in any order;
* `Error.text_identifies` — both of errors as they are built.
-/

namespace Intcode

/-! ## Texts that start with a mark -/

/-- The text is empty or starts with one of the marks. -/
def StartsIn (marks text : List Char) : Prop := ∀ c ∈ text.head?, c ∈ marks

namespace StartsIn

variable {marks row other text rest : List Char} {c : Char}

theorem nil : StartsIn marks [] := nofun

theorem cons (h : c ∈ marks) : StartsIn marks (c :: text) := fun d hd => by
  obtain rfl : c = d := Option.some.inj hd
  exact h

theorem mono {more : List Char} (h : StartsIn marks text) (hmarks : marks ⊆ more) :
    StartsIn more text :=
  fun c hc => hmarks (h c hc)

theorem of_append (h : StartsIn marks (row ++ text)) : StartsIn marks row := by
  cases row with
  | nil => exact nil
  | cons c row => exact h

theorem takeWhile_append (h : StartsIn marks text) (hrow : ∀ c ∈ row, c ∉ marks) :
    (row ++ text).takeWhile (fun c => decide (c ∉ marks)) = row := by
  rw [List.takeWhile_append_of_pos fun c hc => decide_eq_true (hrow c hc)]
  cases text with
  | nil => simp
  | cons c text => simp [h c rfl]

/-- **Where the first mark stands, a text is cut in one way only.** -/
theorem append_inj (h : StartsIn marks text) (hrest : StartsIn marks rest)
    (hrow : ∀ c ∈ row, c ∉ marks) (hother : ∀ c ∈ other, c ∉ marks)
    (heq : row ++ text = other ++ rest) : row = other ∧ text = rest := by
  have hcut : row = other := by
    rw [← h.takeWhile_append hrow, heq, hrest.takeWhile_append hother]
  exact ⟨hcut, List.append_cancel_left (hcut ▸ heq)⟩

end StartsIn

/-! ## Titles -/

namespace ErrorKind

/-- Where a title starts another one, it does not go on with a mark. -/
theorem not_startsIn_drop_title {kind other : ErrorKind}
    (hstarts : kind.title.toList <+: other.title.toList) (hne : kind ≠ other) :
    ¬StartsIn [' ', ';'] (other.title.toList.drop kind.title.toList.length) := by
  cases kind <;> cases other <;> simp [title, StartsIn] at *

theorem eq_of_title_append {kind other : ErrorKind} {text rest : List Char}
    (h : StartsIn [' ', ';'] text)
    (heq : kind.title.toList ++ text = other.title.toList ++ rest)
    (hlength : kind.title.toList.length ≤ other.title.toList.length) : kind = other := by
  have hlonger : other.title.toList <+: kind.title.toList ++ text := ⟨rest, heq.symm⟩
  have hstarts : kind.title.toList <+: other.title.toList :=
    List.prefix_of_prefix_length_le (List.prefix_append _ text) hlonger hlength
  by_contra hne
  refine not_startsIn_drop_title hstarts hne ?_
  -- the longer title would go on with what `text` starts with
  have hdrop := congrArg (List.drop kind.title.toList.length) heq
  rw [List.drop_left, List.drop_append_of_le_length hlength] at hdrop
  exact (hdrop ▸ h).of_append

/-- **A title ends where the first part starts.** -/
theorem title_append_inj {kind other : ErrorKind} {text rest : List Char}
    (h : StartsIn [' ', ';'] text) (hrest : StartsIn [' ', ';'] rest)
    (heq : kind.title.toList ++ text = other.title.toList ++ rest) :
    kind = other ∧ text = rest := by
  have hkind : kind = other := by
    obtain hlength | hlength := Nat.le_total kind.title.toList.length other.title.toList.length
    · exact eq_of_title_append h heq hlength
    · exact (eq_of_title_append hrest heq.symm hlength).symm
  subst hkind
  exact ⟨rfl, List.append_cancel_left heq⟩

end ErrorKind

/-! ## Numerals -/

/-- The marks with which a numeral ends in an error's text: none of them is in a numeral. -/
theorem Numeral.not_mark {text : List Char} {i : Int} (h : Numeral text i) :
    ∀ c ∈ text, c ∉ [' ', ';', ')'] := by
  intro c hc hmark
  have hsign := h.sign_or_digit c hc
  simp only [List.mem_cons, List.not_mem_nil, or_false] at hmark
  obtain rfl | rfl | rfl := hmark <;> exact absurd hsign (by decide)

/-- **A numeral ends where the first mark stands.** -/
theorem Numeral.append_inj {row other text rest : List Char} {i j : Int} (hrow : Numeral row i)
    (hother : Numeral other j) (htext : StartsIn [' ', ';', ')'] text)
    (hrest : StartsIn [' ', ';', ')'] rest) (heq : row ++ text = other ++ rest) :
    row = other ∧ text = rest :=
  htext.append_inj hrest hrow.not_mark hother.not_mark heq

namespace Error

/-! ## Parts -/

variable {a a' : Option Nat} {v v' : Option Word} {d d' : String} {text rest : List Char}

theorem toList_addressPart (address : Nat) :
    (addressPart (some address)).toList = ' ' :: 'A' :: 'T' :: ' ' :: Text.natural address := by
  simp [addressPart]

theorem toList_valuePart (value : Word) :
    (valuePart (some value)).toList = ' ' :: '(' :: (value.chars ++ [')']) := by
  simp [valuePart, Word.text]

theorem drop_detailPart (d : String) : (detailPart d).toList.drop 2 = d.toList := by
  by_cases hd : d = "" <;> simp [detailPart, hd]

theorem detailPart_starts (d : String) : StartsIn [';'] (detailPart d).toList := by
  unfold detailPart
  split
  · exact .nil
  · rw [String.toList_append]
    exact .cons (List.mem_singleton.mpr rfl)

/-- **Details that are told alike are one detail.** -/
theorem detailPart_inj (h : (detailPart d).toList = (detailPart d').toList) : d = d' := by
  have hdrop := congrArg (List.drop 2) h
  rw [drop_detailPart, drop_detailPart] at hdrop
  exact String.toList_injective hdrop

/-- Where the detail starts, there is no offending word. -/
theorem ne_valuePart_append (h : StartsIn [';'] text) (value : Word) :
    text ≠ (valuePart (some value)).toList ++ rest := by
  rintro rfl
  rw [toList_valuePart] at h
  exact absurd (h ' ' rfl) (by decide)

/-- **The offending word ends with its parenthesis.** -/
theorem valuePart_append_inj (h : StartsIn [';'] text) (hrest : StartsIn [';'] rest)
    (heq : (valuePart v).toList ++ text = (valuePart v').toList ++ rest) :
    v = v' ∧ text = rest := by
  rcases v with _ | v <;> rcases v' with _ | v'
  · exact ⟨rfl, heq⟩
  · exact absurd heq (ne_valuePart_append h v')
  · exact absurd heq.symm (ne_valuePart_append hrest v)
  · have hclosed : v.chars ++ ')' :: text = v'.chars ++ ')' :: rest := by
      simpa [toList_valuePart] using heq
    obtain ⟨hchars, hrest⟩ := v.numeral_chars.append_inj v'.numeral_chars (.cons (by decide))
      (.cons (by decide)) hclosed
    exact ⟨congrArg some (Word.chars_inj hchars), List.tail_eq_of_cons_eq hrest⟩

/-- What follows the address: the offending word and the detail. -/
def afterAddress (v : Option Word) (d : String) : List Char :=
  (valuePart v).toList ++ (detailPart d).toList

theorem afterAddress_starts (v : Option Word) (d : String) :
    StartsIn [' ', ';'] (afterAddress v d) := by
  cases v with
  | none => exact (detailPart_starts d).mono (List.subset_cons_self ' ' [';'])
  | some value =>
    rw [afterAddress, toList_valuePart]
    exact .cons List.mem_cons_self

theorem afterAddress_inj (h : afterAddress v d = afterAddress v' d') : v = v' ∧ d = d' := by
  obtain ⟨hvalue, hdetail⟩ := valuePart_append_inj (detailPart_starts d) (detailPart_starts d') h
  exact ⟨hvalue, detailPart_inj hdetail⟩

/-- Where the offending word or the detail starts, there is no address. -/
theorem afterAddress_ne_addressPart_append (v : Option Word) (d : String) (address : Nat) :
    afterAddress v d ≠ (addressPart (some address)).toList ++ text := by
  intro h
  rw [toList_addressPart] at h
  cases v with
  | none =>
    have hstarts := detailPart_starts d ' ' (congrArg List.head? h)
    exact absurd hstarts (by decide)
  | some value =>
    rw [afterAddress, toList_valuePart] at h
    injection h with _ h
    injection h with h _
    exact absurd h (by decide)

/-- **The address ends before the offending word or the detail.** -/
theorem addressPart_append_inj
    (heq : (addressPart a).toList ++ afterAddress v d =
      (addressPart a').toList ++ afterAddress v' d') :
    a = a' ∧ afterAddress v d = afterAddress v' d' := by
  rcases a with _ | a <;> rcases a' with _ | a'
  · exact ⟨rfl, heq⟩
  · exact absurd heq (afterAddress_ne_addressPart_append v d a')
  · exact absurd heq.symm (afterAddress_ne_addressPart_append v' d' a)
  · have hends : Text.natural a ++ afterAddress v d = Text.natural a' ++ afterAddress v' d' := by
      simpa [toList_addressPart] using heq
    have hmarks : [' ', ';'] ⊆ [' ', ';', ')'] := by decide
    obtain ⟨haddress, hafter⟩ := (Text.numeral_numeral (.ofNat a)).append_inj
      (Text.numeral_numeral (.ofNat a')) ((afterAddress_starts v d).mono hmarks)
      ((afterAddress_starts v' d').mono hmarks) hends
    exact ⟨congrArg some (Text.natural_inj haddress), hafter⟩

theorem afterTitle_starts (a : Option Nat) (v : Option Word) (d : String) :
    StartsIn [' ', ';'] ((addressPart a).toList ++ afterAddress v d) := by
  cases a with
  | none => exact afterAddress_starts v d
  | some address =>
    rw [toList_addressPart]
    exact .cons List.mem_cons_self

/-! ## Texts -/

theorem toList_text (e : Error) : e.text.toList =
    e.kind.title.toList ++ ((addressPart e.address).toList ++ afterAddress e.value e.detail) := by
  simp only [text, afterAddress, String.toList_append, List.append_assoc]

/-- **Errors with one text are one error.** -/
theorem text_inj {e e' : Error} : e.text = e'.text ↔ e = e' := by
  refine ⟨fun h => ?_, congrArg text⟩
  have hchars := congrArg String.toList h
  rw [toList_text, toList_text] at hchars
  obtain ⟨hkind, htitle⟩ := ErrorKind.title_append_inj (afterTitle_starts _ _ _)
    (afterTitle_starts _ _ _) hchars
  obtain ⟨haddress, hafter⟩ := addressPart_append_inj htitle
  obtain ⟨hvalue, hdetail⟩ := afterAddress_inj hafter
  cases e
  cases e'
  exact Error.mk.injEq .. ▸ ⟨hkind, haddress, hvalue, hdetail⟩

/-! ## Errors as they are built -/

/-- One thing that is said of an error when it is built. -/
inductive Remark
  | address (address : Nat)
  | value (value : Word)
  | detail (detail : String)

/-- The address, if one is said. -/
def Remark.address? : Remark → Option Nat
  | address a => some a
  | _ => none

/-- The offending word, if one is said. -/
def Remark.value? : Remark → Option Word
  | value v => some v
  | _ => none

/-- The detail, if one is said. -/
def Remark.detail? : Remark → Option String
  | detail d => some d
  | _ => none

/-- The error with what is said of it; it is not placed if it is placed already. -/
def remark? (e : Error) : Remark → Option Error
  | .address a => if h : e.address = none then some (e.place a h) else none
  | .value v => some (e.withValue v)
  | .detail d => some (e.withDetail d)

/-- An error of a kind, with one remark after the other. -/
def build? (kind : ErrorKind) (remarks : List Remark) : Option Error :=
  remarks.foldlM remark? (ofKind kind)

/-- An error of a kind with the last of each that is said of it. -/
def told (kind : ErrorKind) (remarks : List Remark) : Error where
  kind := kind
  address := (remarks.filterMap Remark.address?).getLast?
  value := (remarks.filterMap Remark.value?).getLast?
  detail := (remarks.filterMap Remark.detail?).getLast?.getD ""

variable {kind kind' : ErrorKind} {remarks remarks' : List Remark} {remark : Remark}

/-- **What one remark adds.** -/
theorem remark?_told (h : remark.address?.isSome → (told kind remarks).address = none) :
    (told kind remarks).remark? remark = some (told kind (remarks ++ [remark])) := by
  cases remark with
  | address a =>
    rw [remark?, dif_pos (h rfl)]
    simp [place, atAddress, told, Remark.address?, Remark.value?, Remark.detail?]
  | value v => simp [remark?, withValue, told, Remark.address?, Remark.value?, Remark.detail?]
  | detail d => simp [remark?, withDetail, told, Remark.address?, Remark.value?, Remark.detail?]

theorem build?_concat :
    build? kind (remarks ++ [remark]) = (build? kind remarks).bind fun e => e.remark? remark := by
  rw [build?, List.foldlM_append]
  exact bind_congr fun e => bind_pure (e.remark? remark)

/-- What places an error is the first that does. -/
theorem address_told_eq_none
    (h : ((remarks ++ [remark]).filterMap Remark.address?).length ≤ 1)
    (hplaces : remark.address?.isSome) : (told kind remarks).address = none := by
  obtain ⟨a, ha⟩ := Option.isSome_iff_exists.mp hplaces
  rw [List.filterMap_append, List.length_append, List.filterMap_cons_some ha,
    List.length_cons] at h
  have hbefore : remarks.filterMap Remark.address? = [] :=
    List.eq_nil_of_length_eq_zero (by omega)
  rw [told, hbefore]
  rfl

/-- **An error is built of the last of each that is said of it**, if it is placed at most once. -/
theorem build?_eq_some (h : (remarks.filterMap Remark.address?).length ≤ 1) :
    build? kind remarks = some (told kind remarks) := by
  induction remarks using List.reverseRecOn with
  | nil => rfl
  | append_singleton remarks remark ih =>
    have hbefore : (remarks.filterMap Remark.address?).length ≤ 1 := by
      rw [List.filterMap_append, List.length_append] at h
      exact Nat.le_trans (Nat.le_add_right _ _) h
    rw [build?_concat, ih hbefore]
    exact remark?_told (address_told_eq_none h)

/-- **An error's text identifies the error.**  An error is built of any remarks, in any order but
with one address at most, and it is told by its kind and the last of each that was said.  Of two
such errors the texts are equal exactly if the errors are; and these are equal exactly if they are of
one kind and agree in the address, in the last word and in the last detail, of which an empty one is
as good as none. -/
theorem text_identifies (kind kind' : ErrorKind) (remarks remarks' : List Remark)
    (honce : (remarks.filterMap Remark.address?).length ≤ 1)
    (honce' : (remarks'.filterMap Remark.address?).length ≤ 1) :
    let e := told kind remarks
    let e' := told kind' remarks'
    build? kind remarks = some e ∧ build? kind' remarks' = some e' ∧
      (e.text = e'.text ↔ e = e') ∧
      (e = e' ↔ kind = kind' ∧
        (remarks.filterMap Remark.address?).getLast? =
          (remarks'.filterMap Remark.address?).getLast? ∧
        (remarks.filterMap Remark.value?).getLast? = (remarks'.filterMap Remark.value?).getLast? ∧
        (remarks.filterMap Remark.detail?).getLast?.getD "" =
          (remarks'.filterMap Remark.detail?).getLast?.getD "") :=
  ⟨build?_eq_some honce, build?_eq_some honce', text_inj, Iff.of_eq (Error.mk.injEq ..)⟩

/-- Two orders of remarks with a detail that looks like an address, and two kinds of which one's
title starts the other's. -/
theorem text_identifies_address :
    let remarks : List Remark := [.detail "NO; AT 2 (3)", .address 7, .value (.wrap (-5))]
    let reordered : List Remark :=
      [.value 1, .detail "", .value (.wrap (-5)), .detail "NO; AT 2 (3)", .address 7]
    build? .invalidAddress remarks = build? .invalidAddress reordered ∧
      ∃ e e', build? .invalidAddress remarks = some e ∧ build? .invalidMode reordered = some e' ∧
        e.text ≠ e'.text := by
  intro remarks reordered
  obtain ⟨hbuilt, hbuilt', -, hsame⟩ := text_identifies .invalidAddress .invalidAddress remarks
    reordered (Nat.le_refl 1) (Nat.le_refl 1)
  have hequal := hsame.mpr ⟨rfl, rfl, rfl, rfl⟩
  obtain ⟨-, hmode, htext, hother⟩ := text_identifies .invalidAddress .invalidMode remarks
    reordered (Nat.le_refl 1) (Nat.le_refl 1)
  have hkinds : told .invalidAddress remarks ≠ told .invalidMode reordered := fun h =>
    absurd (hother.mp h).1 (by decide)
  exact ⟨by rw [hbuilt, hbuilt', hequal], _, _, hbuilt, hmode, mt htext.mp hkinds⟩

end Error

end Intcode
