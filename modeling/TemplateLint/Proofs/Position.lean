import Mathlib
import TemplateLint.Position
import TemplateLint.Proofs.Text.Rune

/-!
# Lines, columns and offsets

The position behind a text is computed rune by rune; the place of a character is also a line of
the text, cut at its newlines, and an index into the runes of that line. The two agree: in a
valid text the rune that starts at an offset is the one found at the position of that offset.
-/
namespace TemplateLint

namespace Bytes

/-- The rune at a line and a column, both counted from one. Lines are the pieces of the text
between its newlines, columns count the runes of a line. -/
def runeAt? (s : Bytes) (line column : Int) : Option Rune :=
  if 1 ≤ line ∧ 1 ≤ column then
    (lines s)[(line - 1).toNat]?.bind fun l => (Rune.decode l)[(column - 1).toNat]?
  else none

/-- Induction over the lines of a text: a text is a single line, or a line in front of a text. -/
theorem lineInduction {motive : Bytes → Prop} (last : ∀ s, Byte.newline ∉ s → motive s)
    (line : ∀ s t, Byte.newline ∉ s → motive t → motive (s ++ Byte.newline :: t)) (s : Bytes) :
    motive s := by
  induction h : s.length using Nat.strong_induction_on generalizing s with
  | _ n ih =>
    by_cases hs : Byte.newline ∈ s
    · obtain ⟨a, b, rfl, ha⟩ := List.eq_append_cons_of_mem hs
      refine line a b ha (ih b.length ?_ b rfl)
      simp only [List.length_append, List.length_cons] at h
      omega
    · exact last s hs

theorem lines_of_not_mem {s : Bytes} (h : Byte.newline ∉ s) : lines s = [s] :=
  List.splitOn_eq_singleton h

theorem lines_append_newline {s : Bytes} (h : Byte.newline ∉ s) (t : Bytes) :
    lines (s ++ Byte.newline :: t) = s :: lines t :=
  List.splitOn_append_cons_self_of_not_mem h t

/-- The lines before a newline and those behind it. -/
theorem lines_append (s t : Bytes) : lines (s ++ Byte.newline :: t) = lines s ++ lines t := by
  induction s using lineInduction with
  | last s hs => rw [lines_append_newline hs, lines_of_not_mem hs, List.singleton_append]
  | line s u hs ih =>
    rw [List.append_assoc, List.cons_append, lines_append_newline hs, ih, lines_append_newline hs,
      List.cons_append]

theorem lines_flatMap {α : Type} {text : α → Bytes} {xs : List α}
    (h : ∀ x ∈ xs, Byte.newline ∉ text x) :
    lines (xs.flatMap fun x => text x ++ [Byte.newline]) = xs.map text ++ [[]] := by
  induction xs with
  | nil => rfl
  | cons x xs ih =>
    rw [List.forall_mem_cons] at h
    rw [List.flatMap_cons, List.append_assoc, List.singleton_append, lines_append_newline h.1,
      ih h.2, List.map_cons, List.cons_append]

theorem mem_of_mem_lines {s line : Bytes} (h : line ∈ lines s) {b : UInt8} (hb : b ∈ line) :
    b ∈ s := by
  induction s using lineInduction with
  | last s hs =>
    rw [lines_of_not_mem hs, List.mem_singleton] at h
    rwa [← h]
  | line s t hs ih =>
    rw [lines_append_newline hs, List.mem_cons] at h
    rcases h with rfl | h
    · exact List.mem_append_left _ hb
    · exact List.mem_append_right _ (List.mem_cons_of_mem _ (ih h))

theorem length_lines (s : Bytes) : (lines s).length = s.count Byte.newline + 1 := by
  induction s using lineInduction with
  | last s hs => rw [lines_of_not_mem hs, List.count_eq_zero_of_not_mem hs, List.length_singleton]
  | line s t hs ih =>
    rw [lines_append_newline hs, List.length_cons, ih, List.count_append, List.count_cons_self,
      List.count_eq_zero_of_not_mem hs, Nat.zero_add]

theorem isUtf8_before_newline {s t : Bytes} (h : isUtf8 (s ++ Byte.newline :: t)) :
    isUtf8 s = true :=
  isUtf8_of_append_cons h (Rune.isTail_of_ascii (by decide))

theorem isUtf8_behind_newline {s t : Bytes} (h : isUtf8 (s ++ Byte.newline :: t)) :
    isUtf8 t = true := by
  have ht := isUtf8_of_append h (isUtf8_before_newline h)
  rwa [isUtf8_ascii_cons (by decide)] at ht

/-- A text whose lines are valid is valid. -/
theorem isUtf8_of_lines {s : Bytes} (h : ∀ line ∈ lines s, isUtf8 line) : isUtf8 s = true := by
  induction s using lineInduction with
  | last s hs => exact h s (by simp [lines_of_not_mem hs])
  | line s t hs ih =>
    rw [lines_append_newline hs, List.forall_mem_cons] at h
    rw [isUtf8_append h.1, isUtf8_ascii_cons (by decide)]
    exact ih h.2

end Bytes

namespace Rune

/-- The newline character. -/
theorem decode_newline_cons (s : Bytes) :
    decode (Byte.newline :: s) = char '\n' :: decode s :=
  decode_ascii_cons (by decide) s

theorem eq_of_isNewline {r : Rune} (h : r.isNewline = true) : r = char '\n' := by
  cases r with
  | char c =>
    simp only [isNewline, code, beq_iff_eq] at h
    rw [← Char.ofNat_toNat c, h]
  | stray b => simp [isNewline, code] at h

theorem encode_sublist_of_mem {r : Rune} {s : Bytes} (h : r ∈ decode s) :
    r.encode.Sublist s := by
  have := List.sublist_flatten_of_mem (List.mem_map_of_mem (f := encode) h)
  rwa [← List.flatMap_def, ← encodeAll, encodeAll_decode] at this

/-- A text without the newline byte has no newline among its runes. -/
theorem isNewline_of_mem_decode {r : Rune} {s : Bytes} (hs : Byte.newline ∉ s)
    (h : r ∈ decode s) : r.isNewline = false := by
  by_contra hr
  rw [Bool.not_eq_false] at hr
  have := encode_sublist_of_mem h
  rw [eq_of_isNewline hr] at this
  exact hs (List.singleton_sublist.1 this)

end Rune

namespace Position
open Bytes Rune

@[simp] theorem after_nil (p : Position) : p.after [] = p := rfl

theorem after_append (p : Position) {s : Bytes} (h : isUtf8 s) (t : Bytes) :
    p.after (s ++ t) = (p.after s).after t := by
  simp [after, decode_append h]

@[simp] theorem after_newline_cons (p : Position) (s : Bytes) :
    p.after (Byte.newline :: s) = (⟨p.line + 1, 1⟩ : Position).after s := by
  rw [after, decode_newline_cons]
  rfl

/-- Behind a text on one line only the column has moved. -/
theorem after_of_not_mem (p : Position) {s : Bytes} (h : Byte.newline ∉ s) :
    p.after s = ⟨p.line, p.column + runeCount s⟩ := by
  have fold (rs : List Rune) (hr : ∀ r ∈ rs, r.isNewline = false) (q : Position) :
      rs.foldl next q = ⟨q.line, q.column + rs.length⟩ := by
    induction rs generalizing q with
    | nil => rfl
    | cons r rs ih =>
      rw [List.forall_mem_cons] at hr
      rw [List.foldl_cons, ih hr.2]
      simp only [next, hr.1, Bool.false_eq_true, if_false, List.length_cons, Position.mk.injEq,
        true_and]
      omega
  exact fold _ (fun r hr => isNewline_of_mem_decode h hr) p

theorem after_append_newline (p : Position) (s t : Bytes) :
    p.after (s ++ Byte.newline :: t) = (⟨(p.after s).line + 1, 1⟩ : Position).after t := by
  rw [← after_newline_cons, after, decode_append_cons rfl, List.foldl_append, ← after, ← after]

/-- Every newline of a text leads to the next line. -/
theorem line_after (p : Position) (s : Bytes) :
    (p.after s).line = p.line + s.count Byte.newline := by
  induction s using lineInduction generalizing p with
  | last s hs => rw [after_of_not_mem p hs, List.count_eq_zero_of_not_mem hs, Nat.add_zero]
  | line s t hs ih =>
    rw [after_append_newline, after_of_not_mem p hs, ih, List.count_append, List.count_cons_self,
      List.count_eq_zero_of_not_mem hs]
    simp only
    omega

/-- From a place where the source can be cut, positions go on with the text behind it. -/
theorem ofOffset_add {source : Bytes} {o : Nat} (h : isUtf8 (source.take o)) (n : Nat) :
    ofOffset source (o + n) = (ofOffset source o).after ((source.drop o).take n) := by
  rw [ofOffset, List.take_add, after_append _ h, ← ofOffset]

theorem one_le_column_after {p : Position} (hp : 1 ≤ p.column) (s : Bytes) :
    1 ≤ (p.after s).column := by
  have fold (rs : List Rune) (p : Position) (hp : 1 ≤ p.column) :
      1 ≤ (rs.foldl next p).column := by
    induction rs generalizing p with
    | nil => exact hp
    | cons r rs ih =>
      refine ih _ ?_
      unfold next
      split
      · exact Nat.le_refl 1
      · exact Nat.le_add_left 1 p.column
  exact fold _ p hp

theorem one_le_column_ofOffset (source : Bytes) (o : Nat) :
    1 ≤ (ofOffset source o).column :=
  one_le_column_after (Nat.le_refl 1) _

/-- The line of a text that holds what follows a text `a`, and where on it. -/
theorem exists_line_after {a b : Bytes} {r : Rune} {rs : List Rune} (ha : isUtf8 a)
    (hb : isUtf8 b) (hr : decode b = r :: rs) (hn : r.isNewline = false) (l : Nat) :
    ∃ k c text, (⟨l, 1⟩ : Position).after a = ⟨l + k, c + 1⟩ ∧
      (lines (a ++ b))[k]? = some text ∧ (decode text)[c]? = some r := by
  induction a using lineInduction generalizing l with
  | last a hnl =>
    -- the line starts with `a`, and `r` is the next rune on it
    have single (x : Bytes) (hx : ∃ xs, decode x = r :: xs) :
        (decode (a ++ x))[runeCount a]? = some r := by
      obtain ⟨xs, hx⟩ := hx
      rw [decode_append ha, hx, runeCount, List.getElem?_append_right (Nat.le_refl _)]
      simp
    have place : (⟨l, 1⟩ : Position).after a = ⟨l + 0, runeCount a + 1⟩ := by
      rw [after_of_not_mem _ hnl, Nat.add_comm 1]
      rfl
    by_cases hm : Byte.newline ∈ b
    · obtain ⟨x, y, rfl, hx⟩ := List.eq_append_cons_of_mem hm
      refine ⟨0, runeCount a, a ++ x, place, ?_, single x ?_⟩
      · rw [← List.append_assoc, lines_append_newline (by simp [hnl, hx])]
        rfl
      · rw [decode_append (isUtf8_before_newline hb), decode_newline_cons] at hr
        cases hd : decode x with
        | nil =>
          rw [hd, List.nil_append] at hr
          rw [← (List.cons.inj hr).1] at hn
          exact absurd hn (by decide)
        | cons r' xs =>
          rw [hd, List.cons_append] at hr
          exact ⟨xs, by rw [(List.cons.inj hr).1]⟩
    · refine ⟨0, runeCount a, a ++ b, place, ?_, single b ⟨rs, hr⟩⟩
      rw [lines_of_not_mem (by simp [hnl, hm])]
      rfl
  | line s t hs ih =>
    obtain ⟨k, c, text, hpos, hline, hrune⟩ := ih (isUtf8_behind_newline ha) (l + 1)
    refine ⟨k + 1, c, text, ?_, ?_, hrune⟩
    · rw [after_append _ (isUtf8_before_newline ha), after_newline_cons, after_of_not_mem _ hs,
        hpos, Nat.add_assoc, Nat.add_comm 1]
    · rw [List.append_assoc, List.cons_append, lines_append_newline hs, List.getElem?_cons_succ,
        hline]

/-- The rune that follows a text stands at the position behind that text. -/
theorem runeAt?_after {a b : Bytes} {r : Rune} {rs : List Rune} (ha : isUtf8 a)
    (hb : isUtf8 b) (hr : decode b = r :: rs) (hn : r.isNewline = false) :
    (a ++ b).runeAt? (start.after a).line (start.after a).column = some r := by
  obtain ⟨k, c, text, hpos, hline, hrune⟩ := exists_line_after ha hb hr hn 1
  rw [start, hpos, runeAt?, if_pos (by simp only; omega)]
  have hk : ((1 + k : Nat) - 1 : Int).toNat = k := by omega
  have hc : ((c + 1 : Nat) - 1 : Int).toNat = c := by omega
  simp only [hk, hc, hline, Option.bind_some, hrune]

/-- A rune of a text stands at the position of its offset. -/
theorem runeAt?_ofOffset {text : Bytes} {offset : Nat} (hv : isUtf8 text)
    (hcut : isUtf8 (text.take offset)) {r : Rune} {rs : List Rune}
    (hr : decode (text.drop offset) = r :: rs) (hn : r.isNewline = false) :
    text.runeAt? (ofOffset text offset).line (ofOffset text offset).column = some r := by
  have hsplit := List.take_append_drop offset text
  have hrest := runeAt?_after hcut (isUtf8_of_append (hsplit.symm ▸ hv) hcut) hr hn
  rwa [hsplit] at hrest

end Position
end TemplateLint
