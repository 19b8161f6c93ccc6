import Mathlib
import TemplateLint.Proofs.Text.Rune
import TemplateLint.Report.Caret

/-!
# Where a caret stands

The column of a finding counts characters, and a caret pads as many bytes. A character of more than
one byte is padded once when all of its bytes are, so the caret stands too far to the left behind
it; when only some of its bytes are padded, each of them is, so the caret may stand right by
accident. It does exactly if no wide character ends before the caret and no tab stands between a
wide character and the column.
-/
namespace TemplateLint

/-! ## Characters that are cut off -/

namespace Rune

theorem first_of_isTail {b : UInt8} (hb : isTail b = true) (s : Bytes) : first b s = stray b := by
  rw [isTail_iff] at hb
  have hascii : ¬ b < 0x80 := by simp [UInt8.lt_iff_toNat_lt]; omega
  have htwo : ¬ (0xc2 : UInt8) ≤ b := by simp [UInt8.le_iff_toNat_le]; omega
  have hthree : ¬ (0xe0 : UInt8) ≤ b := by simp [UInt8.le_iff_toNat_le]; omega
  have hfour : ¬ (0xf0 : UInt8) ≤ b := by simp [UInt8.le_iff_toNat_le]; omega
  unfold first
  simp only [hascii, htwo, hthree, hfour, if_false, decide_false, Bool.false_and, Bool.false_eq_true]
  split
  · rfl
  split
  · rfl
  split <;> rfl

/-- Bytes that continue a character stand for themselves where none starts. -/
theorem decode_of_isTail {s : Bytes} (h : ∀ b ∈ s, isTail b = true) : decode s = s.map stray := by
  induction s with
  | nil => rfl
  | cons b s ih =>
    rw [List.forall_mem_cons] at h
    rw [decode_cons, first_of_isTail h.1, List.map_cons, ← ih h.2]
    rfl

/-- The first byte of a character stands for itself when some of the others are missing. -/
theorem first_take {c : Char} {a : UInt8} {s : Bytes} (h : String.utf8EncodeChar c = a :: s)
    {n : Nat} (hn : n < s.length) : first a (s.take n) = stray a := by
  have happend := encode_first_append a (s.take n)
  cases hfirst : first a (s.take n) with
  | stray b =>
    rw [hfirst] at happend
    rw [(List.cons.inj happend).1]
  | char d =>
    -- the same character would be read from all of the bytes
    rw [hfirst, encode] at happend
    obtain ⟨b, t, ht⟩ := List.exists_cons_of_ne_nil (String.utf8EncodeChar_ne_nil (c := d))
    rw [ht, List.cons_append] at happend
    obtain ⟨rfl, hrest⟩ := List.cons.inj happend
    have hd := first_encodeChar ht (((s.take n).drop ((char d).width - 1)) ++ s.drop n)
    rw [← List.append_assoc, hrest, List.take_append_drop] at hd
    have hc := first_encodeChar h []
    rw [List.append_nil, hd] at hc
    cases hc
    rw [h] at ht
    cases ht
    have hlength := congrArg List.length hrest
    rw [List.length_append, List.length_take] at hlength
    omega

/-- Some of the bytes of a character, but not all, stand for themselves. -/
theorem decode_take_encodeChar (c : Char) {n : Nat} (h : n < (String.utf8EncodeChar c).length) :
    decode ((String.utf8EncodeChar c).take n) =
      ((String.utf8EncodeChar c).take n).map stray := by
  obtain ⟨a, s, hc⟩ := List.exists_cons_of_ne_nil (String.utf8EncodeChar_ne_nil (c := c))
  rw [hc] at h ⊢
  cases n with
  | zero => rfl
  | succ n =>
    have htail : ∀ b ∈ s.take n, isTail b = true :=
      fun b hb => isTail_of_mem_tail hc (List.mem_of_mem_take hb)
    rw [List.take_succ_cons, decode_cons, first_take hc (by simpa using h), List.map_cons,
      ← decode_of_isTail htail]
    rfl

end Rune

namespace Caret
open Rune

/-! ## Padding -/

/-- A mark that stands under a column of a line: one character for each one before the column, a tab
under a tab and a space under anything else, and the caret behind them. -/
def LinesUp (line : Bytes) (column : Int) (mark : Bytes) : Prop :=
  ∃ padding : Bytes, mark = padding ++ [0x5e] ∧ (padding.length : Int) = column - 1 ∧
    ∀ i < padding.length,
      padding[i]? = some (if (decode line)[i]? = some (.char '\t') then Byte.tab else Byte.space)

theorem pad_eq (r : Rune) : pad r = if r = .char '\t' then Byte.tab else Byte.space := by
  cases r with
  | stray b => rfl
  | char c =>
    have htab : c.toNat = 0x09 ↔ c = '\t' := by
      constructor
      · intro h
        rw [← Char.ofNat_toNat c, h]
      · rintro rfl
        rfl
    simp only [pad, htab, Rune.char.injEq]

theorem pad_of_wide {r : Rune} (h : 1 < r.width) : pad r = Byte.space := by
  rw [pad_eq, if_neg]
  rintro rfl
  exact absurd h (by decide)

/-- Padding is a run of spaces when there is no tab in the text. -/
theorem map_pad_eq_replicate_iff {runes : List Rune} :
    runes.map pad = List.replicate runes.length Byte.space ↔ .char '\t' ∉ runes := by
  rw [List.eq_replicate_iff, List.length_map]
  simp only [true_and, List.forall_mem_map, pad_eq]
  constructor
  · intro h hmem
    exact absurd (h _ hmem) (by decide)
  · intro h r hr
    rw [if_neg]
    rintro rfl
    exact h hr

/-- A mark lines up when each character before the column is padded. -/
theorem linesUp_iff {line padding : Bytes} {n : Nat} (h : n ≤ (decode line).length) :
    LinesUp line (n + 1) (padding ++ [0x5e]) ↔ padding = ((decode line).take n).map pad := by
  have hlength : (((decode line).take n).map pad).length = n := by simpa using h
  have hget : ∀ i < n, (((decode line).take n).map pad)[i]? =
      some (if (decode line)[i]? = some (.char '\t') then Byte.tab else Byte.space) := by
    intro i hi
    rw [List.getElem?_map, List.getElem?_take_of_lt hi, List.getElem?_eq_getElem (by omega)]
    simp [pad_eq]
  constructor
  · rintro ⟨other, heq, hother, hpad⟩
    obtain rfl := List.append_cancel_right heq
    have hn : padding.length = n := by omega
    refine List.ext_getElem? fun i => ?_
    by_cases hi : i < n
    · rw [hpad i (hn ▸ hi), hget i hi]
    · rw [List.getElem?_eq_none (by omega), List.getElem?_eq_none (by omega)]
  · rintro rfl
    refine ⟨_, rfl, by omega, fun i hi => hget i ?_⟩
    omega

/-! ## The bytes before a column -/

/-- Bytes that end within the first character are padded one by one. -/
theorem map_pad_decode_take_of_lt {c : Char} {n : Nat} (h : n < (char c).width) (t : Bytes) :
    (decode ((String.utf8EncodeChar c ++ t).take n)).map pad = List.replicate n Byte.space := by
  have hn : n < (String.utf8EncodeChar c).length := h
  rw [List.take_append_of_le_length (Nat.le_of_lt hn), decode_take_encodeChar c hn]
  refine List.eq_replicate_iff.2 ⟨?_, ?_⟩
  · simpa using Nat.le_of_lt hn
  · intro b hb
    simp only [List.map_map, List.mem_map] at hb
    obtain ⟨_, -, rfl⟩ := hb
    rfl

/-- Bytes that reach behind the first character show it as a whole. -/
theorem decode_take_of_le {c : Char} {n : Nat} (h : (char c).width ≤ n) (t : Bytes) :
    decode ((String.utf8EncodeChar c ++ t).take n) =
      char c :: decode (t.take (n - (char c).width)) := by
  have hn : (String.utf8EncodeChar c).length ≤ n := h
  rw [List.take_append, List.take_of_length_le hn, decode_encodeChar_append]
  rfl

/-- The place of a caret that pads `n` bytes suits the column behind `n` characters: every wide
character ends behind the padded bytes, and no tab follows it before the column. -/
def Suits (runes : List Rune) (n : Nat) : Prop :=
  ∀ before r behind, runes = before ++ r :: behind → 1 < r.width →
    n < (encodeAll before).length + r.width ∧ .char '\t' ∉ behind.take (n - 1 - before.length)

variable {r : Rune} {runes : List Rune} {n : Nat}

theorem suits_zero (runes : List Rune) : Suits runes 0 := by
  intro before r behind _ hr
  exact ⟨by omega, by simp⟩

theorem suits_cons_of_narrow (h : r.width = 1) : Suits (r :: runes) (n + 1) ↔ Suits runes n := by
  have hlength : r.encode.length = 1 := h
  constructor
  · rintro hsuits before q behind rfl hq
    obtain ⟨hlt, htab⟩ := hsuits (r :: before) q behind rfl hq
    rw [encodeAll_cons, List.length_append, hlength] at hlt
    rw [List.length_cons] at htab
    refine ⟨by omega, ?_⟩
    rwa [show n - 1 - before.length = n + 1 - 1 - (before.length + 1) by omega]
  · intro hsuits before q behind heq hq
    cases before with
    | nil =>
      obtain ⟨rfl, -⟩ := List.cons.inj heq
      omega
    | cons x before =>
      obtain ⟨rfl, hrunes⟩ := List.cons.inj heq
      obtain ⟨hlt, htab⟩ := hsuits before q behind hrunes hq
      rw [encodeAll_cons, List.length_append, hlength, List.length_cons]
      refine ⟨by omega, ?_⟩
      rwa [show n + 1 - 1 - (before.length + 1) = n - 1 - before.length by omega]

/-- A wide character that the padding does not reach the end of. -/
theorem suits_cons_of_lt (h : n < r.width) (hr : 1 < r.width) :
    Suits (r :: runes) n ↔ .char '\t' ∉ runes.take (n - 1) := by
  constructor
  · intro hsuits
    exact (hsuits [] r runes rfl hr).2
  · intro htab before q behind heq hq
    cases before with
    | nil =>
      obtain ⟨rfl, rfl⟩ := List.cons.inj heq
      exact ⟨by simpa using h, htab⟩
    | cons x before =>
      obtain ⟨rfl, rfl⟩ := List.cons.inj heq
      have hwidth : r.encode.length = r.width := rfl
      constructor
      · rw [encodeAll_cons, List.length_append]
        omega
      · -- the characters behind `q` are among those behind `r`
        intro hmem
        have hpos : n - 1 - before.length = n - 1 - (before.length + 1) + 1 := by
          have hlength := List.length_pos_of_mem hmem
          rw [List.length_take, List.length_cons] at hlength
          omega
        refine htab ?_
        change _ ∈ (before ++ q :: behind).take (n - 1)
        rw [List.take_append, hpos, List.take_succ_cons]
        exact List.mem_append_right _ (List.mem_cons_of_mem _ hmem)

theorem not_suits_cons_of_le (h : r.width ≤ n) (hr : 1 < r.width) : ¬ Suits (r :: runes) n := by
  intro hsuits
  have hlt := (hsuits [] r runes rfl hr).1
  rw [encodeAll_nil, List.length_nil] at hlt
  omega

/-- Padding as many bytes as characters comes to the same exactly where the place suits. -/
theorem map_pad_decode_take_iff (cs : List Char) (hn : n ≤ cs.length) :
    (decode ((cs.flatMap String.utf8EncodeChar).take n)).map pad =
      ((cs.map char).take n).map pad ↔ Suits (cs.map char) n := by
  induction cs generalizing n with
  | nil =>
    obtain rfl : n = 0 := Nat.le_zero.1 hn
    exact iff_of_true rfl (suits_zero [])
  | cons c cs ih =>
    cases n with
    | zero => exact iff_of_true rfl (suits_zero _)
    | succ n =>
      have hlength : n ≤ cs.length := Nat.le_of_succ_le_succ hn
      rw [List.flatMap_cons, List.map_cons, List.take_succ_cons, List.map_cons]
      rcases Nat.lt_or_ge (n + 1) (char c).width with hlt | hge
      · have hwide : 1 < (char c).width := by omega
        have htake : ((cs.map char).take n).length = n := by simpa using hlength
        rw [map_pad_decode_take_of_lt hlt, suits_cons_of_lt hlt hwide, pad_of_wide hwide,
          List.replicate_succ, List.cons.injEq, eq_self, true_and, eq_comm, Nat.add_sub_cancel,
          ← map_pad_eq_replicate_iff, htake]
      · rw [decode_take_of_le hge, List.map_cons]
        by_cases hwide : 1 < (char c).width
        · -- the bytes hold fewer characters than the column counts
          refine iff_of_false ?_ (not_suits_cons_of_le hge hwide)
          intro heq
          have hle := length_decode_le
            ((cs.flatMap String.utf8EncodeChar).take (n + 1 - (char c).width))
          have hsame := congrArg List.length heq
          simp only [List.length_cons, List.length_map, List.length_take] at hle hsame
          omega
        · have hpos : 0 < (char c).width := List.length_pos_of_ne_nil String.utf8EncodeChar_ne_nil
          have hnarrow : (char c).width = 1 := by omega
          rw [suits_cons_of_narrow hnarrow, hnarrow, Nat.add_sub_cancel, List.cons.injEq, eq_self,
            true_and, ih hlength]

/-- **The caret stands under its column exactly where bytes and characters agree.** For a column of a
valid line the caret lines up with the character of that number exactly if every character of more
than one byte ends behind the padded bytes, and no tab follows it before the column. -/
theorem caret_linesUp_iff {line : Bytes} (hline : line.isUtf8 = true) {column : Int}
    (hfirst : 1 ≤ column) (hlast : column ≤ line.runeCount + 1) :
    LinesUp line column (caret line column) ↔ Suits (decode line) (column - 1).toNat := by
  obtain ⟨cs, rfl⟩ := Bytes.isUtf8_iff.1 hline
  obtain ⟨n, rfl⟩ : ∃ n : Nat, column = n + 1 := ⟨(column - 1).toNat, by omega⟩
  have hdecode : decode (cs.flatMap String.utf8EncodeChar) = cs.map char := by
    simpa using decode_chars_append cs []
  have hn : n ≤ cs.length := by
    rw [Bytes.runeCount, hdecode, List.length_map] at hlast
    omega
  have hcolumn : ((n : Int) + 1 - 1).toNat = n := by omega
  rw [caret, linesUp_iff (by rwa [hdecode, List.length_map]), hcolumn, hdecode,
    map_pad_decode_take_iff cs hn]

/-- A line with a character of three bytes between two others. -/
def ideographLine : Bytes := Bytes.ofString "a日b"

/-- The second padded byte is the first one of a character, and is padded like all of it. -/
theorem ideographLine_lines_up :
    ideographLine.isUtf8 = true ∧ (3 : Int) ≤ ideographLine.runeCount + 1 ∧
      LinesUp ideographLine 3 (caret ideographLine 3) := by
  have hvalid : ideographLine.isUtf8 = true := by decide +kernel
  have hlast : (3 : Int) ≤ ideographLine.runeCount + 1 := by decide +kernel
  have hdecode : decode ideographLine = [.char 'a', .char '日', .char 'b'] := by decide +kernel
  refine ⟨hvalid, hlast, (caret_linesUp_iff hvalid (by decide) hlast).2 ?_⟩
  rw [hdecode]
  refine (suits_cons_of_narrow (by decide)).2 ((suits_cons_of_lt ?_ ?_).2 ?_) <;> decide

/-- A line with a hash behind a character of two bytes. -/
def accentedLine : Bytes := Bytes.ofString "é: #ggg"

/-- The hash is the fourth character, and the caret for its column stands under the third. -/
theorem accentedLine_caret_misplaced :
    accentedLine.isUtf8 = true ∧ Byte.newline ∉ accentedLine ∧
      (4 : Int) ≤ accentedLine.runeCount + 1 ∧
      ¬ LinesUp accentedLine 4 (caret accentedLine 4) := by
  refine ⟨by decide +kernel, by decide +kernel, by decide +kernel, ?_⟩
  rintro ⟨padding, hmark, hlength, -⟩
  have hcaret : (caret accentedLine 4).length = 3 := by decide +kernel
  rw [hmark, List.length_append, List.length_singleton] at hcaret
  omega

end Caret
end TemplateLint
