import Mathlib
import TemplateLint.Text.Rune

/-!
# Reading a byte string as characters

Reading and writing are inverse to each other. Every text is the bytes of its runes, a
well-formed character is read back from its own bytes whatever follows them, and so a text is
valid UTF-8 exactly when it is the encoding of a list of characters.

A valid text can be cut in front of any byte that is no continuation byte. Both halves are
valid then, and the runes of the whole are those of the halves.
-/
namespace TemplateLint

namespace Rune

/-! ## One rune -/

theorem isTail_iff {b : UInt8} : isTail b = true ↔ 0x80 ≤ b.toNat ∧ b.toNat ≤ 0xbf := by
  simp [isTail, UInt8.le_iff_toNat_le]

theorem isSecondOfThree_iff {a b : UInt8} :
    isSecondOfThree a b = true ↔ (0x80 ≤ b.toNat ∧ b.toNat ≤ 0xbf) ∧
      (a.toNat = 0xe0 → 0xa0 ≤ b.toNat) ∧ (a.toNat = 0xed → b.toNat ≤ 0x9f) := by
  simp only [isSecondOfThree, Bool.and_eq_true, isTail_iff, Bool.or_eq_true, bne_iff_ne, ne_eq,
    decide_eq_true_eq, UInt8.le_iff_toNat_le, ← UInt8.toNat_inj, UInt8.reduceToNat]
  omega

theorem isSecondOfFour_iff {a b : UInt8} :
    isSecondOfFour a b = true ↔ (0x80 ≤ b.toNat ∧ b.toNat ≤ 0xbf) ∧
      (a.toNat = 0xf0 → 0x90 ≤ b.toNat) ∧ (a.toNat = 0xf4 → b.toNat ≤ 0x8f) := by
  simp only [isSecondOfFour, Bool.and_eq_true, isTail_iff, Bool.or_eq_true, bne_iff_ne, ne_eq,
    decide_eq_true_eq, UInt8.le_iff_toNat_le, ← UInt8.toNat_inj, UInt8.reduceToNat]
  omega

/-- A byte of ASCII continues no character. -/
theorem isTail_of_ascii {b : UInt8} (h : b < 0x80) : isTail b = false := by
  simp only [UInt8.lt_iff_toNat_lt, UInt8.reduceToNat] at h
  rw [← Bool.not_eq_true, isTail_iff]
  omega

theorem val_ofNat {n : Nat} (h : n.isValidChar) : (Char.ofNat n).val.toNat = n := by
  rw [Char.ofNat, dif_pos h]
  rfl

theorem char_ofNat_of_eq {c : Char} {n : Nat} (h : n = c.toNat) :
    char (Char.ofNat n) = char c := by
  rw [h, Char.ofNat_toNat]

theorem encode_one {a : UInt8} (h : a < 0x80) : (char (Char.ofNat a.toNat)).encode = [a] := by
  simp only [UInt8.lt_iff_toNat_lt, UInt8.reduceToNat] at h
  have hv := val_ofNat (n := a.toNat) (by left; omega)
  simp only [encode, String.utf8EncodeChar, hv]
  rw [if_pos (by omega), UInt8.ofNat_toNat]

theorem encode_two {a b : UInt8} (ha : 0xc2 ≤ a ∧ a ≤ 0xdf) (hb : isTail b) :
    (two a b).encode = [a, b] := by
  simp only [isTail_iff, UInt8.le_iff_toNat_le, UInt8.reduceToNat] at ha hb
  have hv := val_ofNat (n := (a.toNat - 0xc0) * 0x40 + (b.toNat - 0x80)) (by left; omega)
  simp only [two, encode, String.utf8EncodeChar, hv]
  rw [if_neg (by omega), if_pos (by omega)]
  simp only [List.cons.injEq, and_true, ← UInt8.toNat_inj, UInt8.toNat_ofNat']
  omega

theorem encode_three {a b c : UInt8} (ha : 0xe0 ≤ a ∧ a ≤ 0xef) (hb : isSecondOfThree a b)
    (hc : isTail c) : (three a b c).encode = [a, b, c] := by
  simp only [isSecondOfThree_iff, isTail_iff, UInt8.le_iff_toNat_le, UInt8.reduceToNat]
    at ha hb hc
  have hv := val_ofNat
    (n := (a.toNat - 0xe0) * 0x1000 + (b.toNat - 0x80) * 0x40 + (c.toNat - 0x80))
    (by unfold Nat.isValidChar; omega)
  simp only [three, encode, String.utf8EncodeChar, hv]
  rw [if_neg (by omega), if_neg (by omega), if_pos (by omega)]
  simp only [List.cons.injEq, and_true, ← UInt8.toNat_inj, UInt8.toNat_ofNat']
  omega

theorem encode_four {a b c d : UInt8} (ha : 0xf0 ≤ a ∧ a ≤ 0xf4) (hb : isSecondOfFour a b)
    (hc : isTail c) (hd : isTail d) : (four a b c d).encode = [a, b, c, d] := by
  simp only [isSecondOfFour_iff, isTail_iff, UInt8.le_iff_toNat_le, UInt8.reduceToNat]
    at ha hb hc hd
  have hv := val_ofNat
    (n := (a.toNat - 0xf0) * 0x40000 + (b.toNat - 0x80) * 0x1000 + (c.toNat - 0x80) * 0x40 +
      (d.toNat - 0x80)) (by unfold Nat.isValidChar; omega)
  simp only [four, encode, String.utf8EncodeChar, hv]
  rw [if_neg (by omega), if_neg (by omega), if_neg (by omega)]
  simp only [List.cons.injEq, and_true, ← UInt8.toNat_inj, UInt8.toNat_ofNat']
  omega

/-- Reading the first rune loses nothing: its bytes and those behind it are the text. -/
theorem encode_first_append (a : UInt8) (s : Bytes) :
    (first a s).encode ++ s.drop ((first a s).width - 1) = a :: s := by
  unfold first
  split
  · next h => simp [width, encode_one h]
  · split
    · simp [width, encode]
    · split
      · next h =>
        simp only [Bool.and_eq_true, decide_eq_true_eq] at h
        simp [width, encode_two h.1 h.2]
      · split
        · simp [width, encode]
        · split
          · next h =>
            simp only [Bool.and_eq_true, decide_eq_true_eq] at h
            simp [width, encode_three h.1.1 h.1.2 h.2]
          · split
            · simp [width, encode]
            · split
              · next h =>
                simp only [Bool.and_eq_true, decide_eq_true_eq] at h
                simp [width, encode_four h.1.1.1 h.1.1.2 h.1.2 h.2]
              · simp [width, encode]

/-- A well-formed character is read back from its own bytes, whatever follows them. -/
theorem first_encodeChar {c : Char} {a : UInt8} {s : Bytes}
    (h : String.utf8EncodeChar c = a :: s) (t : Bytes) : first a (s ++ t) = char c := by
  have hv : c.val.toNat = c.toNat := rfl
  have hc : c.toNat < 0xd800 ∨ (0xdfff < c.toNat ∧ c.toNat < 0x110000) := c.valid
  simp only [String.utf8EncodeChar, hv] at h
  -- one case for each length of the encoding
  split at h
  · obtain ⟨rfl, rfl⟩ := List.cons.inj h
    simp only [first, UInt8.lt_iff_toNat_lt, UInt8.toNat_ofNat', UInt8.reduceToNat]
    rw [if_pos (by omega)]
    exact char_ofNat_of_eq (by omega)
  · split at h
    · obtain ⟨rfl, rfl⟩ := List.cons.inj h
      simp only [first, two, isTail_iff, UInt8.lt_iff_toNat_lt, UInt8.le_iff_toNat_le,
        UInt8.toNat_ofNat', UInt8.reduceToNat, List.cons_append, List.nil_append,
        Bool.and_eq_true, decide_eq_true_eq]
      rw [if_neg (by omega), if_pos (by omega)]
      exact char_ofNat_of_eq (by omega)
    · split at h
      · obtain ⟨rfl, rfl⟩ := List.cons.inj h
        simp only [first, three, isTail_iff, isSecondOfThree_iff, UInt8.lt_iff_toNat_lt,
          UInt8.le_iff_toNat_le, UInt8.toNat_ofNat', UInt8.reduceToNat, List.cons_append,
          List.nil_append, Bool.and_eq_true, decide_eq_true_eq]
        rw [if_neg (by omega), if_neg (by omega), if_pos (by omega)]
        exact char_ofNat_of_eq (by omega)
      · obtain ⟨rfl, rfl⟩ := List.cons.inj h
        simp only [first, four, isTail_iff, isSecondOfThree_iff, isSecondOfFour_iff,
          UInt8.lt_iff_toNat_lt, UInt8.le_iff_toNat_le, UInt8.toNat_ofNat', UInt8.reduceToNat,
          List.cons_append, List.nil_append, Bool.and_eq_true, decide_eq_true_eq]
        rw [if_neg (by omega), if_neg (by omega), if_neg (by omega), if_pos (by omega)]
        exact char_ofNat_of_eq (by omega)

/-- All bytes of a character but the first continue it. -/
theorem isTail_of_mem_tail {c : Char} {a b : UInt8} {s : Bytes}
    (h : String.utf8EncodeChar c = a :: s) (hb : b ∈ s) : isTail b = true := by
  have tail (n : Nat) : isTail (UInt8.ofNat (n % 0x40 + 0x80)) = true := by
    rw [isTail_iff, UInt8.toNat_ofNat']
    omega
  simp only [String.utf8EncodeChar] at h
  split at h
  · obtain ⟨-, rfl⟩ := List.cons.inj h
    simp at hb
  · split at h
    · obtain ⟨-, rfl⟩ := List.cons.inj h
      rw [List.mem_singleton.1 hb]
      exact tail _
    · split at h
      · obtain ⟨-, rfl⟩ := List.cons.inj h
        simp only [List.mem_cons, List.not_mem_nil, or_false] at hb
        rcases hb with rfl | rfl <;> exact tail _
      · obtain ⟨-, rfl⟩ := List.cons.inj h
        simp only [List.mem_cons, List.not_mem_nil, or_false] at hb
        rcases hb with rfl | rfl | rfl <;> exact tail _

/-- The first byte of a character continues none. -/
theorem isTail_head {c : Char} {a : UInt8} {s : Bytes} (h : String.utf8EncodeChar c = a :: s) :
    isTail a = false := by
  simp only [String.utf8EncodeChar] at h
  rw [Bool.eq_false_iff, ne_eq, isTail_iff]
  split at h
  · obtain ⟨rfl, -⟩ := List.cons.inj h
    rw [UInt8.toNat_ofNat']
    omega
  · split at h
    · obtain ⟨rfl, -⟩ := List.cons.inj h
      rw [UInt8.toNat_ofNat']
      omega
    · split at h
      · obtain ⟨rfl, -⟩ := List.cons.inj h
        rw [UInt8.toNat_ofNat']
        omega
      · obtain ⟨rfl, -⟩ := List.cons.inj h
        rw [UInt8.toNat_ofNat']
        omega

/-- A byte that continues no character changes nothing about the character before it. -/
theorem first_append_cons {b : UInt8} (hb : isTail b = false) (a : UInt8) (s t : Bytes) :
    first a (s ++ b :: t) = first a s := by
  match s with
  | [] => cases t with
    | nil => simp [first, hb]
    | cons c t => cases t <;> simp [first, hb, isSecondOfThree, isSecondOfFour]
  | [x] => cases t <;> simp [first, hb]
  | [x, y] => simp [first, hb]
  | x :: y :: z :: s => rfl

/-! ## Whole texts -/

theorem decodeFrom_eq (n : Nat) (s : Bytes) : decodeFrom n s = decode (s.drop n) := by
  induction n generalizing s with
  | zero => simp [decode]
  | succ n ih => cases s <;> simp [decodeFrom, decode, ih]

@[simp] theorem decode_nil : decode [] = [] := rfl

theorem decode_cons (a : UInt8) (s : Bytes) :
    decode (a :: s) = first a s :: decode (s.drop ((first a s).width - 1)) := by
  rw [decode, decodeFrom, decodeFrom_eq]

@[simp] theorem encodeAll_nil : encodeAll [] = [] := rfl

@[simp] theorem encodeAll_cons (r : Rune) (rs : List Rune) :
    encodeAll (r :: rs) = r.encode ++ encodeAll rs := rfl

@[simp] theorem encodeAll_append (rs ss : List Rune) :
    encodeAll (rs ++ ss) = encodeAll rs ++ encodeAll ss := by
  simp [encodeAll]

/-- Reading loses nothing. -/
theorem encodeAll_decode (s : Bytes) : encodeAll (decode s) = s := by
  induction h : s.length using Nat.strong_induction_on generalizing s with
  | _ n ih =>
    cases s with
    | nil => rfl
    | cons a s =>
      have shorter : (s.drop ((first a s).width - 1)).length < n := by
        simp only [List.length_drop, List.length_cons] at h ⊢
        omega
      rw [decode_cons, encodeAll_cons, ih _ shorter _ rfl, encode_first_append]

/-- A text has no more runes than bytes. -/
theorem length_decode_le (s : Bytes) : (decode s).length ≤ s.length := by
  have hle : ∀ rs : List Rune, rs.length ≤ (encodeAll rs).length := by
    intro rs
    induction rs with
    | nil => simp
    | cons r rs ih =>
      have hpos : 0 < r.encode.length := by
        cases r with
        | char c => exact List.length_pos_of_ne_nil String.utf8EncodeChar_ne_nil
        | stray b => exact Nat.one_pos
      rw [encodeAll_cons, List.length_append, List.length_cons]
      omega
  calc (decode s).length ≤ (encodeAll (decode s)).length := hle _
    _ = s.length := by rw [encodeAll_decode]

theorem width_first_le (a : UInt8) (s : Bytes) : (first a s).width - 1 ≤ s.length := by
  have hlength := congrArg List.length (encode_first_append a s)
  rw [List.length_append, List.length_drop, List.length_cons, ← width] at hlength
  omega

/-- Any text can be read in two parts in front of a byte that continues no character. -/
theorem decode_append_cons {b : UInt8} (hb : isTail b = false) (s t : Bytes) :
    decode (s ++ b :: t) = decode s ++ decode (b :: t) := by
  induction h : s.length using Nat.strong_induction_on generalizing s with
  | _ n ih =>
    cases s with
    | nil => rfl
    | cons a s =>
      have shorter : (s.drop ((first a s).width - 1)).length < n := by
        simp only [List.length_drop, List.length_cons] at h ⊢
        omega
      rw [List.cons_append, decode_cons, decode_cons, first_append_cons hb,
        List.drop_append_of_le_length (width_first_le a s), ih _ shorter _ rfl, List.cons_append]

/-- A character in front of a text is the first one read from it. -/
theorem decode_encodeChar_append (c : Char) (t : Bytes) :
    decode (String.utf8EncodeChar c ++ t) = char c :: decode t := by
  obtain ⟨a, s, h⟩ := List.exists_cons_of_ne_nil (String.utf8EncodeChar_ne_nil (c := c))
  have width_eq : (char c).width - 1 = s.length := by simp [width, encode, h]
  rw [h, List.cons_append, decode_cons, first_encodeChar h, width_eq, List.drop_left]

theorem decode_chars_append (cs : List Char) (t : Bytes) :
    decode (cs.flatMap String.utf8EncodeChar ++ t) = cs.map char ++ decode t := by
  induction cs with
  | nil => rfl
  | cons c cs ih =>
    rw [List.flatMap_cons, List.append_assoc, decode_encodeChar_append, ih]
    rfl

/-- Characters are read back from their bytes. -/
theorem decode_encodeAll {rs : List Rune} (h : ∀ r ∈ rs, ∃ c, r = Rune.char c) :
    decode (encodeAll rs) = rs := by
  induction rs with
  | nil => rfl
  | cons r rs ih =>
    rw [List.forall_mem_cons] at h
    obtain ⟨⟨c, rfl⟩, h⟩ := h
    rw [encodeAll_cons, encode, decode_encodeChar_append, ih h]

theorem decode_ascii_cons {b : UInt8} (h : b < 0x80) (s : Bytes) :
    decode (b :: s) = char (Char.ofNat b.toNat) :: decode s := by
  have hc := encode_one h
  rw [encode] at hc
  have := decode_encodeChar_append (Char.ofNat b.toNat) s
  rwa [hc] at this

/-- A byte of ASCII as a rune. -/
def ofByte (b : UInt8) : Rune := .char (Char.ofNat b.toNat)

theorem decode_of_ascii {s : Bytes} (h : ∀ b ∈ s, b < 0x80) : decode s = s.map ofByte := by
  induction s with
  | nil => rfl
  | cons b s ih =>
    rw [List.forall_mem_cons] at h
    rw [decode_ascii_cons h.1, ih h.2, List.map_cons, ofByte]

theorem ofByte_injective {a b : UInt8} (ha : a < 0x80) (hb : b < 0x80)
    (h : ofByte a = ofByte b) : a = b := by
  have hencode := congrArg encode h
  rw [ofByte, ofByte, encode_one ha, encode_one hb] at hencode
  exact (List.cons.inj hencode).1

end Rune

namespace Bytes
open Rune

@[simp] theorem isUtf8_nil : isUtf8 [] = true := rfl

/-- Every rune of a valid text is a character. -/
theorem exists_char_of_mem_decode {s : Bytes} (hs : isUtf8 s) {r : Rune} (hr : r ∈ decode s) :
    ∃ c, r = .char c := by
  cases r with
  | char c => exact ⟨c, rfl⟩
  | stray b => simpa [isStray] using List.all_eq_true.1 hs _ hr

/-- A text is valid exactly when it is the encoding of a list of characters. -/
theorem isUtf8_iff {s : Bytes} :
    isUtf8 s = true ↔ ∃ cs : List Char, s = cs.flatMap String.utf8EncodeChar := by
  constructor
  · intro h
    have chars (rs : List Rune) (hr : rs.all fun r => !r.isStray) :
        ∃ cs : List Char, encodeAll rs = cs.flatMap String.utf8EncodeChar := by
      induction rs with
      | nil => exact ⟨[], rfl⟩
      | cons r rs ih =>
        simp only [List.all_cons, Bool.and_eq_true] at hr
        obtain ⟨cs, hcs⟩ := ih hr.2
        cases r with
        | char c => exact ⟨c :: cs, by rw [encodeAll_cons, hcs]; rfl⟩
        | stray b => simp [isStray] at hr
    obtain ⟨cs, hcs⟩ := chars (decode s) h
    exact ⟨cs, by rw [← hcs, encodeAll_decode]⟩
  · rintro ⟨cs, rfl⟩
    have := decode_chars_append cs []
    simp only [List.append_nil, decode_nil] at this
    simp [isUtf8, this, isStray]

/-- The runes of a text that starts with a valid one. -/
theorem decode_append {s : Bytes} (h : isUtf8 s) (t : Bytes) :
    decode (s ++ t) = decode s ++ decode t := by
  obtain ⟨cs, rfl⟩ := isUtf8_iff.1 h
  have := decode_chars_append cs []
  simp only [List.append_nil, decode_nil] at this
  rw [decode_chars_append, this]

theorem isUtf8_append {s : Bytes} (h : isUtf8 s) (t : Bytes) : isUtf8 (s ++ t) = isUtf8 t := by
  rw [isUtf8, decode_append h, List.all_append, ← isUtf8, ← isUtf8, h, Bool.true_and]

theorem runeCount_append {s : Bytes} (h : isUtf8 s) (t : Bytes) :
    runeCount (s ++ t) = runeCount s + runeCount t := by
  rw [runeCount, decode_append h, List.length_append, ← runeCount, ← runeCount]

@[simp] theorem runeCount_nil : runeCount [] = 0 := rfl

theorem isUtf8_flatMap {α : Type} {text : α → Bytes} {xs : List α}
    (h : ∀ x ∈ xs, isUtf8 (text x) = true) : isUtf8 (xs.flatMap text) = true := by
  induction xs with
  | nil => rfl
  | cons x xs ih =>
    rw [List.forall_mem_cons] at h
    rw [List.flatMap_cons, isUtf8_append h.1, ih h.2]

theorem isUtf8_ascii_cons {b : UInt8} (h : b < 0x80) (s : Bytes) :
    isUtf8 (b :: s) = isUtf8 s := by
  simp [isUtf8, decode_ascii_cons h, isStray]

/-- Texts of ASCII bytes are valid. -/
theorem isUtf8_of_ascii {s : Bytes} (h : ∀ b ∈ s, b < 0x80) : isUtf8 s = true := by
  induction s with
  | nil => rfl
  | cons b s ih =>
    rw [List.forall_mem_cons] at h
    rw [isUtf8_ascii_cons h.1, ih h.2]

/-- In a text of ASCII bytes every byte is a rune. -/
theorem runeCount_of_ascii {s : Bytes} (h : ∀ b ∈ s, b < 0x80) : runeCount s = s.length := by
  induction s with
  | nil => rfl
  | cons b s ih =>
    rw [List.forall_mem_cons] at h
    rw [runeCount, decode_ascii_cons h.1, List.length_cons, List.length_cons, ← ih h.2, runeCount]

theorem runeCount_encode (r : Rune) : runeCount r.encode = 1 := by
  cases r with
  | char c =>
    have := decode_encodeChar_append c []
    rw [List.append_nil] at this
    rw [runeCount, encode, this]
    rfl
  | stray b => simp [runeCount, encode, decode_cons]

/-- The runes of a valid text are characters, and so is every initial part of them a text. -/
theorem isUtf8_encodeAll_of_decode {s : Bytes} (h : isUtf8 s) {before rest : List Rune}
    (hs : decode s = before ++ rest) : isUtf8 (encodeAll before) = true := by
  have hall : before.all (fun r => !r.isStray) = true := by
    rw [isUtf8, hs, List.all_append, Bool.and_eq_true] at h
    exact h.1
  clear hs
  induction before with
  | nil => rfl
  | cons r before ih =>
    rw [List.all_cons, Bool.and_eq_true] at hall
    cases r with
    | char c =>
      rw [encodeAll_cons, isUtf8_append (isUtf8_iff.2 ⟨[c], by simp [encode]⟩)]
      exact ih hall.2
    | stray b => simp [isStray] at hall

/-- A valid text can be cut in front of a byte that continues no character. -/
theorem isUtf8_of_append_cons {s t : Bytes} {b : UInt8} (h : isUtf8 (s ++ b :: t))
    (hb : isTail b = false) : isUtf8 s = true := by
  obtain ⟨cs, hcs⟩ := isUtf8_iff.1 h
  clear h
  induction cs generalizing s with
  | nil => simp at hcs
  | cons c cs ih =>
    rw [List.flatMap_cons, List.append_eq_append_iff] at hcs
    rcases hcs with ⟨u, hu, hcs⟩ | ⟨u, rfl, hcs⟩
    · -- the cut falls into the first character, hence before its first byte
      cases s with
      | nil => rfl
      | cons a s =>
        cases u with
        | nil =>
          rw [List.append_nil] at hu
          exact isUtf8_iff.2 ⟨[c], by simpa using hu.symm⟩
        | cons x u =>
          obtain ⟨rfl, -⟩ := List.cons.inj hcs
          rw [isTail_of_mem_tail hu (by simp)] at hb
          exact absurd hb (by simp)
    · have hc : isUtf8 (String.utf8EncodeChar c) := isUtf8_iff.2 ⟨[c], by simp⟩
      rw [isUtf8_append hc]
      exact ih hcs.symm

/-- A text before a valid one is valid when both together are. -/
theorem isUtf8_of_append_right {s t : Bytes} (h : isUtf8 (s ++ t)) (ht : isUtf8 t) :
    isUtf8 s = true := by
  cases t with
  | nil => rwa [List.append_nil] at h
  | cons b t =>
    obtain ⟨cs, hcs⟩ := isUtf8_iff.1 ht
    cases cs with
    | nil => cases hcs
    | cons c cs =>
      obtain ⟨a, u, hc⟩ := List.exists_cons_of_ne_nil (String.utf8EncodeChar_ne_nil (c := c))
      rw [List.flatMap_cons, hc] at hcs
      obtain ⟨rfl, -⟩ := List.cons.inj hcs
      exact isUtf8_of_append_cons h (isTail_head hc)

/-- A valid text behind a valid one is valid. -/
theorem isUtf8_of_append {s t : Bytes} (h : isUtf8 (s ++ t)) (hs : isUtf8 s) :
    isUtf8 t = true := by
  rwa [isUtf8_append hs] at h

end Bytes
end TemplateLint
