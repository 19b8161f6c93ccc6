import Mathlib
import TemplateLint.Proofs.Position
import TemplateLint.Stylesheet.Lexer

/-!
# Tokens are cut between characters

The lexer looks at bytes only, and some of its forms take the bytes of a character one by one. It
still never cuts a character in two: a form ends behind a byte of ASCII, before one, or at the end
of the text. So the texts of the tokens are valid, they make up the stylesheet, and every token
has the position of its first character.
-/
namespace TemplateLint.Stylesheet
open Bytes

/-- A place in a text between two characters. -/
def IsCut (s : Bytes) (n : Nat) : Prop := isUtf8 (s.drop n) = true

namespace IsCut
variable {s : Bytes} {b : UInt8} {m n : Nat}

theorem zero (h : isUtf8 s) : IsCut s 0 := h

/-- A cut behind a cut. -/
theorem add (h : IsCut (s.drop m) n) : IsCut s (m + n) := by
  rw [IsCut, ← List.drop_drop]
  exact h

theorem add_of {t : Bytes} (hd : s.drop m = t) (h : IsCut t n) : IsCut s (m + n) :=
  add (hd ▸ h)

theorem succ (hb : b < 0x80) (h : isUtf8 (b :: s)) (hn : isUtf8 s → IsCut s n) :
    IsCut (b :: s) (n + 1) :=
  hn (by rwa [isUtf8_ascii_cons hb] at h)

theorem one (hb : b < 0x80) (h : isUtf8 (b :: s)) : IsCut (b :: s) 1 := succ hb h zero

/-- Behind a byte of ASCII that a cut stands before is a cut. -/
theorem behind {t : Bytes} (h : IsCut s m) (hd : s.drop m = b :: t) (hb : b < 0x80) :
    IsCut s (m + 1) := by
  rw [IsCut, hd] at h
  exact add_of hd (one hb h)

theorem of_append {t : Bytes} (h : isUtf8 (s ++ t)) (hs : isUtf8 s) : IsCut (s ++ t) s.length := by
  rw [IsCut, List.drop_left]
  exact isUtf8_of_append h hs

theorem ite {c : Prop} [Decidable c] (hm : c → IsCut s m) (hn : ¬c → IsCut s n) :
    IsCut s (if c then m else n) := by
  by_cases hc : c
  · rw [if_pos hc]
    exact hm hc
  · rw [if_neg hc]
    exact hn hc

/-- Behind bytes of ASCII is a cut. -/
theorem of_take (h : isUtf8 s) (hascii : ∀ b ∈ s.take n, b < 0x80) : IsCut s n := by
  rw [← List.take_append_drop n s, isUtf8_append (isUtf8_of_ascii hascii)] at h
  exact h

/-- Before a byte of ASCII, and at the end, is a cut. -/
theorem of_drop (h : isUtf8 s) (hascii : ∀ b t, s.drop n = b :: t → b < 0x80) : IsCut s n := by
  cases hd : s.drop n with
  | nil =>
    rw [IsCut, hd]
    rfl
  | cons b t =>
    rw [← List.take_append_drop n s, hd] at h
    have htake := isUtf8_of_append_cons h (Rune.isTail_of_ascii (hascii b t hd))
    rw [IsCut, hd]
    exact isUtf8_of_append h htake

end IsCut

/-! ## Runs -/

variable {s : Bytes}

/-- A run of bytes of ASCII ends at a cut. -/
theorem isCut_classLength {p : UInt8 → Bool} (hp : ∀ b, p b = true → b < 0x80) (h : isUtf8 s) :
    IsCut s (classLength p s) := by
  refine .of_take h fun b hb => hp b ?_
  rw [classLength, ← List.prefix_iff_eq_take.1 (List.takeWhile_prefix p)] at hb
  exact List.mem_takeWhile_imp hb

/-- No unit starts where a run of units ends. -/
theorem unit_drop_runLength {unit : Bytes → Nat} (hnil : unit [] = 0) (s : Bytes) :
    unit (s.drop (runLength unit s)) = 0 := by
  have key : ∀ skip (s : Bytes), unit (s.drop (runFrom unit skip s)) = 0 := by
    intro skip s
    fun_induction runFrom unit skip s with
    | case1 => simpa using hnil
    | case2 skip b s ih => simpa using ih
    | case3 b s hzero => simpa using hzero
    | case4 b s skip hunit ih => simpa using ih
  exact key 0 s

/-- A run of units ends at a cut when every byte beyond ASCII is a unit or part of one. -/
theorem isCut_runLength {unit : Bytes → Nat} (hnil : unit [] = 0)
    (hunit : ∀ b t, unit (b :: t) = 0 → b < 0x80) (h : isUtf8 s) :
    IsCut s (runLength unit s) := by
  refine .of_drop h fun b t hd => hunit b t ?_
  rw [← hd]
  exact unit_drop_runLength hnil s

/-- So does a run together with the byte that ends it. -/
theorem isCut_runLength_succ {unit : Bytes → Nat} (hnil : unit [] = 0)
    (hunit : ∀ b t, unit (b :: t) = 0 → b < 0x80) (h : isUtf8 s) {b : UInt8} {t : Bytes}
    (hd : s.drop (runLength unit s) = b :: t) : IsCut s (runLength unit s + 1) := by
  have hend := unit_drop_runLength hnil s
  rw [hd] at hend
  exact (isCut_runLength hnil hunit h).behind hd (hunit b t hend)

theorem ascii_of_isSpace {b : UInt8} (h : isSpace b = true) : b < 0x80 := by
  simp only [isSpace, Byte.tab, Byte.newline, Byte.carriageReturn, Byte.formFeed, Byte.space,
    Bool.or_eq_true, beq_iff_eq, or_assoc] at h
  rcases h with rfl | rfl | rfl | rfl | rfl <;> decide

theorem ascii_of_isLineEnd {b : UInt8} (h : isLineEnd b = true) : b < 0x80 := by
  simp only [isLineEnd, Byte.newline, Byte.carriageReturn, Byte.formFeed, Bool.or_eq_true,
    beq_iff_eq, or_assoc] at h
  rcases h with rfl | rfl | rfl <;> decide

theorem ascii_of_isHexDigit {b : UInt8} (h : Byte.isHexDigit b = true) : b < 0x80 := by
  simp only [Byte.isHexDigit, Byte.isDigit, Bool.or_eq_true, Bool.and_eq_true, decide_eq_true_eq,
    UInt8.le_iff_toNat_le, UInt8.lt_iff_toNat_lt, UInt8.reduceToNat] at h ⊢
  omega

theorem ascii_of_isDigit {b : UInt8} (h : Byte.isDigit b = true) : b < 0x80 := by
  simp only [Byte.isDigit, Bool.and_eq_true, decide_eq_true_eq, UInt8.le_iff_toNat_le,
    UInt8.lt_iff_toNat_lt, UInt8.reduceToNat] at h ⊢
  omega

/-- A text whose first byte is tested for ASCII can be cut behind that byte. -/
theorem isCut_if {c : Bool} (h : isUtf8 s) (hc : c = true → ∃ b t, s = b :: t ∧ b < 0x80) :
    IsCut s (if c then 1 else 0) := by
  cases c with
  | true =>
    obtain ⟨b, t, rfl, hb⟩ := hc rfl
    exact .one hb h
  | false => exact .zero h

/-! ## Names -/

theorem ascii_of_nameUnit (b : UInt8) (t : Bytes) (h : nameUnit (b :: t) = 0) : b < 0x80 := by
  rw [nameUnit] at h
  split at h
  · cases h
  · next hname =>
    simp only [isNameByte, Bool.or_eq_true, decide_eq_true_eq, not_or] at hname
    exact UInt8.not_le.1 hname.2

theorem isCut_nameLength (h : isUtf8 s) : IsCut s (nameLength s) :=
  isCut_runLength rfl ascii_of_nameUnit h

theorem isCut_identLength (h : isUtf8 s) : IsCut s (identLength s) := by
  rw [identLength.eq_def]
  split
  · exact .zero h
  · next b s =>
    split
    · next hb =>
      subst hb
      split
      · exact .zero h
      · next c t =>
        split
        · next hc =>
          subst hc
          rw [Nat.add_comm]
          exact .succ (by decide) h fun h => .succ (by decide) h isCut_nameLength
        · split
          · rw [Nat.add_comm]
            exact .succ (by decide) h isCut_nameLength
          · exact .zero h
    · split
      · exact isCut_nameLength h
      · exact .zero h

/-! ## Strings and numbers -/

theorem ends_of_stringUnit {quote : UInt8} (b : UInt8) (t : Bytes)
    (h : stringUnit quote (b :: t) = 0) : b = quote ∨ isLineEnd b = true := by
  rw [stringUnit] at h
  split at h
  · next hend => simpa using hend
  · split at h
    · split at h
      · omega
      · next hne => exact absurd h hne
    · cases h

theorem isCut_stringTail {quote : UInt8} (hquote : quote < 0x80) (h : isUtf8 s) :
    IsCut s (stringTail quote s).1 := by
  have ascii : ∀ b t, stringUnit quote (b :: t) = 0 → b < 0x80 := by
    intro b t hb
    rcases ends_of_stringUnit b t hb with rfl | hend
    · exact hquote
    · exact ascii_of_isLineEnd hend
  rw [stringTail]
  split
  · exact isCut_runLength rfl ascii h
  · next b t hd => exact isCut_runLength_succ rfl ascii h hd

/-- An optional sign. -/
theorem isCut_sign (h : isUtf8 s) :
    IsCut s (if s.head? == some Byte.plus || s.head? == some Byte.hyphen then 1 else 0) := by
  refine isCut_if h fun hsign => ?_
  simp only [Bool.or_eq_true, beq_iff_eq, List.head?_eq_some_iff] at hsign
  rcases hsign with ⟨t, rfl⟩ | ⟨t, rfl⟩
  · exact ⟨_, t, rfl, by decide⟩
  · exact ⟨_, t, rfl, by decide⟩

theorem isCut_exponentLength (h : isUtf8 s) : IsCut s (exponentLength s) := by
  rw [exponentLength.eq_def]
  split
  · exact .zero h
  · next e s =>
    split
    · exact .zero h
    · next he =>
      dsimp only
      split
      · exact .zero h
      · next hdigits =>
        have hascii : e < 0x80 := by
          simp only [Bool.and_eq_true, decide_eq_true_eq, not_and_or, not_not] at he
          rcases he with rfl | rfl <;> decide
        rw [Nat.add_assoc, Nat.add_comm]
        refine .succ hascii h fun h => IsCut.add ?_
        exact isCut_classLength (fun _ => ascii_of_isDigit) (isCut_sign h)

/-- A point and the digits behind it. -/
theorem isCut_fraction {fraction : Nat} (h : isUtf8 s)
    (hf : fraction = if s.head? == some Byte.dot then classLength Byte.isDigit (s.drop 1) else 0) :
    IsCut s (if fraction = 0 then 0 else fraction + 1) := by
  split
  · exact .zero h
  · next hne =>
    split at hf
    · next hdot =>
      obtain ⟨t, rfl⟩ := List.head?_eq_some_iff.1 (beq_iff_eq.1 hdot)
      rw [hf]
      exact .succ (by decide) h (isCut_classLength fun _ => ascii_of_isDigit)
    · exact absurd hf hne

theorem isCut_numberLength (h : isUtf8 s) : IsCut s (numberLength s) := by
  unfold numberLength
  extract_lets sign whole behind fraction mantissa
  have hsign : IsCut s sign := isCut_sign h
  have hwhole : IsCut s (sign + whole) :=
    IsCut.add (isCut_classLength (fun _ => ascii_of_isDigit) hsign)
  have hmantissa : IsCut s mantissa := IsCut.add (isCut_fraction hwhole rfl)
  split
  · exact .zero h
  · exact IsCut.add (isCut_exponentLength hmantissa)

theorem isCut_numericLength (h : isUtf8 s) : IsCut s (numericLength s) := by
  have hnumber := isCut_numberLength h
  rw [numericLength]
  split
  · exact .zero h
  · split
    · next hpercent =>
      obtain ⟨t, ht⟩ := List.head?_eq_some_iff.1 (beq_iff_eq.1 hpercent)
      exact hnumber.behind ht (by decide)
    · exact IsCut.add (isCut_identLength hnumber)

/-! ## Addresses -/

theorem ascii_of_remnantUnit (b : UInt8) (t : Bytes) (h : remnantUnit (b :: t) = 0) :
    b < 0x80 := by
  rw [remnantUnit] at h
  split at h
  · next hb => exact hb ▸ by decide
  · split at h
    · cases h
    · next hne => exact absurd h hne

theorem isCut_remnantLength (h : isUtf8 s) : IsCut s (remnantLength s) := by
  rw [remnantLength]
  split
  · exact isCut_runLength rfl ascii_of_remnantUnit h
  · next hne =>
    obtain ⟨b, t, hd⟩ := List.exists_cons_of_ne_nil (mt List.isEmpty_iff.2 hne)
    exact isCut_runLength_succ rfl ascii_of_remnantUnit h hd

theorem ascii_of_addressUnit (b : UInt8) (t : Bytes) (h : addressUnit (b :: t) = 0) :
    b < 0x80 := by
  rw [addressUnit] at h
  split at h
  · next hb =>
    simp only [Byte.closeParen, Byte.doubleQuote, Byte.singleQuote, Byte.openParen, Byte.space,
      Bool.or_eq_true, decide_eq_true_eq, UInt8.le_iff_toNat_le, UInt8.lt_iff_toNat_lt,
      ← UInt8.toNat_inj, UInt8.reduceToNat] at hb ⊢
    omega
  · split at h
    · next hb => exact hb ▸ by decide
    · cases h

theorem isCut_addressEnd (h : isUtf8 s) : IsCut s (addressEnd s) := by
  have hblank := isCut_classLength (fun _ => ascii_of_isSpace) h
  rw [addressEnd]
  split
  · exact hblank
  · next b t hd =>
    split
    · next hb => exact hblank.behind hd (hb ▸ by decide)
    · exact .add_of hd (isCut_remnantLength (hd ▸ hblank))

theorem isCut_addressTail (h : isUtf8 s) : IsCut s (addressTail s) := by
  have hblank := isCut_classLength (fun _ => ascii_of_isSpace) h
  unfold addressTail
  extract_lets blank
  split
  · exact hblank
  · next b t hd =>
    have hcontent : isUtf8 (b :: t) = true := hd ▸ hblank
    split
    · next hquote =>
      have hascii : b < 0x80 := by
        simp only [Bool.or_eq_true, decide_eq_true_eq] at hquote
        rcases hquote with rfl | rfl <;> decide
      have htaken : IsCut s (blank + 1 + (stringTail b t).1) := by
        rw [Nat.add_assoc, Nat.add_comm 1]
        exact .add_of hd (.succ hascii hcontent (isCut_stringTail hascii))
      generalize stringTail b t = tail at htaken ⊢
      obtain ⟨body, broken⟩ := tail
      refine IsCut.add ?_
      split
      · exact isCut_remnantLength htaken
      · exact isCut_addressEnd htaken
    · have htaken : IsCut s (blank + runLength addressUnit (b :: t)) :=
        .add_of hd (isCut_runLength rfl ascii_of_addressUnit hcontent)
      extract_lets taken
      split
      · exact htaken
      · next c u hrest =>
        split
        · exact .add_of hrest (isCut_addressEnd (hrest ▸ htaken))
        · exact .add_of hrest (isCut_remnantLength (hrest ▸ htaken))

/-! ## Tokens -/

theorem isCut_wordLength (h : isUtf8 s) : IsCut s (wordLength s) := by
  have hident := isCut_identLength h
  rw [wordLength]
  split
  · exact .zero h
  · split
    · exact hident
    · next hparen =>
      obtain ⟨t, ht⟩ := List.head?_eq_some_iff.1 (not_not.1 hparen)
      have hopen := hident.behind ht (by decide)
      split
      · exact IsCut.add (isCut_addressTail hopen)
      · exact hopen

theorem isCut_rangeLength (h : isUtf8 s) : IsCut s (rangeLength s) := by
  have hlow := isCut_classLength (fun _ => ascii_of_isHexDigit) h
  unfold rangeLength
  extract_lets low behind high total
  split
  · next hhyphen =>
    obtain ⟨t, ht⟩ := List.head?_eq_some_iff.1 (beq_iff_eq.1 hhyphen)
    have hopen : IsCut s (low + 1) := hlow.behind ht (by decide)
    have hhigh : high = classLength Byte.isHexDigit (s.drop (low + 1)) := by
      rw [← List.drop_drop]
    split
    · rw [hhigh]
      exact .add (isCut_classLength (fun _ => ascii_of_isHexDigit) hopen)
    · exact .zero h
  · split
    · refine IsCut.add (isCut_classLength ?_ hlow)
      intro b hb
      exact beq_iff_eq.1 hb ▸ by decide
    · exact .zero h

/-- A comment ends behind its last slash or with the text. -/
theorem exists_drop_of_find? {needle : Bytes} {n : Nat} (h : find? needle s = some n) :
    ∃ t, s.drop n = needle ++ t := by
  induction s generalizing n with
  | nil =>
    rw [find?] at h
    split at h
    · next hnil =>
      cases h
      exact ⟨[], by simpa using hnil⟩
    · cases h
  | cons b s ih =>
    rw [find?] at h
    split at h
    · next hp =>
      cases h
      obtain ⟨t, ht⟩ := List.isPrefixOf_iff_prefix.1 hp
      exact ⟨t, ht.symm⟩
    · obtain ⟨m, hm, rfl⟩ := Option.map_eq_some_iff.1 h
      exact ih hm

theorem isCut_commentLength (h : isUtf8 s) : IsCut s (commentLength s) := by
  rw [commentLength]
  split
  · next n hn =>
    obtain ⟨t, ht⟩ := exists_drop_of_find? hn
    rw [List.drop_drop] at ht
    have hstar : IsCut s (2 + n) := by
      refine .of_drop h fun b u hd => ?_
      rw [ht] at hd
      cases hd
      decide
    have hlength : n + 4 = 2 + n + 2 := by omega
    rw [hlength]
    exact .add_of ht (.of_append (ht ▸ hstar) (by decide))
  · refine .of_drop h fun b t hd => ?_
    simp at hd

theorem firstLength_pos (lengths : List Nat) : 0 < firstLength lengths := by
  fun_induction firstLength lengths with
  | case1 => exact Nat.one_pos
  | case2 rest ih => exact ih
  | case3 n rest hne => exact Nat.pos_of_ne_zero hne

theorem isCut_firstLength {lengths : List Nat} (h : ∀ n ∈ lengths, IsCut s n)
    (hone : (∀ n ∈ lengths, n = 0) → IsCut s 1) : IsCut s (firstLength lengths) := by
  fun_induction firstLength lengths with
  | case1 => exact hone (by simp)
  | case2 rest ih =>
    rw [List.forall_mem_cons] at h
    refine ih h.2 fun hzero => hone ?_
    exact List.forall_mem_cons.2 ⟨rfl, hzero⟩
  | case3 n rest hne => exact h n (by simp)

theorem identLength_of_isNameStart {b : UInt8} {t : Bytes} (hb : b ≠ Byte.hyphen)
    (hstart : isNameStart b = true) : identLength (b :: t) = nameLength (b :: t) := by
  simp [identLength, hb, hstart]

/-- A byte that starts no word is one of ASCII. -/
theorem ascii_of_wordLength {b : UInt8} {t : Bytes} (h : wordLength (b :: t) = 0) : b < 0x80 := by
  have hident : identLength (b :: t) = 0 := by
    rw [wordLength] at h
    split at h
    · assumption
    · next hne =>
      split at h
      · exact absurd h hne
      · split at h <;> omega
  by_contra hb
  rw [UInt8.not_lt] at hb
  have hstart : isNameStart b = true := by simp [isNameStart, hb]
  have hne : b ≠ Byte.hyphen := by
    rintro rfl
    exact absurd hb (by decide)
  rw [identLength_of_isNameStart hne hstart] at hident
  have hunit := unit_drop_runLength (show nameUnit [] = 0 from rfl) (b :: t)
  rw [← nameLength, hident] at hunit
  exact absurd (ascii_of_nameUnit b t hunit) (UInt8.not_lt.2 hb)

theorem isCut_hyphenLength {t : Bytes} (h : isUtf8 (Byte.hyphen :: t)) :
    IsCut (Byte.hyphen :: t) (hyphenLength (Byte.hyphen :: t)) := by
  rw [hyphenLength]
  split
  · next harrow =>
    obtain ⟨u, hu⟩ := List.isPrefixOf_iff_prefix.1 harrow
    have hlength : 3 = (Bytes.ofString "-->").length := by decide +kernel
    rw [← hu] at h ⊢
    rw [hlength]
    exact .of_append h (by decide +kernel)
  · split
    · exact isCut_identLength h
    · refine isCut_firstLength ?_ fun _ => .one (by decide) h
      simpa using ⟨isCut_wordLength h, isCut_numericLength h⟩

theorem ascii_of_isSingle {b : UInt8} (h : isSingle b = true) : b < 0x80 := by
  simp only [isSingle, Bool.or_eq_true, beq_iff_eq, or_assoc] at h
  rcases h with rfl | rfl | rfl | rfl | rfl | rfl | rfl | rfl | rfl <;> decide

theorem ascii_of_isComparison {b : UInt8} (h : isComparison b = true) : b < 0x80 := by
  simp only [isComparison, Bool.or_eq_true, beq_iff_eq, or_assoc] at h
  rcases h with rfl | rfl | rfl | rfl | rfl <;> decide

/-- **A token ends between two characters.** -/
theorem isCut_tokenLength (h : isUtf8 s) : IsCut s (tokenLength s) := by
  cases s with
  | nil => rfl
  | cons b s =>
    rw [tokenLength]
    refine .ite (fun hb => ?_) fun _ => .ite (fun hb => ?_) fun _ => .ite (fun hb => ?_) fun _ =>
      .ite (fun hb => ?_) fun _ => .ite (fun hb => ?_) fun _ => .ite (fun hb => ?_) fun _ =>
      .ite (fun hb => ?_) fun _ => .ite (fun hb => ?_) fun _ => .ite (fun hb => ?_) fun _ =>
      .ite (fun hb => ?_) fun _ => .ite (fun hb => ?_) fun _ => .ite (fun hb => ?_) fun _ => ?_
    · rw [Nat.add_comm]
      exact .succ (ascii_of_isSpace hb) h (isCut_classLength fun _ => ascii_of_isSpace)
    · exact .one (ascii_of_isSingle hb) h
    · rw [Nat.add_comm]
      exact .succ (hb ▸ by decide) h isCut_nameLength
    · rw [Nat.add_comm]
      have hascii : b < 0x80 := by
        simp only [Bool.or_eq_true, decide_eq_true_eq] at hb
        rcases hb with rfl | rfl <;> decide
      exact .succ hascii h (isCut_stringTail hascii)
    · refine isCut_firstLength ?_ fun _ => .one ?_ h
      · simpa using isCut_numericLength h
      · simp only [Bool.or_eq_true, decide_eq_true_eq] at hb
        rcases hb with rfl | rfl <;> decide
    · subst hb
      exact isCut_hyphenLength h
    · rw [Nat.add_comm]
      exact .succ (hb ▸ by decide) h isCut_identLength
    · -- a second byte of ASCII may join a comparison
      have hone := IsCut.one (ascii_of_isComparison hb) h
      have htwo : ∀ c, c < 0x80 → (s.head? == some c) = true → IsCut (b :: s) 2 := by
        intro c hc hhead
        obtain ⟨t, rfl⟩ := List.head?_eq_some_iff.1 (beq_iff_eq.1 hhead)
        exact hone.behind rfl hc
      refine .ite (htwo _ (by decide)) fun _ => .ite (fun hbar => ?_) fun _ => hone
      exact htwo _ (by decide) (Bool.and_eq_true_iff.1 hbar).2
    · have hone := IsCut.one (hb ▸ by decide) h
      refine .ite (fun hmark => ?_) fun _ => hone
      obtain ⟨t, rfl⟩ := List.isPrefixOf_iff_prefix.1 hmark
      have hlength : 4 = (Bytes.ofString "!--").length + 1 := by decide +kernel
      rw [hlength]
      exact .succ (hb ▸ by decide) h fun h => .of_append h (by decide +kernel)
    · exact .ite (fun _ => isCut_commentLength h) fun _ => .one (hb ▸ by decide) h
    · refine isCut_firstLength ?_ fun _ => .one (hb ▸ by decide) h
      simpa using isCut_wordLength h
    · have hascii : b < 0x80 := by
        simp only [Bool.or_eq_true, decide_eq_true_eq] at hb
        rcases hb with rfl | rfl <;> decide
      have hword : IsCut (b :: s) (firstLength [wordLength (b :: s)]) :=
        isCut_firstLength (by simpa using isCut_wordLength h) fun _ => .one hascii h
      by_cases hplus : (s.head? == some Byte.plus) = true
      · rw [if_pos hplus]
        split
        · exact hword
        · obtain ⟨t, rfl⟩ := List.head?_eq_some_iff.1 (beq_iff_eq.1 hplus)
          rw [Nat.add_comm]
          exact .succ hascii h fun h => .succ (by decide) h isCut_rangeLength
      · rw [if_neg hplus]
        exact hword
    · refine isCut_firstLength ?_ fun hzero => .one ?_ h
      · simpa using ⟨isCut_numericLength h, isCut_wordLength h⟩
      · exact ascii_of_wordLength (hzero (wordLength (b :: s)) (by simp))

theorem hyphenLength_pos (s : Bytes) : 0 < hyphenLength s := by
  rw [hyphenLength]
  split
  · exact Nat.succ_pos 2
  · split
    · next hdouble =>
      obtain ⟨t, rfl⟩ := List.isPrefixOf_iff_prefix.1 hdouble
      have hident : identLength (Bytes.ofString "--" ++ t) = 2 + nameLength t := rfl
      omega
    · exact firstLength_pos _

/-- A token is never empty. -/
theorem tokenLength_pos (b : UInt8) (s : Bytes) : 0 < tokenLength (b :: s) := by
  have ite_pos {c : Prop} [Decidable c] {m n : Nat} (hm : 0 < m) (hn : 0 < n) :
      0 < if c then m else n := by
    split <;> assumption
  rw [tokenLength]
  refine ite_pos (by omega) <| ite_pos (by omega) <| ite_pos (by omega) <| ite_pos (by omega) <|
    ite_pos (firstLength_pos _) <| ite_pos (hyphenLength_pos _) <| ite_pos (by omega) <|
    ite_pos ?_ <| ite_pos ?_ <| ite_pos ?_ <| ite_pos (firstLength_pos _) <|
    ite_pos ?_ (firstLength_pos _)
  · exact ite_pos (by omega) (ite_pos (by omega) (by omega))
  · exact ite_pos (by omega) (by omega)
  · refine ite_pos ?_ (by omega)
    rw [commentLength]
    split
    · omega
    · exact Nat.succ_pos _
  · split
    · exact firstLength_pos _
    · omega

/-! ## The tokens of a stylesheet -/

theorem chunksFrom_eq (size : Bytes → Nat) (skip : Nat) (s : Bytes) :
    chunksFrom size skip s = chunks size (s.drop skip) := by
  induction s generalizing skip with
  | nil =>
    rw [List.drop_nil, chunks]
    cases skip <;> rfl
  | cons b s ih =>
    cases skip with
    | zero => rfl
    | succ skip => exact ih skip

theorem chunks_cons {size : Bytes → Nat} {b : UInt8} {s : Bytes} (h : 0 < size (b :: s)) :
    chunks size (b :: s) =
      (b :: s).take (size (b :: s)) :: chunks size ((b :: s).drop (size (b :: s))) := by
  obtain ⟨n, hn⟩ := Nat.exists_eq_succ_of_ne_zero (Nat.pos_iff_ne_zero.1 h)
  rw [chunks, chunksFrom, chunksFrom_eq, hn]
  rfl

/-- A token stands in the text where its position says. -/
theorem exists_split_of_mem_place {t : Token} {p : Position} (h : isUtf8 s)
    (ht : t ∈ Token.place p (chunks tokenLength s)) :
    ∃ a b, s = a ++ (t.text ++ b) ∧ isUtf8 a = true ∧ t.text ≠ [] ∧ t.position = p.after a ∧
      t.kind = TokenClass.ofText t.text := by
  induction hlength : s.length using Nat.strong_induction_on generalizing s p with
  | _ n ih =>
    cases s with
    | nil => cases ht
    | cons b s =>
      have hpos := tokenLength_pos b s
      have hcut := isCut_tokenLength h
      rw [chunks_cons hpos, Token.place, List.mem_cons] at ht
      rcases ht with rfl | ht
      · refine ⟨[], (b :: s).drop (tokenLength (b :: s)), ?_, rfl, ?_, rfl, rfl⟩
        · simp
        · simpa using Nat.pos_iff_ne_zero.1 hpos
      · have hsplit := List.take_append_drop (tokenLength (b :: s)) (b :: s)
        have htake : isUtf8 ((b :: s).take (tokenLength (b :: s))) :=
          isUtf8_of_append_right (hsplit.symm ▸ h) hcut
        have hshorter : ((b :: s).drop (tokenLength (b :: s))).length < n := by
          rw [List.length_drop, hlength]
          rw [List.length_cons] at hlength
          omega
        obtain ⟨a, c, hrest, ha, hne, hposition, hkind⟩ := ih _ hshorter hcut ht rfl
        refine ⟨(b :: s).take (tokenLength (b :: s)) ++ a, c, ?_, ?_, hne, ?_, hkind⟩
        · rw [List.append_assoc, ← hrest, hsplit]
        · rwa [isUtf8_append htake]
        · rw [hposition, Position.after_append p htake]

end TemplateLint.Stylesheet
