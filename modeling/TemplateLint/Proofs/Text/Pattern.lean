import Mathlib
import TemplateLint.Proofs.Text.Rune
import TemplateLint.Text.Pattern

/-!
# The language of a pattern

A pattern without assertions stands for a language over code points. Matching by partial
derivatives decides membership in it: the derivatives by a character are what the words of the
language go on with behind it.
-/
namespace TemplateLint
open Computability

namespace Pattern

/-- Whether a pattern is free of assertions. -/
def isPlain : Pattern → Bool
  | empty => true
  | one _ => true
  | here _ => false
  | seq p q => p.isPlain && q.isPlain
  | alt p q => p.isPlain && q.isPlain
  | star p => p.isPlain

/-- The texts that a plain pattern matches, by their code points. -/
def language : Pattern → Language Nat
  | empty => 1
  | one k => {cs | ∃ c, k.contains c = true ∧ cs = [c]}
  | here _ => 0
  | seq p q => p.language * q.language
  | alt p q => p.language + q.language
  | star p => p.language∗

variable {p q : Pattern} {c : Nat} {cs : List Nat}

@[simp] theorem mem_language_empty : cs ∈ empty.language ↔ cs = [] := Iff.rfl

@[simp] theorem mem_language_one {k : RuneClass} :
    cs ∈ (one k).language ↔ ∃ c, k.contains c = true ∧ cs = [c] := Iff.rfl

@[simp] theorem mem_language_alt :
    cs ∈ (alt p q).language ↔ cs ∈ p.language ∨ cs ∈ q.language := Iff.rfl

theorem mem_language_seq :
    cs ∈ (seq p q).language ↔ ∃ a ∈ p.language, ∃ b ∈ q.language, a ++ b = cs :=
  Language.mem_mul

theorem cons_mem_kstar {L : Language Nat} :
    c :: cs ∈ L∗ ↔ ∃ a b, cs = a ++ b ∧ c :: a ∈ L ∧ b ∈ L∗ := by
  constructor
  · intro h
    obtain ⟨words, hflat, hwords⟩ := Language.mem_kstar_iff_exists_nonempty.1 h
    cases words with
    | nil => cases hflat
    | cons word words =>
      rw [List.forall_mem_cons] at hwords
      obtain ⟨⟨hword, hne⟩, hwords⟩ := hwords
      obtain ⟨d, a, rfl⟩ := List.exists_cons_of_ne_nil hne
      obtain ⟨rfl, rfl⟩ := List.cons.inj hflat
      exact ⟨a, words.flatten, rfl, hword, Language.join_mem_kstar fun y hy => (hwords y hy).1⟩
  · rintro ⟨a, b, rfl, ha, hb⟩
    obtain ⟨words, rfl, hwords⟩ := Language.mem_kstar.1 hb
    exact Language.mem_kstar.2 ⟨(c :: a) :: words, rfl, List.forall_mem_cons.2 ⟨ha, hwords⟩⟩

/-- The empty text matches a plain pattern wherever it stands. -/
theorem nullable_iff (hp : p.isPlain = true) (before after : Option Nat) :
    p.nullable before after = true ↔ [] ∈ p.language := by
  induction p with
  | empty => simp [nullable]
  | one k => simp [nullable]
  | here a => cases hp
  | seq p q ihp ihq =>
    rw [isPlain, Bool.and_eq_true] at hp
    rw [nullable, Bool.and_eq_true, ihp hp.1, ihq hp.2, mem_language_seq]
    constructor
    · intro ⟨h, h'⟩
      exact ⟨[], h, [], h', rfl⟩
    · rintro ⟨a, ha, b, hb, hab⟩
      obtain ⟨rfl, rfl⟩ := List.append_eq_nil_iff.1 hab
      exact ⟨ha, hb⟩
  | alt p q ihp ihq =>
    rw [isPlain, Bool.and_eq_true] at hp
    rw [nullable, Bool.or_eq_true, ihp hp.1, ihq hp.2, mem_language_alt]
  | star p _ => simp [nullable, language, Language.nil_mem_kstar]

theorem language_andThen (p q : Pattern) : (p.andThen q).language = p.language * q.language := by
  unfold andThen
  split
  · next h => rw [h, language, one_mul]
  · rfl

/-! ## Literals and options -/

theorem contains_single {n : Nat} : RuneClass.contains ⟨false, [(n, n)]⟩ c = true ↔ c = n := by
  simp only [RuneClass.contains, List.any_cons, List.any_nil, Bool.or_false, Bool.bne_false,
    Bool.and_eq_true, decide_eq_true_eq]
  omega

/-- A literal matches its characters only. -/
theorem language_literal (text : String) :
    (literal text).language = {text.toList.map Char.toNat} := by
  rw [literal]
  induction text.toList with
  | nil => rfl
  | cons c cs ih =>
    ext word
    rw [List.foldr_cons, mem_language_seq, ih]
    constructor
    · rintro ⟨a, ⟨d, hd, rfl⟩, b, rfl, rfl⟩
      rw [contains_single.1 hd]
      rfl
    · rintro rfl
      exact ⟨[c.toNat], ⟨c.toNat, contains_single.2 rfl, rfl⟩, _, rfl, rfl⟩

/-- Characters of a class, any number of them. -/
theorem mem_kstar_one {k : RuneClass} (h : ∀ c ∈ cs, k.contains c = true) :
    cs ∈ (one k).language∗ := by
  refine Language.mem_kstar.2 ⟨cs.map fun c => [c], by simp [← List.flatMap_def], ?_⟩
  intro w hw
  obtain ⟨c, hc, rfl⟩ := List.mem_map.1 hw
  exact ⟨c, h c hc, rfl⟩

theorem mem_language_anything (cs : List Nat) : cs ∈ anything.language :=
  mem_kstar_one fun _ _ => rfl

theorem language_optional_le (p : Pattern) : (optional p).language ≤ p.language∗ :=
  add_le le_kstar one_le_kstar

/-! ## Derivatives -/

theorem isPlain_andThen (hp : p.isPlain = true) (hq : q.isPlain = true) :
    (p.andThen q).isPlain = true := by
  unfold andThen
  split
  · exact hq
  · simp [isPlain, hp, hq]

theorem isPlain_of_mem_derivatives (hp : p.isPlain = true) {before : Option Nat} :
    ∀ d ∈ p.derivatives before c, d.isPlain = true := by
  induction p with
  | empty => simp [derivatives]
  | one k =>
    intro d hd
    rw [derivatives] at hd
    split at hd
    · rw [List.mem_singleton.1 hd]
      rfl
    · cases hd
  | here a => cases hp
  | seq p q ihp ihq =>
    rw [isPlain, Bool.and_eq_true] at hp
    rw [derivatives, List.forall_mem_append]
    constructor
    · intro d hd
      obtain ⟨e, he, rfl⟩ := List.mem_map.1 hd
      exact isPlain_andThen (ihp hp.1 e he) hp.2
    · intro d hd
      split at hd
      · exact ihq hp.2 d hd
      · cases hd
  | alt p q ihp ihq =>
    rw [isPlain, Bool.and_eq_true] at hp
    rw [derivatives, List.forall_mem_append]
    exact ⟨ihp hp.1, ihq hp.2⟩
  | star p ih =>
    intro d hd
    obtain ⟨e, he, rfl⟩ := List.mem_map.1 hd
    exact isPlain_andThen (ih hp e he) hp

/-- The words of a sequence that start with a character of the first or of the second pattern. -/
theorem cons_mem_mul {L M : Language Nat} :
    c :: cs ∈ L * M ↔ (∃ a b, cs = a ++ b ∧ c :: a ∈ L ∧ b ∈ M) ∨ [] ∈ L ∧ c :: cs ∈ M := by
  rw [Language.mem_mul]
  constructor
  · rintro ⟨a, ha, b, hb, hab⟩
    cases a with
    | nil =>
      rw [List.nil_append] at hab
      exact .inr ⟨ha, hab ▸ hb⟩
    | cons d a =>
      obtain ⟨rfl, rfl⟩ := List.cons.inj hab
      exact .inl ⟨a, b, rfl, ha, hb⟩
  · rintro (⟨a, b, rfl, ha, hb⟩ | ⟨ha, hb⟩)
    · exact ⟨c :: a, ha, b, hb, rfl⟩
    · exact ⟨[], ha, c :: cs, hb, rfl⟩

/-- What a derivative followed by a language matches. -/
theorem exists_derivative_mul {ds : List Pattern} {L M : Language Nat}
    (h : ∀ cs, (∃ d ∈ ds, cs ∈ d.language) ↔ c :: cs ∈ L) :
    (∃ d ∈ ds, cs ∈ d.language * M) ↔ ∃ a b, cs = a ++ b ∧ c :: a ∈ L ∧ b ∈ M := by
  constructor
  · rintro ⟨d, hd, hcs⟩
    obtain ⟨a, ha, b, hb, rfl⟩ := Language.mem_mul.1 hcs
    exact ⟨a, b, rfl, (h a).1 ⟨d, hd, ha⟩, hb⟩
  · rintro ⟨a, b, rfl, ha, hb⟩
    obtain ⟨d, hd, hda⟩ := (h a).2 ha
    exact ⟨d, hd, Language.append_mem_mul hda hb⟩

/-- The derivatives by a character are what the words that start with it go on with. -/
theorem exists_derivative_iff (hp : p.isPlain = true) (before : Option Nat) (cs : List Nat) :
    (∃ d ∈ p.derivatives before c, cs ∈ d.language) ↔ c :: cs ∈ p.language := by
  induction p generalizing cs with
  | empty => simp [derivatives]
  | one k => cases hc : k.contains c <;> simp [derivatives, hc]
  | here a => cases hp
  | seq p q ihp ihq =>
    rw [isPlain, Bool.and_eq_true] at hp
    have hnullable := nullable_iff hp.1 before (some c)
    rw [derivatives, language, cons_mem_mul, ← exists_derivative_mul (ihp hp.1), ← hnullable,
      ← ihq hp.2]
    cases p.nullable before (some c) <;>
      simp [List.mem_append, or_and_right, exists_or, language_andThen]
  | alt p q ihp ihq =>
    rw [isPlain, Bool.and_eq_true] at hp
    rw [derivatives, mem_language_alt, ← ihp hp.1, ← ihq hp.2]
    simp only [List.mem_append, or_and_right, exists_or]
  | star p ih =>
    rw [language, cons_mem_kstar, ← exists_derivative_mul (ih hp)]
    simp [derivatives, language_andThen, language]

/-! ## Matching -/

theorem matchesFrom_iff {states : List Pattern} (hplain : ∀ p ∈ states, p.isPlain = true)
    (before : Option Nat) :
    matchesFrom before states cs = true ↔ ∃ p ∈ states, cs ∈ p.language := by
  induction cs generalizing states before with
  | nil =>
    rw [matchesFrom, List.any_eq_true]
    constructor
    · rintro ⟨p, hp, h⟩
      exact ⟨p, hp, (nullable_iff (hplain p hp) before none).1 h⟩
    · rintro ⟨p, hp, h⟩
      exact ⟨p, hp, (nullable_iff (hplain p hp) before none).2 h⟩
  | cons c cs ih =>
    have hderivatives : ∀ d ∈ (states.flatMap (·.derivatives before c)).eraseDups,
        d.isPlain = true := by
      intro d hd
      obtain ⟨p, hp, hd⟩ := List.mem_flatMap.1 (List.mem_eraseDups.1 hd)
      exact isPlain_of_mem_derivatives (hplain p hp) d hd
    rw [matchesFrom, ih hderivatives]
    constructor
    · rintro ⟨d, hd, hcs⟩
      obtain ⟨p, hp, hd⟩ := List.mem_flatMap.1 (List.mem_eraseDups.1 hd)
      exact ⟨p, hp, (exists_derivative_iff (hplain p hp) before cs).1 ⟨d, hd, hcs⟩⟩
    · rintro ⟨p, hp, hcs⟩
      obtain ⟨d, hd, hcs⟩ := (exists_derivative_iff (hplain p hp) before cs).2 hcs
      exact ⟨d, List.mem_eraseDups.2 (List.mem_flatMap.2 ⟨p, hp, hd⟩), hcs⟩

/-- The code points of a text. -/
def codes (s : Bytes) : List Nat := (Rune.decode s).map Rune.code

/-- A plain pattern matches the texts of its language. -/
theorem matchesAll_iff (hp : p.isPlain = true) (s : Bytes) :
    p.matchesAll s = true ↔ codes s ∈ p.language := by
  rw [matchesAll, matchesFrom_iff (by simpa using hp)]
  simp [codes]

theorem matchesAll_alt (hp : p.isPlain = true) (hq : q.isPlain = true) (s : Bytes) :
    (alt p q).matchesAll s = (p.matchesAll s || q.matchesAll s) := by
  have hplain : (alt p q).isPlain = true := by rw [isPlain, hp, hq]; rfl
  rw [Bool.eq_iff_iff, Bool.or_eq_true, matchesAll_iff hplain, matchesAll_iff hp,
    matchesAll_iff hq, mem_language_alt]

/-! ## Code points and bytes -/

variable {b : UInt8} {s : Bytes} {n : Nat}

theorem codes_append_cons (hb : Rune.isTail b = false) (s t : Bytes) :
    codes (s ++ b :: t) = codes s ++ codes (b :: t) := by
  rw [codes, Rune.decode_append_cons hb, List.map_append]
  rfl

theorem code_ofByte (hb : b < 0x80) : (Rune.ofByte b).code = b.toNat := by
  simp only [UInt8.lt_iff_toNat_lt, UInt8.reduceToNat] at hb
  exact Rune.val_ofNat (.inl (by omega))

theorem codes_ascii_cons (hb : b < 0x80) (s : Bytes) : codes (b :: s) = b.toNat :: codes s := by
  rw [codes, Rune.decode_ascii_cons hb, List.map_cons, ← Rune.ofByte, code_ofByte hb]
  rfl

theorem eq_nil_of_codes (h : codes s = []) : s = [] := by
  rw [← Rune.encodeAll_decode s, List.map_eq_nil_iff.1 h]
  rfl

/-- A code point of ASCII belongs to a byte. -/
theorem eq_ofByte_of_code {r : Rune} (h : r.code < 0x80) : ∃ b < 0x80, r = .ofByte b := by
  cases r with
  | char c =>
    rw [Rune.code] at h
    have hbyte : (UInt8.ofNat c.toNat).toNat = c.toNat := by
      rw [UInt8.toNat_ofNat']
      omega
    refine ⟨UInt8.ofNat c.toNat, ?_, ?_⟩
    · simpa only [UInt8.lt_iff_toNat_lt, hbyte, UInt8.reduceToNat] using h
    · rw [Rune.ofByte, hbyte, Char.ofNat_toNat]
  | stray b =>
    rw [Rune.code] at h
    omega

theorem eq_nil_of_encodeAll {rs : List Rune} (h : Rune.encodeAll rs = []) : rs = [] := by
  cases rs with
  | nil => rfl
  | cons r rs =>
    rw [Rune.encodeAll_cons, List.append_eq_nil_iff] at h
    cases r with
    | char c => exact absurd h.1 String.utf8EncodeChar_ne_nil
    | stray b => cases h.1

/-- A text is cut where a code point of ASCII stands. -/
theorem exists_append_of_codes {cs ds : List Nat} (h : codes s = cs ++ n :: ds) (hn : n < 0x80) :
    ∃ a b t, s = a ++ b :: t ∧ b < 0x80 ∧ b.toNat = n ∧ codes a = cs ∧ codes t = ds := by
  obtain ⟨rs, _, hdecode, rfl, hqs⟩ := List.map_eq_append_iff.1 h
  obtain ⟨r, qs, rfl, rfl, rfl⟩ := List.map_eq_cons_iff.1 hqs
  obtain ⟨b, hb, rfl⟩ := eq_ofByte_of_code hn
  have hs : s = Rune.encodeAll rs ++ b :: Rune.encodeAll qs := by
    rw [← Rune.encodeAll_decode s, hdecode, Rune.encodeAll_append, Rune.encodeAll_cons,
      Rune.ofByte, Rune.encode_one hb]
    rfl
  have hrunes : Rune.decode (Rune.encodeAll rs) ++ .ofByte b :: Rune.decode (Rune.encodeAll qs) =
      rs ++ .ofByte b :: qs := by
    rw [← hdecode]
    conv_rhs => rw [hs, Rune.decode_append_cons (Rune.isTail_of_ascii hb),
      Rune.decode_ascii_cons hb, ← Rune.ofByte]
  -- both lists of runes before the byte spell the same text, so none is longer
  have hrs : Rune.decode (Rune.encodeAll rs) = rs := by
    have hspell := Rune.encodeAll_decode (Rune.encodeAll rs)
    rcases List.append_eq_append_iff.1 hrunes with ⟨m, hm, -⟩ | ⟨m, hm, -⟩
    · have hspell' := congrArg Rune.encodeAll hm
      rw [Rune.encodeAll_append, hspell, List.self_eq_append_right] at hspell'
      rw [eq_nil_of_encodeAll hspell', List.append_nil] at hm
      exact hm.symm
    · rw [hm, Rune.encodeAll_append, List.append_right_eq_self] at hspell
      rw [eq_nil_of_encodeAll hspell, List.append_nil] at hm
      exact hm
  rw [hrs, List.append_cancel_left_eq, List.cons.injEq] at hrunes
  refine ⟨_, b, _, hs, hb, (code_ofByte hb).symm, ?_, ?_⟩
  · rw [codes, hrs]
  · rw [codes, hrunes.2]

end Pattern
end TemplateLint
