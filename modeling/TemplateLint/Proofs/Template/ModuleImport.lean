import Mathlib
import TemplateLint.Proofs.Text.Bytes
import TemplateLint.Template.ModuleImport

/-!
# Imports that are found

A mention of a module is its name between two quotes of one kind, and it is an import when the text
before it says so. The search takes the mentions from the left, and behind one that is no import it
goes on behind both quotes. So it passes over a mention that shares a quote with the one before it.
The text before such a mention ends in the quoted name, and what stands before a quote cannot make
an import of what follows it. Nothing is missed, unless the name itself ends as an import begins.
-/
namespace TemplateLint.ModuleImport
open Bytes

/-! ## Announcements -/

/-- The quotes that a name may stand in. -/
def quotes : Bytes := [Byte.singleQuote, Byte.doubleQuote]

/-- A byte of an identifier: a digit, a letter, an underscore, a dollar sign or a byte beyond
ASCII. -/
def IsIdentifier (b : UInt8) : Prop :=
  '0'.toNat ≤ b.toNat ∧ b.toNat ≤ '9'.toNat ∨ 'A'.toNat ≤ b.toNat ∧ b.toNat ≤ 'Z'.toNat ∨
    'a'.toNat ≤ b.toNat ∧ b.toNat ≤ 'z'.toNat ∨ b.toNat = '_'.toNat ∨ b.toNat = '$'.toNat ∨
    0x80 ≤ b.toNat

/-- A text that ends in a word. The word is not the end of a longer one: no byte of an identifier
stands before it. -/
def EndsInWord (word : String) (text : Bytes) : Prop :=
  ∃ before, text = before ++ ofString word ∧ ∀ b ∈ before.getLast?, ¬ IsIdentifier b

/-- A text that makes an import of a name behind it. White space may stand before the name, and
spaces and tabs before the parenthesis of a call. -/
def Announces (text : Bytes) : Prop :=
  ∃ trimmed gap, text = trimmed ++ gap ∧
    (∀ b ∈ gap, b ∈ [Byte.space, Byte.tab, Byte.carriageReturn, Byte.newline]) ∧
    (EndsInWord "from" trimmed ∨ EndsInWord "import" trimmed ∨
      ∃ call blank, trimmed = call ++ blank ++ [Byte.openParen] ∧
        (∀ b ∈ blank, b ∈ [Byte.space, Byte.tab]) ∧
        (EndsInWord "require" call ∨ EndsInWord "import" call))

theorem isIdentByte_iff (b : UInt8) : isIdentByte b = true ↔ IsIdentifier b := by
  simp only [isIdentByte, Byte.underscore, Byte.dollar, Byte.isLetter, Byte.isLower, Byte.isUpper,
    Byte.isDigit, Bool.or_eq_true, Bool.and_eq_true, beq_iff_eq, decide_eq_true_eq,
    UInt8.le_iff_toNat_le, ← UInt8.toNat_inj, UInt8.reduceToNat, IsIdentifier, Char.reduceToNat]
  omega

theorem endsInWord_reverse_iff {word : String} {text : Bytes} :
    endsInWord word text.reverse = true ↔ EndsInWord word text := by
  unfold endsInWord
  constructor
  · intro h
    split at h
    · cases h
    · next hafter =>
      have htext := congrArg List.reverse (after?_eq_some_iff.1 hafter)
      exact ⟨[], by simpa using htext, by simp⟩
    · next b rest hafter =>
      have htext := congrArg List.reverse (after?_eq_some_iff.1 hafter)
      refine ⟨(b :: rest).reverse, by simpa using htext, ?_⟩
      simpa [← isIdentByte_iff] using h
  · rintro ⟨before, rfl, hbefore⟩
    have hafter : after? (ofString word).reverse (before ++ ofString word).reverse =
        some before.reverse :=
      after?_eq_some_iff.2 List.reverse_append
    rw [hafter]
    cases hlast : before.reverse with
    | nil => rfl
    | cons b rest =>
      rw [← List.head?_reverse, hlast] at hbefore
      simpa [← isIdentByte_iff] using hbefore

theorem isGap_iff {b : UInt8} :
    isGap b = true ↔ b ∈ [Byte.space, Byte.tab, Byte.carriageReturn, Byte.newline] := by
  simp [isGap, Byte.isIndent, or_assoc]

theorem isIndent_iff {b : UInt8} : Byte.isIndent b = true ↔ b ∈ [Byte.space, Byte.tab] := by
  simp [Byte.isIndent]

/-- A text that ends in a word ends in the last byte of the word. -/
theorem EndsInWord.exists_reverse_eq {word : String} {text : Bytes} (h : EndsInWord word text)
    {last : UInt8} (hlast : (ofString word).getLast? = some last) :
    ∃ before, text.reverse = last :: before := by
  obtain ⟨before, rfl, -⟩ := h
  rw [← List.head?_eq_some_iff, List.head?_reverse, List.getLast?_append, hlast, Option.some_or]

theorem announces_reverse_iff {text : Bytes} :
    announces text.reverse = true ↔ Announces text := by
  constructor
  · intro h
    unfold announces at h
    have hsplit : (text.reverse.dropWhile isGap).reverse ++ (text.reverse.takeWhile isGap).reverse =
        text := by
      rw [← List.reverse_append, List.takeWhile_append_dropWhile, List.reverse_reverse]
    refine ⟨_, _, hsplit.symm, fun b hb => ?_, ?_⟩
    · exact isGap_iff.1 (List.mem_takeWhile_imp (List.mem_reverse.1 hb))
    · split at h
      · cases h
      · next b before hd =>
        rw [hd]
        split_ifs at h with hb
        · refine .inr (.inr ⟨(before.dropWhile Byte.isIndent).reverse,
            (before.takeWhile Byte.isIndent).reverse, ?_, fun c hc => ?_, ?_⟩)
          · rw [← List.reverse_append, List.takeWhile_append_dropWhile, hb, List.reverse_cons]
          · exact isIndent_iff.1 (List.mem_takeWhile_imp (List.mem_reverse.1 hc))
          · simpa [← endsInWord_reverse_iff] using h
        · rw [← or_assoc]
          exact .inl (by simpa only [← endsInWord_reverse_iff, List.reverse_reverse,
            Bool.or_eq_true] using h)
  · rintro ⟨trimmed, gap, rfl, hgap, h⟩
    -- the text before the gap ends in a letter or in the parenthesis, so the gap ends there
    have hdrop {b : UInt8} {before : Bytes} (hb : isGap b = false)
        (hreverse : trimmed.reverse = b :: before) :
        (trimmed ++ gap).reverse.dropWhile isGap = b :: before := by
      rw [List.reverse_append, List.dropWhile_append_of_pos fun c hc => isGap_iff.2 (hgap c
        (List.mem_reverse.1 hc)), hreverse, List.dropWhile_cons_of_neg (by rw [hb]; simp)]
    unfold announces
    have hfrom : (ofString "from").getLast? = some 0x6d := by decide +kernel
    have himport : (ofString "import").getLast? = some 0x74 := by decide +kernel
    have hrequire : (ofString "require").getLast? = some 0x65 := by decide +kernel
    rcases h with h | h | ⟨call, blank, rfl, hblank, h⟩
    · obtain ⟨before, hreverse⟩ := h.exists_reverse_eq hfrom
      rw [hdrop (by decide) hreverse]
      simp only
      rw [if_neg (by decide), ← hreverse, Bool.or_eq_true]
      exact .inl (endsInWord_reverse_iff.2 h)
    · obtain ⟨before, hreverse⟩ := h.exists_reverse_eq himport
      rw [hdrop (by decide) hreverse]
      simp only
      rw [if_neg (by decide), ← hreverse, Bool.or_eq_true]
      exact .inr (endsInWord_reverse_iff.2 h)
    · have hcall : (blank.reverse ++ call.reverse).dropWhile Byte.isIndent = call.reverse := by
        rw [List.dropWhile_append_of_pos fun c hc => isIndent_iff.2 (hblank c
          (List.mem_reverse.1 hc))]
        rcases h with h | h
        · obtain ⟨before, hreverse⟩ := h.exists_reverse_eq hrequire
          rw [hreverse, List.dropWhile_cons_of_neg (by decide)]
        · obtain ⟨before, hreverse⟩ := h.exists_reverse_eq himport
          rw [hreverse, List.dropWhile_cons_of_neg (by decide)]
      have hreverse : (call ++ blank ++ [Byte.openParen]).reverse =
          Byte.openParen :: (blank.reverse ++ call.reverse) := by simp
      rw [hdrop (by decide) hreverse]
      simp only [if_true]
      rw [hcall, Bool.or_eq_true, endsInWord_reverse_iff, endsInWord_reverse_iff]
      exact h

/-! ## Behind a quote -/

/-- What a text ends in stands behind a byte that it does not hold. -/
theorem exists_behind {q : UInt8} {x y before last : Bytes} (hq : q ∉ last)
    (h : x ++ q :: y = before ++ last) : ∃ u, before = x ++ q :: u ∧ y = u ++ last := by
  rcases List.append_eq_append_iff.1 h with ⟨u, hbefore, hy⟩ | ⟨u, -, hlast⟩
  · cases u with
    | nil =>
      rw [List.nil_append] at hy
      exact absurd (hy ▸ List.mem_cons_self) hq
    | cons c u =>
      obtain ⟨rfl, rfl⟩ := List.cons.inj hy
      exact ⟨u, hbefore, rfl⟩
  · exact absurd (hlast ▸ List.mem_append_right u List.mem_cons_self) hq

theorem EndsInWord.behind {word : String} {q : UInt8} (hword : q ∉ ofString word) {x y : Bytes}
    (h : EndsInWord word (x ++ q :: y)) : EndsInWord word (q :: y) := by
  obtain ⟨before, htext, hbefore⟩ := h
  obtain ⟨u, rfl, rfl⟩ := exists_behind hword htext
  refine ⟨q :: u, rfl, ?_⟩
  rwa [List.getLast?_append, List.getLast?_cons, Option.some_or, ← List.getLast?_cons] at hbefore

/-- **What stands before a quote announces nothing behind it.** -/
theorem Announces.behind {q : UInt8} (hq : q ∈ quotes) {x y : Bytes}
    (h : Announces (x ++ q :: y)) : Announces (q :: y) := by
  have hforeign : ∀ q ∈ quotes,
      q ∉ [Byte.space, Byte.tab, Byte.carriageReturn, Byte.newline] ∧
      q ∉ [Byte.space, Byte.tab] ∧ q ≠ Byte.openParen ∧ q ∉ ofString "from" ∧
      q ∉ ofString "import" ∧ q ∉ ofString "require" := by
    decide +kernel
  obtain ⟨hspace, hindent, hparen, hfrom, himport, hrequire⟩ := hforeign q hq
  obtain ⟨trimmed, gap, htext, hgap, h⟩ := h
  obtain ⟨u, rfl, rfl⟩ := exists_behind (fun hmem => hspace (hgap q hmem)) htext
  refine ⟨q :: u, gap, rfl, hgap, ?_⟩
  rcases h with h | h | ⟨call, blank, hcall, hblank, h⟩
  · exact .inl (h.behind hfrom)
  · exact .inr (.inl (h.behind himport))
  · have hmem : q ∉ blank ++ [Byte.openParen] := by
      rw [List.mem_append, List.mem_singleton, not_or]
      exact ⟨fun hmem => hindent (hblank q hmem), hparen⟩
    rw [List.append_assoc] at hcall
    obtain ⟨v, rfl, rfl⟩ := exists_behind hmem hcall
    refine .inr (.inr ⟨q :: v, blank, by simp, hblank, ?_⟩)
    exact h.imp (·.behind hrequire) (·.behind himport)

/-! ## The search -/

/-- A mention of a name between two quotes. -/
def mention (q : UInt8) (name : Bytes) : Bytes := q :: (name ++ [q])

/-- Two mentions overlap in one quote at most, the last of the one and the first of the other. -/
theorem take_of_overlap {q : UInt8} {name s : Bytes} (hq : q ∉ name) {i : Nat}
    (hfirst : mention q name <+: s) (hsecond : mention q name <+: s.drop (i + 1))
    (hi : i + 1 < (mention q name).length) : s.take (i + 1) = q :: name := by
  obtain ⟨t, rfl⟩ := hfirst
  obtain ⟨u, hu⟩ := hsecond
  have hquote : (mention q name ++ t)[i + 1]? = some q := by
    rw [← List.head?_drop, ← hu]
    rfl
  simp only [mention, List.length_cons, List.length_append, List.length_nil] at hi
  have hlast : i = name.length := by
    by_contra hne
    have hlt : i < name.length := by omega
    rw [mention, List.cons_append, List.getElem?_cons_succ, List.append_assoc,
      List.getElem?_append_left hlt] at hquote
    exact hq (List.mem_of_getElem? hquote)
  simp [mention, hlast]

theorem exists_mention_of_importsFrom {needle reversed s : Bytes} {skip : Nat}
    (h : importsFrom needle reversed skip s = true) :
    ∃ i, needle <+: s.drop i ∧ announces ((s.take i).reverse ++ reversed) = true := by
  induction s generalizing reversed skip with
  | nil => cases skip <;> cases h
  | cons b s ih =>
    -- a mention further on is one of the whole text
    have hrest {skip : Nat} (h : importsFrom needle (b :: reversed) skip s = true) :
        ∃ i, needle <+: (b :: s).drop i ∧
          announces (((b :: s).take i).reverse ++ reversed) = true := by
      obtain ⟨i, hmention, hannounced⟩ := ih h
      exact ⟨i + 1, hmention, by simpa using hannounced⟩
    cases skip with
    | succ skip => exact hrest h
    | zero =>
      rw [importsFrom] at h
      split_ifs at h with hstarts
      · rcases Bool.or_eq_true _ _ ▸ h with h | h
        · exact ⟨0, List.isPrefixOf_iff_prefix.1 hstarts, h⟩
        · exact hrest h
      · exact hrest h

/-- The search finds every import behind the bytes that it skips, as long as a mention is no import
when a mention that it shares a quote with stands before it. -/
theorem importsFrom_of_mention {q : UInt8} {name : Bytes} (hq : q ∉ name)
    (hshared : ∀ before, announces (name.reverse ++ q :: before) = false) {reversed s : Bytes}
    {skip i : Nat} (hskip : skip ≤ i) (hmention : mention q name <+: s.drop i)
    (hannounced : announces ((s.take i).reverse ++ reversed) = true) :
    importsFrom (mention q name) reversed skip s = true := by
  induction s generalizing reversed skip i with
  | nil => simp [mention] at hmention
  | cons b s ih =>
    cases i with
    | zero =>
      obtain rfl : skip = 0 := by omega
      have hstarts : (mention q name).isPrefixOf (b :: s) = true :=
        List.isPrefixOf_iff_prefix.2 hmention
      rw [importsFrom, if_pos hstarts, Bool.or_eq_true]
      exact .inl hannounced
    | succ i =>
      have hannounced' : announces ((s.take i).reverse ++ b :: reversed) = true := by
        simpa using hannounced
      cases skip with
      | succ skip => exact ih (by omega) hmention hannounced'
      | zero =>
        rw [importsFrom]
        split_ifs with hstarts
        · rw [Bool.or_eq_true]
          refine .inr (ih ?_ hmention hannounced')
          -- the search goes on behind this mention, which the next one cannot overlap
          by_contra hlt
          have hfirst := List.isPrefixOf_iff_prefix.1 hstarts
          have htake := take_of_overlap hq hfirst hmention (by omega)
          rw [htake, List.reverse_cons, List.append_assoc, List.singleton_append, hshared]
            at hannounced
          cases hannounced
        · exact ih (by omega) hmention hannounced'

/-- **The search for imports misses nothing.** -/
theorem imports_iff_exists_announced {name : Bytes} (hname : name ≠ [])
    (hquotes : ∀ q ∈ quotes, q ∉ name)
    (hends : ∀ q ∈ quotes, announces (q :: name).reverse = false) (source : Bytes) :
    imports source name = true ↔
      ∃ q ∈ quotes, ∃ i, q :: (name ++ [q]) <+: source.drop i ∧ Announces (source.take i) := by
  have hsearch : ∀ q ∈ quotes, importsFrom (mention q name) [] 0 source = true ↔
      ∃ i, mention q name <+: source.drop i ∧ Announces (source.take i) := by
    intro q hq
    have hshared (before : Bytes) : announces (name.reverse ++ q :: before) = false := by
      have hlocal := hends q hq
      rw [Bool.eq_false_iff, ne_eq, announces_reverse_iff] at hlocal
      have hreverse : name.reverse ++ q :: before = (before.reverse ++ q :: name).reverse := by simp
      rw [hreverse, Bool.eq_false_iff, ne_eq, announces_reverse_iff]
      exact fun h => hlocal (h.behind hq)
    simp only [← announces_reverse_iff]
    constructor
    · intro h
      simpa using exists_mention_of_importsFrom h
    · rintro ⟨i, hmention, hannounced⟩
      rw [← List.append_nil (source.take i).reverse] at hannounced
      exact importsFrom_of_mention (hquotes q hq) hshared (Nat.zero_le i) hmention hannounced
  have hempty : name.isEmpty = false := by simpa using hname
  simp only [imports, hempty, Bool.not_false, Bool.true_and, Bool.or_eq_true]
  refine (or_congr (hsearch _ (by decide)) (hsearch _ (by decide))).trans ?_
  simp [quotes, mention]

/-- The condition on the name is needed: here the second mention follows the word `from`, and the
first one hides it. -/
example : imports (ofString "' from' from'") (ofString " from") = false := by decide +kernel

/-- Three mentions in a row that share their quotes, and an import behind them. -/
def chainedMentions : Bytes := ofString "['css'css'css'], import ( \t'css')"

theorem chainedMentions_import :
    (∀ q ∈ quotes, q ∉ ofString "css" ∧ announces (q :: ofString "css").reverse = false) ∧
      ∃ q ∈ quotes, ∃ i, q :: (ofString "css" ++ [q]) <+: chainedMentions.drop i ∧
        Announces (chainedMentions.take i) := by
  have hname : ∀ q ∈ quotes,
      q ∉ ofString "css" ∧ announces (q :: ofString "css").reverse = false := by decide +kernel
  refine ⟨hname, ?_⟩
  exact (imports_iff_exists_announced (by decide +kernel) (fun q hq => (hname q hq).1)
    (fun q hq => (hname q hq).2) chainedMentions).1 (by decide +kernel)

end TemplateLint.ModuleImport
