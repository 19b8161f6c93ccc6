import Mathlib
import TemplateLint.Proofs.Template.Tag

/-!
# Tags in the window before a template

Only the last bytes before a template are searched for a tag. Where this window starts, the text
starts for the search, so an expression may stand there that is part of a longer name. An
expression that the window shows with another character before it, or that starts behind a
character that no name holds, is found in the whole text as well. So the window misleads only when
it cuts into a name or a member access and an expression fills it from there to its end.
-/
namespace TemplateLint
open Computability

namespace Tag
open Pattern

/-! ## The text before an expression -/

/-- The bytes of names and member accesses. -/
def isNameByte (b : UInt8) : Bool :=
  Byte.isLetter b || Byte.isDigit b || b == Byte.underscore || b == Byte.dot || b == Byte.dollar

/-- The code points of names and member accesses. -/
def nameCodes : Set Nat :=
  {c | RuneClass.contains ⟨false, RuneClass.wordRanges ++ [(0x2e, 0x2e), (0x24, 0x24)]⟩ c = true}

theorem mem_nameCodes {c : Nat} :
    c ∈ nameCodes ↔ RuneClass.isWord c = true ∨ c = 0x2e ∨ c = 0x24 := by
  change RuneClass.contains ⟨false, _⟩ c = true ↔ _
  simp only [RuneClass.isWord, RuneClass.contains, RuneClass.wordRanges, List.any_append,
    List.any_cons, List.any_nil, Bool.or_false, Bool.bne_false, Bool.or_eq_true,
    Bool.and_eq_true, decide_eq_true_eq]
  omega

theorem toNat_mem_nameCodes {b : UInt8} : b.toNat ∈ nameCodes ↔ isNameByte b = true := by
  rw [mem_nameCodes]
  simp only [isNameByte, RuneClass.isWord, RuneClass.contains, RuneClass.wordRanges,
    Byte.isLetter, Byte.isLower, Byte.isUpper, Byte.isDigit, Byte.underscore, Byte.dot,
    Byte.dollar, List.any_cons, List.any_nil, Bool.or_false, Bool.bne_false, Bool.or_eq_true,
    Bool.and_eq_true, decide_eq_true_eq, beq_iff_eq, UInt8.le_iff_toNat_le, ← UInt8.toNat_inj,
    UInt8.reduceToNat]
  omega

theorem lt_of_mem_nameCodes {c : Nat} (h : c ∈ nameCodes) : c < 0x80 := by
  rw [mem_nameCodes] at h
  simp only [RuneClass.isWord, RuneClass.contains, RuneClass.wordRanges, List.any_cons,
    List.any_nil, Bool.or_false, Bool.bne_false, Bool.or_eq_true, Bool.and_eq_true,
    decide_eq_true_eq] at h
  omega

theorem contains_negated (ranges : List (Nat × Nat)) (c : Nat) :
    RuneClass.contains ⟨true, ranges⟩ c = !RuneClass.contains ⟨false, ranges⟩ c := by
  rw [RuneClass.contains, RuneClass.contains, Bool.bne_true, Bool.bne_false]

/-- The text before an expression is one that does not end in a name. -/
theorem mem_beforeName {cs : List Nat} : cs ∈ beforeName.language ↔ ¬ EndsIn nameCodes cs := by
  constructor
  · rintro (rfl | ⟨a, -, _, ⟨c, hc, rfl⟩, rfl⟩) ⟨d, hd, hlast⟩
    · cases hlast
    · rw [List.getLast?_concat] at hlast
      cases hlast
      rw [contains_negated, Bool.not_eq_true'] at hc
      exact absurd hd (Bool.eq_false_iff.1 hc)
  · intro h
    cases cs using List.reverseRecOn with
    | nil => exact .inl rfl
    | append_singleton a c =>
      refine .inr ⟨a, mem_language_anything a, [c], ⟨c, ?_, rfl⟩, rfl⟩
      rw [contains_negated, Bool.not_eq_true', Bool.eq_false_iff]
      exact fun hc => h ⟨c, hc, List.getLast?_concat⟩

/-- A text ends in a name when its last byte belongs to one. -/
theorem endsIn_codes_iff {s : Bytes} :
    EndsIn nameCodes (codes s) ↔ ∃ b, s.getLast? = some b ∧ isNameByte b = true := by
  constructor
  · rintro ⟨c, hc, hlast⟩
    obtain ⟨cs, hcs⟩ := List.getLast?_eq_some_iff.1 hlast
    obtain ⟨a, b, t, rfl, -, rfl, -, ht⟩ := exists_append_of_codes hcs (lt_of_mem_nameCodes hc)
    rw [eq_nil_of_codes ht]
    exact ⟨b, by simp, toNat_mem_nameCodes.1 hc⟩
  · rintro ⟨b, hlast, hb⟩
    obtain ⟨a, rfl⟩ := List.getLast?_eq_some_iff.1 hlast
    have hcode := toNat_mem_nameCodes.2 hb
    have hascii : b < 0x80 := by
      simpa only [UInt8.lt_iff_toNat_lt, UInt8.reduceToNat] using lt_of_mem_nameCodes hcode
    refine ⟨b.toNat, hcode, ?_⟩
    rw [codes_append_cons (Rune.isTail_of_ascii hascii), codes_ascii_cons hascii]
    simp [codes]

/-- A text that starts with a code point of ASCII is not read together with what stands before. -/
theorem codes_append_of_head {n : Nat} {x : Bytes} (hx : (codes x).head? = some n)
    (hn : n < 0x80) (a : Bytes) : codes (a ++ x) = codes a ++ codes x := by
  obtain ⟨ds, hds⟩ := List.head?_eq_some_iff.1 hx
  rw [← List.nil_append (n :: ds)] at hds
  obtain ⟨u, b, t, rfl, hb, -, hu, -⟩ := exists_append_of_codes hds hn
  rw [eq_nil_of_codes hu, List.nil_append]
  exact codes_append_cons (Rune.isTail_of_ascii hb) a t

/-- An expression whose words all start with the same character of ASCII. -/
structure IsAnchored (bare : Pattern) : Prop where
  plain : bare.isPlain = true
  head : ∃ n < 0x80, ∀ x ∈ bare.language, x.head? = some n

theorem IsAnchored.language_of_matchesAll {bare : Pattern} (h : IsAnchored bare) {x : Bytes}
    (hx : bare.matchesAll x = true) : codes x ∈ bare.language :=
  (matchesAll_iff h.plain x).1 hx

theorem IsAnchored.codes_append {bare : Pattern} (h : IsAnchored bare) {x : Bytes}
    (hx : bare.matchesAll x = true) (a : Bytes) : codes (a ++ x) = codes a ++ codes x := by
  obtain ⟨n, hn, hhead⟩ := h.head
  exact codes_append_of_head (hhead _ (h.language_of_matchesAll hx)) hn a

/-- An expression matches a text that it ends, when no name goes on into it. -/
theorem IsAnchored.matchesAll_iff {bare : Pattern} (h : IsAnchored bare) (s : Bytes) :
    (seq beforeName bare).matchesAll s = true ↔
      ∃ a x, s = a ++ x ∧ ¬ EndsIn nameCodes (codes a) ∧ bare.matchesAll x = true := by
  have hplain : (seq beforeName bare).isPlain = true := by
    rw [isPlain, h.plain]
    rfl
  rw [Pattern.matchesAll_iff hplain, mem_language_seq]
  constructor
  · rintro ⟨cs, hcs, ds, hds, heq⟩
    obtain ⟨n, hn, hhead⟩ := h.head
    obtain ⟨ds, rfl⟩ := List.head?_eq_some_iff.1 (hhead ds hds)
    obtain ⟨a, b, t, rfl, hb, rfl, rfl, rfl⟩ := exists_append_of_codes heq.symm hn
    refine ⟨a, b :: t, rfl, mem_beforeName.1 hcs, ?_⟩
    rwa [Pattern.matchesAll_iff h.plain, codes_ascii_cons hb]
  · rintro ⟨a, x, rfl, ha, hx⟩
    exact ⟨codes a, mem_beforeName.2 ha, codes x, h.language_of_matchesAll hx,
      (h.codes_append hx a).symm⟩

theorem isAnchored_seq {text : String} (h : ∃ n ∈ (word text).head?, n < 0x80)
    (hplain : (literal text).isPlain = true) {rest : Pattern} (hrest : rest.isPlain = true) :
    IsAnchored (seq (literal text) rest) where
  plain := by
    rw [isPlain, hplain, hrest]
    rfl
  head := by
    obtain ⟨n, hhead, hn⟩ := h
    refine ⟨n, hn, ?_⟩
    rintro _ ⟨x, hx, y, -, rfl⟩
    rw [language_literal] at hx
    cases hx
    rw [List.head?_append]
    exact Option.or_eq_some_iff.2 (.inl hhead)

theorem isAnchored_bareComponent : IsAnchored bareComponent :=
  isAnchored_seq ⟨0x73, rfl, by decide⟩ (by decide +kernel) (by decide +kernel)

theorem isAnchored_bareHelper {name : String} {tag : Tag} (h : (name, tag) ∈ helpers) :
    IsAnchored (bareHelper name) := by
  have key : ∀ helper ∈ helpers, (∃ n ∈ (word helper.1).head?, n < 0x80) ∧
      (literal helper.1).isPlain = true := by decide +kernel
  obtain ⟨hhead, hplain⟩ := key _ h
  exact isAnchored_seq hhead hplain (by decide +kernel)

/-! ## One expression at most -/

variable {name name' : String} {tag tag' : Tag} {u v x y : List Nat}

/-- No name of a helper is the end of another one. -/
theorem bareHelper_unique (h : (name, tag) ∈ helpers) (h' : (name', tag') ∈ helpers)
    (hx : x ∈ (bareHelper name).language) (hy : y ∈ (bareHelper name').language)
    (heq : u ++ x = v ++ y) : u = v ∧ (name, tag) = (name', tag') := by
  have key : ∀ a ∈ helpers, ∀ b ∈ helpers, word a.1 <:+ word b.1 → a = b := by decide +kernel
  have hstem : u ++ word name = v ++ word name' :=
    ((isStem_of_bareHelper h hx).append u).unique (heq ▸ (isStem_of_bareHelper h' hy).append v)
  have hsame : (name, tag) = (name', tag') := by
    rcases List.append_eq_append_iff.1 hstem with ⟨m, -, hm⟩ | ⟨m, -, hm⟩
    · exact (key _ h' _ h ⟨m, hm.symm⟩).symm
    · exact key _ h _ h' ⟨m, hm.symm⟩
  cases hsame
  exact ⟨List.append_cancel_right hstem, rfl⟩

/-- A helper that is not a member of something else does not end a component. -/
theorem bareHelper_apart (h : (name, tag) ∈ helpers) (hu : ¬ EndsIn nameCodes u)
    (hx : x ∈ (bareHelper name).language) (hy : y ∈ bareComponent.language) :
    u ++ x ≠ v ++ y := by
  intro heq
  have key : ∀ a ∈ helpers, (∀ c ∈ word a.1, RuneClass.isWord c = true) ∧
      ∃ c ∈ (word a.1).getLast?, RuneClass.isWord c = true := by decide +kernel
  obtain ⟨hword, c, hlast, hc⟩ := key _ h
  obtain ⟨stem, hmem, hstem⟩ := exists_stem_of_bareComponent hy
  have hsame : u ++ word name = v ++ stem :=
    ((isStem_of_bareHelper h hx).append u).unique (heq ▸ hstem.append v)
  rcases hmem with hmem | hmem
  · -- the helper would be a member of the styled object
    obtain ⟨_, rfl, m, hm, rfl⟩ := hmem
    rw [← List.append_assoc] at hsame
    have hwords : words ⊆ nameCodes := fun d hd => mem_nameCodes.2 (.inl hd)
    have hdot : EndsIn {0x2e} (v ++ word "styled.") :=
      (endsIn_singleton (w := word "styled.") rfl _ rfl).append v
    have hcut : u = v ++ word "styled." := by
      refine append_kstar_cancel (suffixFree_one _) (endsIn_one _) (fun hends => ?_) ?_
        (mem_kstar_one hword) hm hsame
      · exact hu (hends.mono hwords)
      · refine hdot.not_of_disjoint ?_
        rw [Set.disjoint_singleton_left]
        intro hd
        cases hd
    rw [hcut] at hu
    exact hu (hdot.mono fun d hd => mem_nameCodes.2 (.inr (.inl hd)))
  · -- the name of the helper would end in a parenthesis
    have hends := endsIn_mul endsIn_arguments stem hmem
    have hname : EndsIn words (u ++ word name) := EndsIn.append ⟨c, hc, hlast⟩ u
    rw [hsame] at hname
    refine hname.not_of_disjoint ?_ (hends.append v)
    rw [Set.disjoint_singleton_right]
    intro hd
    cases hd

theorem matchesAll_component_iff (s : Bytes) :
    component.matchesAll s = true ↔
      ∃ a x, s = a ++ x ∧ ¬ EndsIn nameCodes (codes a) ∧ bareComponent.matchesAll x = true :=
  isAnchored_bareComponent.matchesAll_iff s

theorem matchesAll_helper_iff (h : (name, tag) ∈ helpers) (s : Bytes) :
    (helper name).matchesAll s = true ↔
      ∃ a x, s = a ++ x ∧ ¬ EndsIn nameCodes (codes a) ∧ (bareHelper name).matchesAll x = true :=
  (isAnchored_bareHelper h).matchesAll_iff s

/-- Two helpers that end the same text are one, and stand at the same place. -/
theorem codes_eq_of_helpers (h : (name, tag) ∈ helpers) (h' : (name', tag') ∈ helpers)
    {a b x y : Bytes} (hx : (bareHelper name).matchesAll x = true)
    (hy : (bareHelper name').matchesAll y = true) (heq : a ++ x = b ++ y) :
    codes a = codes b ∧ (name, tag) = (name', tag') := by
  have hx' := isAnchored_bareHelper h
  have hy' := isAnchored_bareHelper h'
  refine bareHelper_unique h h' (hx'.language_of_matchesAll hx) (hy'.language_of_matchesAll hy) ?_
  rw [← hx'.codes_append hx, heq, hy'.codes_append hy]

/-- A helper that stands alone and a component do not end the same text. -/
theorem helper_ne_component (h : (name, tag) ∈ helpers) {a b x y : Bytes}
    (ha : ¬ EndsIn nameCodes (codes a)) (hx : (bareHelper name).matchesAll x = true)
    (hy : bareComponent.matchesAll y = true) : a ++ x ≠ b ++ y := by
  have hx' := isAnchored_bareHelper h
  have hy' := isAnchored_bareComponent
  intro heq
  refine bareHelper_apart h ha (hx'.language_of_matchesAll hx) (hy'.language_of_matchesAll hy)
    (v := codes b) ?_
  rw [← hx'.codes_append hx, heq, hy'.codes_append hy]

theorem not_matchesAll_component (h : (name, tag) ∈ helpers) {s : Bytes}
    (hs : (helper name).matchesAll s = true) : component.matchesAll s = false := by
  rw [Bool.eq_false_iff]
  intro hcomponent
  obtain ⟨a, x, rfl, ha, hx⟩ := (matchesAll_helper_iff h s).1 hs
  obtain ⟨b, y, heq, -, hy⟩ := (matchesAll_component_iff (a ++ x)).1 hcomponent
  exact helper_ne_component h ha hx hy heq

theorem not_matchesAll_helper (h : (name, tag) ∈ helpers) {s : Bytes}
    (hs : (helper name).matchesAll s = true) (h' : (name', tag') ∈ helpers) (hne : tag ≠ tag') :
    (helper name').matchesAll s = false := by
  rw [Bool.eq_false_iff]
  intro hother
  obtain ⟨a, x, rfl, -, hx⟩ := (matchesAll_helper_iff h s).1 hs
  obtain ⟨b, y, heq, -, hy⟩ := (matchesAll_helper_iff h' (a ++ x)).1 hother
  exact hne (Prod.mk.inj (codes_eq_of_helpers h h' hx hy heq).2).2

/-- The order in which the expressions are tried does not matter. -/
theorem ofText?_eq_some_iff {s : Bytes} :
    ofText? s = some tag ↔
      component.matchesAll s = true ∧ tag = styled ∨
        ∃ name, (name, tag) ∈ helpers ∧ (helper name).matchesAll s = true := by
  have halt := matchesAll_alt (p := helper "createGlobalStyle") (q := helper "injectGlobal")
    (by decide +kernel) (by decide +kernel) s
  rw [ofText?, halt]
  constructor
  · intro h
    split at h
    · next hcomponent =>
      cases h
      exact .inl ⟨hcomponent, rfl⟩
    split at h
    · next hcss =>
      cases h
      exact .inr ⟨"css", by simp [helpers], hcss⟩
    split at h
    · next hglobal =>
      cases h
      rcases Bool.or_eq_true_iff.1 hglobal with hglobal | hglobal
      · exact .inr ⟨"createGlobalStyle", by simp [helpers], hglobal⟩
      · exact .inr ⟨"injectGlobal", by simp [helpers], hglobal⟩
    split at h
    · next hkeyframes =>
      cases h
      exact .inr ⟨"keyframes", by simp [helpers], hkeyframes⟩
    · cases h
  · rintro (⟨hcomponent, rfl⟩ | ⟨name, hname, hs⟩)
    · rw [if_pos hcomponent]
    · have hcomponent := not_matchesAll_component hname hs
      have hother : ∀ other ∈ helpers, tag ≠ other.2 → (helper other.1).matchesAll s = false :=
        fun other hmem hne => not_matchesAll_helper hname hs hmem hne
      simp only [helpers, List.forall_mem_cons] at hother
      obtain ⟨hcss, hcreate, hinject, -⟩ := hother
      simp only [helpers, List.mem_cons, Prod.mk.injEq, List.not_mem_nil, or_false] at hname
      rw [if_neg (by simp [hcomponent])]
      rcases hname with ⟨rfl, rfl⟩ | ⟨rfl, rfl⟩ | ⟨rfl, rfl⟩ | ⟨rfl, rfl⟩
      · rw [if_pos hs]
      · simp [hs, hcss (by decide)]
      · simp [hs, hcss (by decide)]
      · simp [hs, hcss (by decide), hcreate (by decide), hinject (by decide)]

/-! ## The window -/

/-- The window before a template starts inside a name or a member access, and an expression fills
it from there on. -/
def WindowCuts (s : Bytes) (bare : Pattern) : Prop :=
  ∃ far b near, s = far ++ b :: near ∧ near.length = window ∧ isNameByte b = true ∧
    bare.matchesAll near = true

/-- The tag expressions without the text before them. -/
def bareExpressions : List Pattern := bareComponent :: helpers.map fun h => bareHelper h.1

/-- A short text is its own window, and a long one has a byte before it. -/
theorem before?_cases (s : Bytes) :
    s.length ≤ window ∧ before? s = ofText? s ∨
      ∃ far b near, s = far ++ b :: near ∧ near.length = window ∧ before? s = ofText? near := by
  by_cases h : s.length ≤ window
  · refine .inl ⟨h, ?_⟩
    rw [before?, Nat.sub_eq_zero_of_le h, List.drop_zero]
  · obtain hnil | ⟨far, b, hfar⟩ := List.eq_nil_or_concat' (s.take (s.length - window))
    · have hlength := congrArg List.length hnil
      rw [List.length_take, List.length_nil] at hlength
      omega
    · refine .inr ⟨far, b, s.drop (s.length - window), ?_, ?_, rfl⟩
      · rw [List.append_cons, ← hfar, List.take_append_drop]
      · rw [List.length_drop]
        omega

section
variable {bare : Pattern} {far near : Bytes} {b : UInt8}

theorem windowCuts_iff (hnear : near.length = window) :
    WindowCuts (far ++ b :: near) bare ↔
      isNameByte b = true ∧ bare.matchesAll near = true := by
  constructor
  · rintro ⟨far', b', near', heq, hnear', hb, hbare⟩
    obtain ⟨-, hcons⟩ := List.append_inj' heq (by simp [hnear, hnear'])
    cases hcons
    exact ⟨hb, hbare⟩
  · rintro ⟨hb, hbare⟩
    exact ⟨far, b, near, rfl, hnear, hb, hbare⟩

theorem not_windowCuts_of_length {s : Bytes} (h : s.length ≤ window) (bare : Pattern) :
    ¬ WindowCuts s bare := by
  rintro ⟨far, b, near, rfl, hnear, -, -⟩
  rw [List.length_append, List.length_cons] at h
  omega

/-- An expression in the window is one of the whole text unless the window cuts into a name. -/
theorem IsAnchored.matchesAll_append (h : IsAnchored bare)
    (hnear : (seq beforeName bare).matchesAll near = true)
    (hfree : ¬ (isNameByte b = true ∧ bare.matchesAll near = true)) :
    (seq beforeName bare).matchesAll (far ++ b :: near) = true := by
  obtain ⟨a, x, rfl, ha, hx⟩ := (h.matchesAll_iff near).1 hnear
  refine (h.matchesAll_iff _).2 ⟨far ++ b :: a, x, by simp, ?_, hx⟩
  rw [endsIn_codes_iff]
  rintro ⟨c, hlast, hc⟩
  cases a with
  | nil =>
    rw [List.getLast?_concat] at hlast
    cases hlast
    exact hfree ⟨hc, hx⟩
  | cons d a =>
    refine ha (endsIn_codes_iff.2 ⟨c, ?_, hc⟩)
    rw [List.getLast?_append_of_ne_nil _ (by simp), List.getLast?_cons_cons] at hlast
    exact hlast

/-- An expression that fills a text stands there. -/
theorem IsAnchored.matchesAll_self (h : IsAnchored bare) (hnear : bare.matchesAll near = true) :
    (seq beforeName bare).matchesAll near = true := by
  refine (h.matchesAll_iff near).2 ⟨[], near, rfl, ?_, hnear⟩
  rintro ⟨c, -, hlast⟩
  cases hlast

theorem endsIn_of_isNameByte (hb : isNameByte b = true) (far : Bytes) :
    EndsIn nameCodes (codes (far ++ [b])) :=
  endsIn_codes_iff.2 ⟨b, List.getLast?_concat, hb⟩

/-- A component that the window cuts out of a name is none of the whole text. -/
theorem ofText?_of_cut_component (far : Bytes) (hb : isNameByte b = true)
    (hnear : bareComponent.matchesAll near = true) : ofText? (far ++ b :: near) = none := by
  rw [Option.eq_none_iff_forall_ne_some]
  intro tag htag
  have hname := endsIn_of_isNameByte hb far
  rw [List.append_cons, ofText?_eq_some_iff] at htag
  rcases htag with ⟨hs, -⟩ | ⟨name, h, hs⟩
  · have hanchored := isAnchored_bareComponent
    obtain ⟨a, x, heq, ha, hx⟩ := (matchesAll_component_iff _).1 hs
    refine ha ?_
    have hcodes : codes a = codes (far ++ [b]) := by
      refine suffixFree_bareComponent (hanchored.language_of_matchesAll hx)
        (hanchored.language_of_matchesAll hnear) ?_
      rw [← hanchored.codes_append hx, ← heq, hanchored.codes_append hnear]
    rwa [hcodes]
  · obtain ⟨a, x, heq, ha, hx⟩ := (matchesAll_helper_iff h _).1 hs
    exact helper_ne_component h ha hx hnear heq.symm

/-- A helper that the window cuts out of a name is none of the whole text. -/
theorem component_of_cut_helper {name : String} {tag tag' : Tag} (h : (name, tag) ∈ helpers)
    (hb : isNameByte b = true) (hnear : (bareHelper name).matchesAll near = true)
    (hs : ofText? (far ++ b :: near) = some tag') :
    component.matchesAll (far ++ b :: near) = true ∧ tag' = styled := by
  rw [ofText?_eq_some_iff] at hs
  rcases hs with hs | ⟨name', h', hs⟩
  · exact hs
  · obtain ⟨a, x, heq, ha, hx⟩ := (matchesAll_helper_iff h' _).1 hs
    rw [List.append_cons] at heq
    have hcodes := (codes_eq_of_helpers h h' hnear hx heq).1
    exact absurd (hcodes ▸ endsIn_of_isNameByte hb far) ha

end

/-- **The window sees the tag of the whole text unless it cuts into a name.** A tag that is found in
the window is the one of the whole text exactly unless the window starts inside a name or a member
access and an expression fills it from there on. One such text keeps its tag: a member of the
styled object whose name ends like the helper for rules. -/
theorem before?_agrees_iff {s : Bytes} {tag : Tag} (h : before? s = some tag) :
    ofText? s = some tag ↔
      (∀ bare ∈ bareExpressions, ¬ WindowCuts s bare) ∨
        WindowCuts s (bareHelper "css") ∧ component.matchesAll s = true := by
  rcases before?_cases s with ⟨hshort, hbefore⟩ | ⟨far, b, near, rfl, hnear, hbefore⟩
  · rw [hbefore] at h
    exact iff_of_true h (.inl fun bare _ => not_windowCuts_of_length hshort bare)
  · rw [hbefore] at h
    simp only [windowCuts_iff hnear]
    have hhelper : ∀ {name : String} {tag' : Tag}, (name, tag') ∈ helpers →
        (bareHelper name).matchesAll near = true → tag' = tag := by
      intro name tag' hname hfills
      have hsees := ofText?_eq_some_iff.2
        (.inr ⟨name, hname, (isAnchored_bareHelper hname).matchesAll_self hfills⟩)
      rw [h] at hsees
      exact (Option.some.inj hsees).symm
    constructor
    · intro hs
      by_cases hcut : ∃ bare ∈ bareExpressions, isNameByte b = true ∧ bare.matchesAll near = true
      · obtain ⟨bare, hbare, hb, hfills⟩ := hcut
        rcases List.mem_cons.1 hbare with rfl | hbare
        · rw [ofText?_of_cut_component far hb hfills] at hs
          cases hs
        · obtain ⟨⟨name, tag'⟩, hname, rfl⟩ := List.mem_map.1 hbare
          obtain ⟨hcomponent, rfl⟩ := component_of_cut_helper hname hb hfills hs
          obtain rfl := hhelper hname hfills
          have hcss : name = "css" := by simpa [helpers] using hname
          rw [hcss] at hfills
          exact .inr ⟨⟨hb, hfills⟩, hcomponent⟩
      · exact .inl fun bare hbare hcuts => hcut ⟨bare, hbare, hcuts⟩
    · rintro (hfree | ⟨⟨-, hfills⟩, hs⟩)
      · simp only [bareExpressions, List.forall_mem_cons, List.forall_mem_map] at hfree
        rw [ofText?_eq_some_iff] at h ⊢
        rcases h with ⟨hcomponent, rfl⟩ | ⟨name, hname, hs⟩
        · exact .inl ⟨isAnchored_bareComponent.matchesAll_append hcomponent hfree.1, rfl⟩
        · exact .inr ⟨name, hname,
            (isAnchored_bareHelper hname).matchesAll_append hs (hfree.2 _ hname)⟩
      · obtain rfl : styled = tag := hhelper (by simp [helpers]) hfills
        exact ofText?_eq_some_iff.2 (.inl ⟨hs, rfl⟩)

/-- A text with spaces behind it. -/
def spaced (text : String) (n : Nat) : Bytes := Bytes.ofString text ++ List.replicate n Byte.space

theorem before?_append (far : Bytes) {near : Bytes} (h : near.length = window) :
    before? (far ++ near) = ofText? near := by
  rw [before?, List.length_append, h, Nat.add_sub_cancel, List.drop_left]

/-- The window shows the helper for rules, the whole text a member of the styled object. -/
theorem spaced_css_agrees :
    before? (spaced "styled.css" 509) = some styled ∧
      WindowCuts (spaced "styled.css" 509) (bareHelper "css") ∧
      component.matchesAll (spaced "styled.css" 509) = true ∧
      (ofText? (spaced "styled.css" 509) = some styled ↔
        (∀ bare ∈ bareExpressions, ¬ WindowCuts (spaced "styled.css" 509) bare) ∨
          WindowCuts (spaced "styled.css" 509) (bareHelper "css") ∧
            component.matchesAll (spaced "styled.css" 509) = true) := by
  have hfills : (bareHelper "css").matchesAll (spaced "css" 509) = true := by decide +kernel
  have hlength : (spaced "css" 509).length = window := by decide +kernel
  have hcss : ("css", styled) ∈ helpers := by simp [helpers]
  have hbefore : before? (spaced "styled.css" 509) = some styled := by
    have hsees := ofText?_eq_some_iff.2
      (.inr ⟨"css", hcss, (isAnchored_bareHelper hcss).matchesAll_self hfills⟩)
    rw [← hsees]
    exact before?_append (Bytes.ofString "styled.") hlength
  have hcomponent : bareComponent.matchesAll (spaced "styled.css" 509) = true := by decide +kernel
  refine ⟨hbefore, ?_, isAnchored_bareComponent.matchesAll_self hcomponent,
    before?_agrees_iff hbefore⟩
  exact ⟨Bytes.ofString "styled", Byte.dot, spaced "css" 509, rfl, hlength, by decide, hfills⟩

/-- A component that the window shows is the end of a longer name, and the whole text has no tag. -/
theorem spaced_component_invented :
    before? (spaced "xstyled.div" 502) = some styled ∧
      ofText? (spaced "xstyled.div" 502) = none := by
  have hfills : bareComponent.matchesAll (spaced "styled.div" 502) = true := by decide +kernel
  have hlength : (spaced "styled.div" 502).length = window := by decide +kernel
  have hsees := ofText?_eq_some_iff.2
    (.inl ⟨isAnchored_bareComponent.matchesAll_self hfills, rfl⟩)
  refine ⟨?_, ofText?_of_cut_component [] (b := 0x78) (by decide) hfills⟩
  rw [← hsees]
  exact before?_append [0x78] hlength

end Tag
end TemplateLint
