import Mathlib
import TemplateLint.Proofs.Text.Pattern
import TemplateLint.Proofs.Text.SuffixFree
import TemplateLint.Template.Tag

/-!
# Tag expressions are read from the end

Every tag expression ends in type arguments and white space, in any number. What is left without
them is the stem: it ends in the name of a helper, in a member of a component or in a closing
parenthesis. So no text matches two of the expressions, and the text before an expression is fixed
by the whole text.
-/
namespace TemplateLint
open Computability

namespace Tag
open Pattern

/-! ## Parts of tag expressions -/

/-- The expression of a component without the text before it. -/
def bareComponent : Pattern :=
  sequence [literal "styled", target, optional typeArguments, optional attributes,
    optional typeArguments, trailingSpace]

/-- The expression of a helper without the text before it. -/
def bareHelper (name : String) : Pattern :=
  sequence [literal name, optional typeArguments, trailingSpace]

/-- The characters of names. -/
def words : Set Nat := {c | RuneClass.isWord c = true}

/-- The characters of the white space behind a tag expression. -/
def spaces : Set Nat := {c | RuneClass.contains ⟨false, RuneClass.spaceRanges⟩ c = true}

theorem disjoint_words_spaces : Disjoint words spaces := by
  rw [Set.disjoint_left]
  intro c hc hs
  change RuneClass.contains ⟨false, RuneClass.wordRanges⟩ c = true at hc
  change RuneClass.contains ⟨false, RuneClass.spaceRanges⟩ c = true at hs
  simp only [RuneClass.contains, RuneClass.wordRanges, RuneClass.spaceRanges, List.any_cons,
    List.any_nil, Bool.or_false, Bool.bne_false, Bool.or_eq_true, Bool.and_eq_true,
    decide_eq_true_eq] at hc hs
  omega

theorem suffixFree_one (k : RuneClass) : SuffixFree (one k).language := by
  rintro a b x y ⟨c, -, rfl⟩ ⟨d, -, rfl⟩ h
  exact (List.append_inj' h rfl).1

theorem endsIn_one (k : RuneClass) :
    ∀ x ∈ (one k).language, EndsIn {c | k.contains c = true} x := by
  rintro x ⟨c, hc, rfl⟩
  exact ⟨c, hc, rfl⟩

/-- A word ends in its last character. -/
theorem endsIn_singleton {w : List Nat} {c : Nat} (h : w.getLast? = some c) :
    ∀ x ∈ ({w} : Language Nat), EndsIn {c} x := by
  rintro x rfl
  exact ⟨c, rfl, h⟩

/-- The type arguments between angle brackets. -/
theorem language_typeArguments : typeArguments.language =
    {[0x3c]} * (one (.notChars "<>")).language∗ * {[0x3e]} := by
  change (literal "<").language * ((one (.notChars "<>")).language∗ * (literal ">").language) = _
  rw [language_literal, language_literal, mul_assoc]
  rfl

/-- Type arguments are read from the end in one way only. -/
theorem suffixFree_typeArguments : SuffixFree typeArguments.language := by
  rw [language_typeArguments]
  refine .mul ?_ (.singleton _)
  refine .mul_kstar (.singleton _) (suffixFree_one _) (endsIn_singleton rfl) (endsIn_one _) ?_
  rw [Set.disjoint_singleton_left]
  exact Bool.false_ne_true

theorem endsIn_typeArguments : ∀ x ∈ typeArguments.language, EndsIn {0x3e} x := by
  rw [language_typeArguments]
  exact endsIn_mul (endsIn_singleton rfl)

/-! ## Parentheses -/

/-- Parentheses that are matched inside a text: they are as many of both kinds, and no end of the
text has more opening than closing ones. -/
structure Nested (x : List Nat) : Prop where
  balanced : x.count 0x28 = x.count 0x29
  covered : ∀ u v, x = u ++ v → v.count 0x28 ≤ v.count 0x29

theorem nested_nil : Nested [] where
  balanced := rfl
  covered := by
    intro u v h
    rw [(List.append_eq_nil_iff.1 h.symm).2]
    exact Nat.le_refl 0

theorem nested_singleton {c : Nat} (hopen : c ≠ 0x28) (hclose : c ≠ 0x29) : Nested [c] where
  balanced := by simp [hopen, hclose]
  covered := by
    intro u v h
    have hle : v.count 0x28 ≤ [c].count 0x28 := by rw [h, List.count_append]; omega
    simp [hopen] at hle
    omega

theorem Nested.append {x y : List Nat} (hx : Nested x) (hy : Nested y) : Nested (x ++ y) where
  balanced := by rw [List.count_append, List.count_append, hx.balanced, hy.balanced]
  covered := by
    intro u v h
    rcases List.append_eq_append_iff.1 h with ⟨w, -, hv⟩ | ⟨w, hu, rfl⟩
    · exact hy.covered w v hv
    · have hw := hx.covered u w hu
      have hbalanced := hy.balanced
      rw [List.count_append, List.count_append]
      omega

/-- Behind its opening parenthesis, every end of a group lacks one. -/
theorem Nested.count_lt {x u v : List Nat} (hx : Nested x) (h : x ++ [0x29] = u ++ v)
    (hv : v ≠ []) : v.count 0x28 < v.count 0x29 := by
  rcases List.append_eq_append_iff.1 h with ⟨w, -, hw⟩ | ⟨w, hu, rfl⟩
  · obtain ⟨rfl, rfl⟩ : w = [] ∧ v = [0x29] := by
      cases w with
      | nil => exact ⟨rfl, hw.symm⟩
      | cons c w =>
        have hnil := (List.append_eq_nil_iff.1 (List.cons.inj hw).2.symm).2
        exact absurd hnil hv
    decide
  · have hw := hx.covered u w hu
    rw [List.count_append, List.count_append]
    simp
    omega

theorem Nested.group {x : List Nat} (hx : Nested x) : Nested (0x28 :: (x ++ [0x29])) where
  balanced := by
    have hbalanced := hx.balanced
    simp
    omega
  covered := by
    intro u v h
    cases u with
    | nil =>
      have hbalanced := hx.balanced
      rw [List.nil_append] at h
      rw [← h]
      simp
      omega
    | cons c u =>
      by_cases hv : v = []
      · rw [hv]
        exact Nat.le_refl 0
      · exact Nat.le_of_lt (hx.count_lt (List.cons.inj h).2 hv)

theorem nested_of_mem_kstar {L : Language Nat} (h : ∀ x ∈ L, Nested x) :
    ∀ x ∈ L∗, Nested x := by
  intro x hx
  obtain ⟨parts, rfl, hparts⟩ := Language.mem_kstar.1 hx
  clear hx
  induction parts with
  | nil => exact nested_nil
  | cons part parts ih =>
    rw [List.forall_mem_cons] at hparts
    exact (h part hparts.1).append (ih hparts.2)

theorem nested_outside : ∀ x ∈ (one (.notChars "()")).language, Nested x := by
  rintro x ⟨c, hc, rfl⟩
  refine nested_singleton ?_ ?_
  · rintro rfl
    cases hc
  · rintro rfl
    cases hc

/-- Arguments are a group whose parentheses are matched. -/
theorem exists_nested_of_arguments {x : List Nat} (hx : x ∈ arguments.language) :
    ∃ y, Nested y ∧ x = 0x28 :: (y ++ [0x29]) := by
  have hgroup : ∀ {L : Language Nat}, (∀ y ∈ L, Nested y) →
      ∀ x ∈ (literal "(").language * (L * (literal ")").language),
        ∃ y, Nested y ∧ x = 0x28 :: (y ++ [0x29]) := by
    intro L hL x hx
    rw [language_literal, language_literal] at hx
    obtain ⟨_, rfl, _, ⟨y, hy, _, rfl, rfl⟩, rfl⟩ := hx
    exact ⟨y, hL y hy, rfl⟩
  refine hgroup (nested_of_mem_kstar ?_) x hx
  rintro y (hy | hy)
  · exact nested_outside y hy
  · obtain ⟨z, hz, rfl⟩ := hgroup (nested_of_mem_kstar nested_outside) y hy
    exact hz.group

/-- Arguments are read from the end in one way only. -/
theorem suffixFree_arguments : SuffixFree arguments.language := by
  have hproper : ∀ {x y m : List Nat}, x ∈ arguments.language → y ∈ arguments.language →
      x = m ++ y → m = [] := by
    intro x y m hx hy h
    obtain ⟨inner, hinner, rfl⟩ := exists_nested_of_arguments hx
    obtain ⟨other, hother, rfl⟩ := exists_nested_of_arguments hy
    cases m with
    | nil => rfl
    | cons c m =>
      have hlt := hinner.count_lt (List.cons.inj h).2 (by simp)
      rw [hother.group.balanced] at hlt
      exact absurd hlt (Nat.lt_irrefl _)
  intro a b x y hx hy h
  rcases List.append_eq_append_iff.1 h with ⟨m, rfl, hm⟩ | ⟨m, rfl, hm⟩
  · rw [hproper hx hy hm, List.append_nil]
  · rw [hproper hy hx hm, List.append_nil]

theorem endsIn_arguments : ∀ x ∈ arguments.language, EndsIn {0x29} x := by
  intro x hx
  obtain ⟨y, -, rfl⟩ := exists_nested_of_arguments hx
  exact ⟨0x29, rfl, by rw [← List.cons_append, List.getLast?_concat]⟩

/-! ## The stem of an expression -/

/-- The text of a literal. -/
def word (text : String) : List Nat := text.toList.map Char.toNat

/-- A text without the type arguments and the white space at its end, which ends in another
character than those. -/
structure IsStem (stem text : List Nat) : Prop where
  ends : EndsIn (words ∪ {0x2e} ∪ {0x29}) stem
  split : ∃ g ∈ typeArguments.language∗, ∃ s ∈ trailingSpace.language, text = stem ++ g ++ s

theorem disjoint_stem_typeArguments : Disjoint (words ∪ {0x2e} ∪ {0x29}) ({0x3e} : Set Nat) := by
  rw [Set.disjoint_singleton_right]
  rintro ((h | h) | h) <;> cases h

theorem disjoint_stem_spaces : Disjoint (words ∪ {0x2e} ∪ {0x29} ∪ {0x3e}) spaces := by
  rw [Set.disjoint_union_left, Set.disjoint_union_left, Set.disjoint_union_left]
  refine ⟨⟨⟨disjoint_words_spaces, ?_⟩, ?_⟩, ?_⟩ <;>
  · rw [Set.disjoint_singleton_left]
    intro h
    cases h

/-- A text has one stem at most. -/
theorem IsStem.unique {a b text : List Nat} (ha : IsStem a text) (hb : IsStem b text) : a = b := by
  obtain ⟨g, hg, s, hs, rfl⟩ := ha.split
  obtain ⟨g', hg', s', hs', heq⟩ := hb.split
  have hends : ∀ {stem g : List Nat}, EndsIn (words ∪ {0x2e} ∪ {0x29}) stem →
      g ∈ typeArguments.language∗ → ¬ EndsIn spaces (stem ++ g) := by
    intro stem g hstem hg
    have hword := endsIn_mul_kstar (K := {stem}) (k := words ∪ {0x2e} ∪ {0x29})
      (by rintro x rfl; exact hstem) endsIn_typeArguments (stem ++ g)
      (Language.append_mem_mul rfl hg)
    exact hword.not_of_disjoint disjoint_stem_spaces
  have hspaces := append_kstar_cancel (suffixFree_one _) (endsIn_one _) (hends ha.ends hg)
    (hends hb.ends hg') hs hs' heq
  exact append_kstar_cancel suffixFree_typeArguments endsIn_typeArguments
    (ha.ends.not_of_disjoint disjoint_stem_typeArguments)
    (hb.ends.not_of_disjoint disjoint_stem_typeArguments) hg hg' hspaces

theorem IsStem.append {stem text : List Nat} (h : IsStem stem text) (a : List Nat) :
    IsStem (a ++ stem) (a ++ text) := by
  obtain ⟨g, hg, s, hs, rfl⟩ := h.split
  exact ⟨h.ends.append a, g, hg, s, hs, by simp only [List.append_assoc]⟩

/-- Expressions are read from the end in one way only when their stems are. -/
theorem suffixFree_of_isStem {K L : Language Nat} (hK : SuffixFree K)
    (h : ∀ x ∈ L, ∃ stem ∈ K, IsStem stem x) : SuffixFree L := by
  intro a b x y hx hy heq
  obtain ⟨stem, hstem, hx⟩ := h x hx
  obtain ⟨stem', hstem', hy⟩ := h y hy
  exact hK hstem hstem' ((hx.append a).unique (heq ▸ hy.append b))

/-- The members of the styled object. -/
def members : Language Nat :=
  {word "styled."} * (one ⟨false, RuneClass.wordRanges⟩).language∗

/-- Components behind which attributes can be added. -/
def bases : Language Nat := members + {word "styled"} * arguments.language

/-- What stands before the last arguments of a component. -/
def callees : Language Nat :=
  {word "styled"} +
    bases * typeArguments.language∗ * {word ".attrs"} * typeArguments.language∗

/-- The stems of components. -/
def componentStems : Language Nat := members + callees * arguments.language

theorem endsIn_members : ∀ x ∈ members, EndsIn ({0x2e} ∪ words) x :=
  endsIn_mul_kstar (endsIn_singleton rfl) (endsIn_one _)

theorem suffixFree_members : SuffixFree members := by
  refine .mul_kstar (.singleton _) (suffixFree_one _) (endsIn_singleton (c := 0x2e) rfl)
    (endsIn_one _) ?_
  rw [Set.disjoint_singleton_left]
  intro h
  cases h

theorem disjoint_members_arguments : Disjoint ({0x2e} ∪ words) ({0x29} : Set Nat) := by
  rw [Set.disjoint_singleton_right]
  rintro (h | h) <;> cases h

theorem suffixFree_bases : SuffixFree bases :=
  suffixFree_members.add (.mul (.singleton _) suffixFree_arguments) endsIn_members
    (endsIn_mul endsIn_arguments) disjoint_members_arguments

theorem suffixFree_callees : SuffixFree callees := by
  have hbases : ∀ x ∈ bases, EndsIn ({0x2e} ∪ words ∪ {0x29}) x :=
    endsIn_add endsIn_members (endsIn_mul endsIn_arguments)
  have hattributes : SuffixFree (bases * typeArguments.language∗ * {word ".attrs"}) := by
    refine .mul (.mul_kstar suffixFree_bases suffixFree_typeArguments hbases
      endsIn_typeArguments ?_) (.singleton _)
    rw [Set.disjoint_singleton_right]
    rintro ((h | h) | h) <;> cases h
  have hends : ∀ x ∈ bases * typeArguments.language∗ * {word ".attrs"}, EndsIn {0x73} x :=
    endsIn_mul (endsIn_singleton rfl)
  refine .add (.singleton _) (.mul_kstar hattributes suffixFree_typeArguments hends
    endsIn_typeArguments (by simp)) (endsIn_singleton (c := 0x64) rfl)
    (endsIn_mul_kstar hends endsIn_typeArguments) (by simp)

theorem suffixFree_componentStems : SuffixFree componentStems :=
  suffixFree_members.add (suffixFree_callees.mul suffixFree_arguments) endsIn_members
    (endsIn_mul endsIn_arguments) disjoint_members_arguments

theorem endsIn_componentStems :
    ∀ x ∈ componentStems, EndsIn (words ∪ {0x2e} ∪ {0x29}) x := by
  rw [Set.union_comm words]
  exact endsIn_add endsIn_members (endsIn_mul endsIn_arguments)

theorem append_mem_kstar {L : Language Nat} {x y : List Nat} (hx : x ∈ L∗) (hy : y ∈ L∗) :
    x ++ y ∈ L∗ := by
  rw [← kstar_mul_kstar]
  exact Language.append_mem_mul hx hy

theorem mem_members_or_calls {aim : List Nat} (h : aim ∈ target.language) :
    word "styled" ++ aim ∈ members ∨ aim ∈ arguments.language := by
  rcases h with h | h
  · obtain ⟨dot, hdot, name, hname, rfl⟩ := h
    rw [language_literal] at hdot
    cases hdot
    have hle : (plus (one ⟨false, RuneClass.wordRanges⟩)).language ≤
        (one ⟨false, RuneClass.wordRanges⟩).language∗ := mul_kstar_le_kstar
    have hmember : word "styled." ++ name ∈ members := Language.append_mem_mul rfl (hle hname)
    exact .inl hmember
  · exact .inr h

/-- The expression of a component has a stem. -/
theorem exists_stem_of_bareComponent {x : List Nat} (hx : x ∈ bareComponent.language) :
    ∃ stem ∈ componentStems, IsStem stem x := by
  obtain ⟨name, hname, _, ⟨aim, haim, _, ⟨g, hg, _, ⟨more, hmore, _, ⟨g', hg', s, hs, rfl⟩, rfl⟩,
    rfl⟩, rfl⟩, rfl⟩ := hx
  rw [language_literal] at hname
  cases hname
  have hg := language_optional_le typeArguments hg
  have hg' := language_optional_le typeArguments hg'
  have hsplit : ∀ {stem g : List Nat}, stem ∈ componentStems → g ∈ typeArguments.language∗ →
      IsStem stem (stem ++ g ++ s) :=
    fun hstem hg => ⟨endsIn_componentStems _ hstem, _, hg, s, hs, rfl⟩
  rcases hmore with hmore | rfl
  · -- the last arguments are those of the attributes
    obtain ⟨attrs, hattrs, _, ⟨h, hh, args, hargs, rfl⟩, rfl⟩ := hmore
    rw [language_literal] at hattrs
    cases hattrs
    have hh := language_optional_le typeArguments hh
    have hbase : word "styled" ++ aim ∈ bases :=
      (mem_members_or_calls haim).imp_right (Language.append_mem_mul rfl)
    have hstem : word "styled" ++ aim ++ g ++ word ".attrs" ++ h ++ args ∈ componentStems := by
      refine .inr (Language.append_mem_mul (.inr ?_) hargs)
      exact Language.append_mem_mul (Language.append_mem_mul (Language.append_mem_mul hbase hg)
        rfl) hh
    refine ⟨_, hstem, ?_⟩
    have hsplit := hsplit hstem hg'
    simp only [List.append_assoc] at hsplit ⊢
    exact hsplit
  · have hstem : word "styled" ++ aim ∈ componentStems :=
      (mem_members_or_calls haim).imp_right (Language.append_mem_mul (.inl rfl))
    refine ⟨_, hstem, ?_⟩
    have hsplit := hsplit hstem (append_mem_kstar hg hg')
    simp only [List.append_assoc] at hsplit ⊢
    exact hsplit

theorem suffixFree_bareComponent : SuffixFree bareComponent.language :=
  suffixFree_of_isStem suffixFree_componentStems fun _ => exists_stem_of_bareComponent

/-- The names of helpers and the tags that they stand for. -/
def helpers : List (String × Tag) :=
  [("css", styled), ("createGlobalStyle", global), ("injectGlobal", global),
    ("keyframes", keyframes)]

/-- The stem of the expression of a helper is its name. -/
theorem isStem_of_bareHelper {name : String} {tag : Tag} (h : (name, tag) ∈ helpers)
    {x : List Nat} (hx : x ∈ (bareHelper name).language) : IsStem (word name) x := by
  obtain ⟨_, hname, _, ⟨g, hg, s, hs, rfl⟩, rfl⟩ := hx
  rw [language_literal] at hname
  cases hname
  have hends : EndsIn (words ∪ {0x2e} ∪ {0x29}) (word name) := by
    have key : ∀ helper ∈ helpers, ∃ c ∈ (word helper.1).getLast?, RuneClass.isWord c = true := by
      decide +kernel
    obtain ⟨c, hlast, hc⟩ := key _ h
    exact ⟨c, .inl (.inl hc), hlast⟩
  refine ⟨hends, g, language_optional_le typeArguments hg, s, hs, ?_⟩
  rw [List.append_assoc]
  rfl

end Tag
end TemplateLint
