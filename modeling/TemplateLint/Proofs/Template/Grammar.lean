import Mathlib
import TemplateLint.Proofs.Template.Window

/-!
# The grammar of tag expressions

A tag expression is a text of a grammar over characters: a name behind a text that no name or member
access ends, then the parts that belong to it, some of which may be missing, then white space. The
grammar is ambiguous, and a pattern finds a way to read a text by it whenever there is one. So the
tag of a short text is said by the grammar, in which no two helpers end the same text.
-/
namespace TemplateLint
open Computability

/-! ## Patterns and kinds of texts -/

/-- The bytes of a string are those of its characters. -/
theorem Bytes.ofString_eq (text : String) :
    ofString text = text.toList.flatMap String.utf8EncodeChar := by
  conv_lhs => rw [← String.ofList_toList (s := text)]
  rw [ofString, String.toUTF8_eq_toByteArray, String.toByteArray_ofList, List.utf8Encode,
    List.data_toByteArray]

/-- A text of a kind, or nothing. -/
def Optionally (kind : List Char → Prop) (x : List Char) : Prop := kind x ∨ x = []

/-- Any number of texts of a kind, one after the other. -/
inductive Repeatedly (kind : List Char → Prop) : List Char → Prop
  | nil : Repeatedly kind []
  | append {a x : List Char} (first : kind a) (rest : Repeatedly kind x) : Repeatedly kind (a ++ x)

namespace Pattern

theorem codes_ofString (text : String) :
    codes (Bytes.ofString text) = text.toList.map Char.toNat := by
  have hdecode := Rune.decode_chars_append text.toList []
  rw [List.append_nil, Rune.decode_nil, List.append_nil] at hdecode
  rw [codes, Bytes.ofString_eq, hdecode, List.map_map]
  rfl

/-- The pattern matches the texts of the kind and no others. -/
def Reads (p : Pattern) (kind : List Char → Prop) : Prop :=
  ∀ x : List Char, x.map Char.toNat ∈ p.language ↔ kind x

variable {p q : Pattern} {kind other : List Char → Prop} {k : RuneClass} {good : Char → Prop}

theorem Reads.congr (h : Reads p kind) (hkind : ∀ x, kind x ↔ other x) : Reads p other :=
  fun x => (h x).trans (hkind x)

theorem Reads.matchesAll_iff (h : Reads p kind) (hp : p.isPlain = true) (text : String) :
    p.matchesAll (Bytes.ofString text) = true ↔ kind text.toList := by
  rw [Pattern.matchesAll_iff hp, codes_ofString]
  exact h text.toList

theorem reads_literal (text : String) : Reads (literal text) (· = text.toList) := by
  intro x
  rw [language_literal]
  exact List.map_inj_right fun _ _ => Char.toNat_inj.1

theorem Reads.seq (hp : Reads p kind) (hq : Reads q other) :
    Reads (seq p q) fun x => ∃ a b, kind a ∧ other b ∧ x = a ++ b := by
  intro x
  rw [mem_language_seq]
  constructor
  · rintro ⟨_, ha, _, hb, heq⟩
    obtain ⟨a, b, rfl, rfl, rfl⟩ := List.map_eq_append_iff.1 heq.symm
    exact ⟨a, b, (hp a).1 ha, (hq b).1 hb, rfl⟩
  · rintro ⟨a, b, ha, hb, rfl⟩
    exact ⟨_, (hp a).2 ha, _, (hq b).2 hb, List.map_append.symm⟩

theorem Reads.alt (hp : Reads p kind) (hq : Reads q other) :
    Reads (alt p q) fun x => kind x ∨ other x := by
  intro x
  rw [mem_language_alt, hp x, hq x]

theorem Reads.optional (hp : Reads p kind) : Reads (optional p) (Optionally kind) := by
  intro x
  rw [Pattern.optional, mem_language_alt, hp x, mem_language_empty, List.map_eq_nil_iff]
  rfl

theorem Reads.star (hp : Reads p kind) : Reads (star p) (Repeatedly kind) := by
  intro x
  constructor
  · intro hx
    obtain ⟨words, hflat, hwords⟩ := Language.mem_kstar.1 hx
    clear hx
    induction words generalizing x with
    | nil =>
      rw [List.map_eq_nil_iff.1 hflat]
      exact .nil
    | cons w words ih =>
      rw [List.forall_mem_cons] at hwords
      obtain ⟨a, b, rfl, rfl, hb⟩ := List.map_eq_append_iff.1 hflat
      exact .append ((hp a).1 hwords.1) (ih b hb hwords.2)
  · intro hx
    induction hx with
    | nil => exact Language.nil_mem_kstar _
    | @append a x ha _ ih =>
      have hle : p.language * p.language∗ ≤ p.language∗ := mul_kstar_le_kstar
      rw [List.map_append]
      exact hle (Language.append_mem_mul ((hp a).2 ha) ih)

/-- What stands between two literals. -/
theorem Reads.between (hp : Reads p kind) (before behind : String) :
    Reads (sequence [literal before, p, literal behind])
      fun x => ∃ inner, kind inner ∧ x = before.toList ++ inner ++ behind.toList := by
  refine ((reads_literal before).seq (hp.seq (reads_literal behind))).congr fun x => ?_
  constructor
  · rintro ⟨_, _, rfl, ⟨inner, _, hinner, rfl, rfl⟩, rfl⟩
    exact ⟨inner, hinner, (List.append_assoc _ _ _).symm⟩
  · rintro ⟨inner, hinner, rfl⟩
    exact ⟨_, _, rfl, ⟨inner, _, hinner, rfl, rfl⟩, List.append_assoc _ _ _⟩

theorem reads_one (h : ∀ c : Char, k.contains c.toNat = true ↔ good c) :
    Reads (one k) fun x => ∃ c, good c ∧ x = [c] := by
  intro x
  rw [mem_language_one]
  constructor
  · rintro ⟨n, hn, heq⟩
    obtain ⟨c, t, rfl, rfl, ht⟩ := List.map_eq_cons_iff.1 heq
    rw [List.map_eq_nil_iff.1 ht]
    exact ⟨c, (h c).1 hn, rfl⟩
  · rintro ⟨c, hc, rfl⟩
    exact ⟨c.toNat, (h c).2 hc, rfl⟩

/-- Characters of a class, any number of them. -/
theorem reads_star_one (h : ∀ c : Char, k.contains c.toNat = true ↔ good c) :
    Reads (star (one k)) fun x => ∀ c ∈ x, good c := by
  intro x
  constructor
  · intro hx c hc
    obtain ⟨words, hflat, hwords⟩ := Language.mem_kstar.1 hx
    have hmem : c.toNat ∈ words.flatten := hflat ▸ List.mem_map_of_mem hc
    obtain ⟨w, hw, hcw⟩ := List.mem_flatten.1 hmem
    obtain ⟨n, hn, rfl⟩ := hwords w hw
    rw [← List.mem_singleton.1 hcw] at hn
    exact (h c).1 hn
  · intro hx
    refine mem_kstar_one fun n hn => ?_
    obtain ⟨c, hc, rfl⟩ := List.mem_map.1 hn
    exact (h c).2 (hx c hc)

end Pattern

namespace Tag
open Pattern

/-! ## The grammar -/

/-- The characters of names. -/
def IsNameChar (c : Char) : Prop :=
  '0' ≤ c ∧ c ≤ '9' ∨ 'A' ≤ c ∧ c ≤ 'Z' ∨ 'a' ≤ c ∧ c ≤ 'z' ∨ c = '_'

/-- A text that does not end in a name or a member access. -/
def IsBoundary (x : List Char) : Prop :=
  ∀ c ∈ x.getLast?, c ≠ '.' ∧ c ≠ '$' ∧ ¬ IsNameChar c

/-- One thing between the parentheses of a call: a character other than a parenthesis, or a group of
such characters between parentheses. -/
def IsParameter (x : List Char) : Prop :=
  (∃ c, (c ≠ '(' ∧ c ≠ ')') ∧ x = [c]) ∨
    ∃ inner, (∀ c ∈ inner, c ≠ '(' ∧ c ≠ ')') ∧ x = '(' :: inner ++ [')']

/-- A call, without what is called. -/
def IsCall (x : List Char) : Prop :=
  ∃ inner, Repeatedly IsParameter inner ∧ x = '(' :: inner ++ [')']

/-- Type arguments, not nested. -/
def IsGeneric (x : List Char) : Prop :=
  ∃ inner, (∀ c ∈ inner, c ≠ '<' ∧ c ≠ '>') ∧ x = '<' :: inner ++ ['>']

/-- A member access or a call. -/
def IsAccess (x : List Char) : Prop :=
  (∃ name, name ≠ [] ∧ (∀ c ∈ name, IsNameChar c) ∧ x = '.' :: name) ∨ IsCall x

/-- A call that adds attributes. -/
def IsAttributes (x : List Char) : Prop :=
  ∃ g call, Optionally IsGeneric g ∧ IsCall call ∧ x = ".attrs".toList ++ g ++ call

/-- White space, possibly none. -/
def IsBlank (x : List Char) : Prop :=
  ∀ c ∈ x, c = '\t' ∨ c = '\n' ∨ c = '\x0c' ∨ c = '\r' ∨ c = ' '

/-- A text that ends in a component. -/
def IsComponent (x : List Char) : Prop :=
  ∃ u a g t g' s, IsBoundary u ∧ IsAccess a ∧ Optionally IsGeneric g ∧ Optionally IsAttributes t ∧
    Optionally IsGeneric g' ∧ IsBlank s ∧ x = u ++ "styled".toList ++ a ++ g ++ t ++ g' ++ s

/-- A text that ends in a helper of a given name. -/
def IsHelper (name : String) (x : List Char) : Prop :=
  ∃ u g s, IsBoundary u ∧ Optionally IsGeneric g ∧ IsBlank s ∧ x = u ++ name.toList ++ g ++ s

/-! ## The patterns read the grammar -/

theorem isNameChar_iff (c : Char) :
    RuneClass.contains ⟨false, RuneClass.wordRanges⟩ c.toNat = true ↔ IsNameChar c := by
  have hval : ∀ d : Char, d ≤ c ↔ d.toNat ≤ c.toNat := fun d => UInt32.le_iff_toNat_le
  have hval' : ∀ d : Char, c ≤ d ↔ c.toNat ≤ d.toNat := fun d => UInt32.le_iff_toNat_le
  have hscore : c = '_' ↔ c.toNat = 0x5f := by rw [← Char.toNat_inj]; rfl
  simp only [IsNameChar, hval, hval', hscore, RuneClass.contains, RuneClass.wordRanges,
    List.any_cons, List.any_nil, Bool.or_false, Bool.bne_false, Bool.or_eq_true, Bool.and_eq_true,
    decide_eq_true_eq, Char.reduceToNat]
  omega

theorem isBlankChar_iff (c : Char) :
    RuneClass.contains ⟨false, RuneClass.spaceRanges⟩ c.toNat = true ↔
      c = '\t' ∨ c = '\n' ∨ c = '\x0c' ∨ c = '\r' ∨ c = ' ' := by
  simp only [← Char.toNat_inj, RuneClass.contains, RuneClass.spaceRanges, List.any_cons,
    List.any_nil, Bool.or_false, Bool.bne_false, Bool.or_eq_true, Bool.and_eq_true,
    decide_eq_true_eq, Char.reduceToNat]
  omega

/-- The class of everything but some characters. -/
theorem contains_notChars (text : String) (c : Char) :
    (RuneClass.notChars text).contains c.toNat = true ↔ c ∉ text.toList := by
  have hsame : ∀ d : Char, d.toNat ≤ c.toNat ∧ c.toNat ≤ d.toNat ↔ c = d := by
    intro d
    rw [← Char.toNat_inj]
    omega
  simp only [RuneClass.contains, RuneClass.notChars, RuneClass.ofChars, List.any_map,
    Function.comp_def, Bool.bne_true, Bool.not_eq_true', List.any_eq_false, Bool.and_eq_true,
    decide_eq_true_eq, hsame]
  constructor
  · intro h hc
    exact h c hc rfl
  · rintro h d hd rfl
    exact h hd

theorem isPlainChar_iff (c : Char) :
    (RuneClass.notChars "()").contains c.toNat = true ↔ c ≠ '(' ∧ c ≠ ')' := by
  simp [contains_notChars]

theorem isInnerChar_iff (c : Char) :
    (RuneClass.notChars "<>").contains c.toNat = true ↔ c ≠ '<' ∧ c ≠ '>' := by
  simp [contains_notChars]

theorem charCode_mem_nameCodes (c : Char) :
    c.toNat ∈ nameCodes ↔ c = '.' ∨ c = '$' ∨ IsNameChar c := by
  rw [mem_nameCodes, RuneClass.isWord, isNameChar_iff, ← Char.toNat_inj, ← Char.toNat_inj]
  simp only [Char.reduceToNat]
  tauto

theorem reads_beforeName : Reads beforeName IsBoundary := by
  intro x
  rw [mem_beforeName]
  unfold EndsIn IsBoundary
  simp only [List.getLast?_map, Option.map_eq_some_iff, Option.mem_def]
  constructor
  · intro h c hc
    have hcode := fun hmem => h ⟨c.toNat, hmem, c, hc, rfl⟩
    rw [charCode_mem_nameCodes] at hcode
    tauto
  · rintro h ⟨_, hmem, c, hc, rfl⟩
    have hc := h c hc
    rw [charCode_mem_nameCodes] at hmem
    tauto

theorem reads_trailingSpace : Reads trailingSpace IsBlank := reads_star_one isBlankChar_iff

theorem reads_typeArguments : Reads typeArguments IsGeneric :=
  (reads_star_one isInnerChar_iff).between "<" ">"

theorem reads_arguments : Reads arguments IsCall :=
  ((reads_one isPlainChar_iff).alt
    ((reads_star_one isPlainChar_iff).between "(" ")")).star.between "(" ")"

theorem reads_target : Reads target IsAccess := by
  have hname := (reads_one isNameChar_iff).seq (reads_star_one isNameChar_iff)
  refine (((reads_literal ".").seq hname).congr fun x => ?_).alt reads_arguments
  constructor
  · rintro ⟨_, _, rfl, ⟨_, rest, ⟨c, hc, rfl⟩, hrest, rfl⟩, rfl⟩
    exact ⟨c :: rest, List.cons_ne_nil c rest, List.forall_mem_cons.2 ⟨hc, hrest⟩, rfl⟩
  · rintro ⟨name, hne, hname, rfl⟩
    obtain ⟨c, rest, rfl⟩ := List.exists_cons_of_ne_nil hne
    rw [List.forall_mem_cons] at hname
    exact ⟨_, _, rfl, ⟨[c], rest, ⟨c, hname.1, rfl⟩, hname.2, rfl⟩, rfl⟩

theorem reads_attributes : Reads attributes IsAttributes := by
  refine ((reads_literal ".attrs").seq (reads_typeArguments.optional.seq reads_arguments)).congr
    fun x => ?_
  constructor
  · rintro ⟨_, _, rfl, ⟨g, call, hg, hcall, rfl⟩, rfl⟩
    exact ⟨g, call, hg, hcall, (List.append_assoc _ _ _).symm⟩
  · rintro ⟨g, call, hg, hcall, rfl⟩
    exact ⟨_, _, rfl, ⟨g, call, hg, hcall, rfl⟩, List.append_assoc _ _ _⟩

theorem reads_component : Reads component IsComponent := by
  refine (reads_beforeName.seq ((reads_literal "styled").seq (reads_target.seq
    (reads_typeArguments.optional.seq (reads_attributes.optional.seq
      (reads_typeArguments.optional.seq reads_trailingSpace)))))).congr fun x => ?_
  constructor
  · rintro ⟨u, _, hu, ⟨_, _, rfl, ⟨a, _, ha, ⟨g, _, hg, ⟨t, _, ht, ⟨g', s, hg', hs, rfl⟩, rfl⟩,
      rfl⟩, rfl⟩, rfl⟩, rfl⟩
    exact ⟨u, a, g, t, g', s, hu, ha, hg, ht, hg', hs, by simp only [List.append_assoc]⟩
  · rintro ⟨u, a, g, t, g', s, hu, ha, hg, ht, hg', hs, rfl⟩
    exact ⟨u, _, hu, ⟨_, _, rfl, ⟨a, _, ha, ⟨g, _, hg, ⟨t, _, ht, ⟨g', s, hg', hs, rfl⟩, rfl⟩,
      rfl⟩, rfl⟩, rfl⟩, by simp only [List.append_assoc]⟩

theorem reads_helper (name : String) : Reads (helper name) (IsHelper name) := by
  refine (reads_beforeName.seq ((reads_literal name).seq
    (reads_typeArguments.optional.seq reads_trailingSpace))).congr fun x => ?_
  constructor
  · rintro ⟨u, _, hu, ⟨_, _, rfl, ⟨g, s, hg, hs, rfl⟩, rfl⟩, rfl⟩
    exact ⟨u, g, s, hu, hg, hs, by simp only [List.append_assoc]⟩
  · rintro ⟨u, g, s, hu, hg, hs, rfl⟩
    exact ⟨u, _, hu, ⟨_, _, rfl, ⟨g, s, hg, hs, rfl⟩, rfl⟩, by simp only [List.append_assoc]⟩

/-! ## Tags by the grammar -/

variable {name name' : String} {tag tag' : Tag}

theorem isPlain_helper (h : (name, tag) ∈ helpers) : (helper name).isPlain = true := by
  have key : ∀ h ∈ helpers, (helper h.1).isPlain = true := by decide +kernel
  exact key _ h

theorem isComponent_iff (text : String) :
    component.matchesAll (Bytes.ofString text) = true ↔ IsComponent text.toList :=
  reads_component.matchesAll_iff (by decide +kernel) text

theorem isHelper_iff (h : (name, tag) ∈ helpers) (text : String) :
    (helper name).matchesAll (Bytes.ofString text) = true ↔ IsHelper name text.toList :=
  (reads_helper name).matchesAll_iff (isPlain_helper h) text

/-- At most one helper ends a text. -/
theorem isHelper_unique (h : (name, tag) ∈ helpers) (h' : (name', tag') ∈ helpers) {text : String}
    (hname : IsHelper name text.toList) (hname' : IsHelper name' text.toList) : name = name' := by
  rw [← isHelper_iff h, matchesAll_helper_iff h] at hname
  rw [← isHelper_iff h', matchesAll_helper_iff h'] at hname'
  obtain ⟨a, x, heq, -, hx⟩ := hname
  obtain ⟨b, y, heq', -, hy⟩ := hname'
  exact (Prod.mk.inj (codes_eq_of_helpers h h' hx hy (heq.symm.trans heq')).2).1

/-- A helper that stands alone ends no component. -/
theorem not_isComponent (h : (name, tag) ∈ helpers) {text : String}
    (hname : IsHelper name text.toList) : ¬ IsComponent text.toList := by
  rw [← isHelper_iff h] at hname
  rw [← isComponent_iff, not_matchesAll_component h hname]
  exact Bool.false_ne_true

/-- The tag of a short text, by the grammar. -/
theorem before?_eq_some_iff {text : String} (hlength : (Bytes.ofString text).length ≤ window) :
    before? (Bytes.ofString text) = some tag ↔
      IsComponent text.toList ∧ tag = styled ∨
        ∃ name, (name, tag) ∈ helpers ∧ IsHelper name text.toList := by
  have hwhole : before? (Bytes.ofString text) = ofText? (Bytes.ofString text) := by
    rw [before?, Nat.sub_eq_zero_of_le hlength, List.drop_zero]
  rw [hwhole, ofText?_eq_some_iff, isComponent_iff]
  refine or_congr_right (exists_congr fun name => and_congr_right fun h => ?_)
  exact isHelper_iff h text

/-- The tag of a helper says that the text ends in it, and in no component. -/
theorem before?_eq_helper_iff {text : String} (hlength : (Bytes.ofString text).length ≤ window)
    (htag : tag ≠ styled) :
    before? (Bytes.ofString text) = some tag ↔
      ¬ IsComponent text.toList ∧ ∃ name, (name, tag) ∈ helpers ∧ IsHelper name text.toList := by
  rw [before?_eq_some_iff hlength]
  constructor
  · rintro (⟨-, heq⟩ | ⟨name, h, hname⟩)
    · exact absurd heq htag
    · exact ⟨not_isComponent h hname, name, h, hname⟩
  · rintro ⟨-, hhelper⟩
    exact .inr hhelper

theorem before?_eq_none_iff {text : String} (hlength : (Bytes.ofString text).length ≤ window) :
    before? (Bytes.ofString text) = none ↔
      ¬ IsComponent text.toList ∧ ∀ h ∈ helpers, ¬ IsHelper h.1 text.toList := by
  rw [Option.eq_none_iff_forall_ne_some]
  simp only [ne_eq, before?_eq_some_iff hlength]
  constructor
  · intro hnone
    refine ⟨fun hcomponent => hnone styled (.inl ⟨hcomponent, rfl⟩), fun h hmem hhelper => ?_⟩
    exact hnone h.2 (.inr ⟨h.1, hmem, hhelper⟩)
  · rintro ⟨hcomponent, hnone⟩ tag (⟨h, -⟩ | ⟨name, hmem, hhelper⟩)
    · exact hcomponent h
    · exact hnone _ hmem hhelper

/-- The names of the helpers. -/
def helperNames : List String := ["css", "createGlobalStyle", "injectGlobal", "keyframes"]

/-- **Tags are recognized exactly by their grammar.** A string is a text in valid UTF-8. When its bytes
fit into the window, it has the tag of components if it ends in a component or in the helper for
rules, the tag of another helper if it ends in that, and no tag otherwise. No text ends in two
helpers. -/
theorem before?_exact_for_grammar (text : String) :
    ((Bytes.ofString text).length ≤ window →
      (before? (Bytes.ofString text) = some styled ↔
        IsComponent text.toList ∨ IsHelper "css" text.toList) ∧
      (before? (Bytes.ofString text) = some global ↔
        ¬ IsComponent text.toList ∧
          (IsHelper "createGlobalStyle" text.toList ∨ IsHelper "injectGlobal" text.toList)) ∧
      (before? (Bytes.ofString text) = some keyframes ↔
        ¬ IsComponent text.toList ∧ IsHelper "keyframes" text.toList) ∧
      (before? (Bytes.ofString text) = none ↔
        ¬ IsComponent text.toList ∧ ∀ name ∈ helperNames, ¬ IsHelper name text.toList)) ∧
    ∀ name ∈ helperNames, ∀ name' ∈ helperNames,
      IsHelper name text.toList → IsHelper name' text.toList → name = name' := by
  constructor
  · intro hlength
    refine ⟨?_, ?_, ?_, ?_⟩
    · rw [before?_eq_some_iff hlength]
      simp [helpers]
    · rw [before?_eq_helper_iff hlength (by decide)]
      simp [helpers]
    · rw [before?_eq_helper_iff hlength (by decide)]
      simp [helpers]
    · rw [before?_eq_none_iff hlength]
      simp [helpers, helperNames]
  · have htag : ∀ name ∈ helperNames, ∃ tag, (name, tag) ∈ helpers := by
      simp [helperNames, helpers]
    intro name hmem name' hmem'
    obtain ⟨tag, h⟩ := htag name hmem
    obtain ⟨tag', h'⟩ := htag name' hmem'
    exact isHelper_unique h h'

/-- A member that is called like the call that adds attributes, with that call and type arguments on
both sides of it. -/
def stackedText : String := "const A = styled.attrs<T>.attrs(p => (p))<U>\n"

/-- A helper behind a name that is not part of it. -/
def fadingText : String := "const css = keyframes<T> "

theorem stackedText_exact_for_grammar :
    (Bytes.ofString stackedText).length ≤ window ∧ IsComponent stackedText.toList ∧
      before? (Bytes.ofString stackedText) = some styled ∧
      (Bytes.ofString fadingText).length ≤ window ∧ IsHelper "keyframes" fadingText.toList ∧
      ∀ name ∈ helperNames, IsHelper name fadingText.toList → name = "keyframes" := by
  have hlength : (Bytes.ofString stackedText).length ≤ window := by decide +kernel
  have hcomponent : IsComponent stackedText.toList :=
    (isComponent_iff stackedText).1 (by decide +kernel)
  have hshort : (Bytes.ofString fadingText).length ≤ window := by decide +kernel
  have hbefore : before? (Bytes.ofString fadingText) = some keyframes := by decide +kernel
  have hfading := before?_exact_for_grammar fadingText
  have hhelper := ((hfading.1 hshort).2.2.1.1 hbefore).2
  refine ⟨hlength, hcomponent, ?_, hshort, hhelper, fun name hmem hname => ?_⟩
  · exact ((before?_exact_for_grammar stackedText).1 hlength).1.2 (.inl hcomponent)
  · exact hfading.2 name hmem "keyframes" (by decide) hname hhelper

end Tag
end TemplateLint
