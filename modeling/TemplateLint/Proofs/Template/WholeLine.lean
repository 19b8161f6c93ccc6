import Mathlib
import TemplateLint.Proofs.Template.Prefix
import TemplateLint.Proofs.Template.Rows

/-!
# Lines of whole declarations

A line with nothing but interpolations, white space and semicolons is meant to be recorded, with a
whole declaration in the place of every interpolation. The choice is made at each interpolation
anew, from the text before it and from a look at the rest of the line.

The two sides see white space differently: before an interpolation only spaces and tabs count,
behind it every character of white space does. So the first interpolation of a line decides
whether the line is recorded, and the others follow it unless other white space lies between. This
is the only way in which a line holds both kinds of placeholders.
-/
namespace TemplateLint
open Bytes Rune

/-! ## White space at the ends of a text -/

namespace Blank

/-- Runes without the white space at their ends. -/
def strip (rs : List Rune) : List Rune :=
  ((rs.dropWhile isBlankRune).reverse.dropWhile isBlankRune).reverse

variable {rs : List Rune} {r : Rune}

theorem isBlankRune_or_mem_strip (h : r ∈ rs) : isBlankRune r = true ∨ r ∈ strip rs := by
  have hsplit : ∀ {qs : List Rune}, r ∈ qs →
      isBlankRune r = true ∨ r ∈ qs.dropWhile isBlankRune := by
    intro qs hq
    rw [← List.takeWhile_append_dropWhile (p := isBlankRune) (l := qs), List.mem_append] at hq
    exact hq.imp_left List.mem_takeWhile_imp
  rcases hsplit h with hblank | hr
  · exact .inl hblank
  · rw [strip, List.mem_reverse]
    exact hsplit (List.mem_reverse.2 hr)

/-- What is left of runes is left of all the runes that end with them. -/
theorem mem_strip_append (qs : List Rune) (h : r ∈ strip rs) : r ∈ strip (qs ++ rs) := by
  induction qs with
  | nil => exact h
  | cons q qs ih =>
    rw [List.cons_append]
    by_cases hq : isBlankRune q = true
    · rwa [strip, List.dropWhile_cons_of_pos hq, ← strip]
    · -- the end of the runes decides alone what is dropped there
      rw [strip, List.mem_reverse] at ih ⊢
      rw [List.dropWhile_cons_of_neg hq]
      have hsuffix : (qs ++ rs).dropWhile isBlankRune <:+ q :: (qs ++ rs) :=
        (List.dropWhile_suffix _).trans (List.suffix_cons q _)
      obtain ⟨front, hfront⟩ := hsuffix
      rw [← hfront, List.reverse_append, List.dropWhile_append, if_neg]
      · exact List.mem_append_left _ ih
      · simpa using List.ne_nil_of_mem ih

end Blank

namespace Placeholder

/-- Whether the literal text on the rest of a line lets a placeholder stand for a whole
declaration. -/
def fits (rest : Bytes) : Bool := (Bytes.trim isFiller (Bytes.trimBlank rest)).isEmpty

/-- The text of a whole declaration without its semicolon. -/
def mixin (n : Nat) : Bytes :=
  Bytes.ofString "-styled-mixin" ++ Bytes.ofNat n ++ Bytes.ofString ": dummyValue"

variable {n : Nat} {before s t : Bytes} {blank : Bool} {p : Part} {ps rest : List Part}

theorem choose_snd (n : Nat) (before : Bytes) (blank : Bool) (ps : List Part) :
    (choose n before blank ps).2 = (blank && fits (restOfLine ps)) := by
  unfold choose
  dsimp only
  split
  · next h => exact h.symm
  · next h =>
    have hfits : (blank && fits (restOfLine ps)) = false := by simpa [fits] using h
    rw [hfits]
    split
    · rfl
    · split <;> rfl

theorem choose_fst_of_whole (h : (choose n before blank ps).2 = true) :
    (choose n before blank ps).1 = mixin n ++
      if (Bytes.trimBlank (textAfter ps)).head? == some Byte.semicolon then []
      else [Byte.semicolon] := by
  rw [choose_snd] at h
  rw [choose]
  exact congrArg Prod.fst (if_pos h)

theorem fits_iff :
    fits s = true ↔ ∀ r ∈ Blank.strip (decode s), ∀ b ∈ r.encode, isFiller b = true := by
  rw [fits, isEmpty_trim, List.all_eq_true]
  change (∀ b ∈ encodeAll (Blank.strip (decode s)), isFiller b = true) ↔ _
  rw [encodeAll]
  constructor
  · intro h r hr b hb
    exact h b (List.mem_flatMap.2 ⟨r, hr, hb⟩)
  · intro h b hb
    obtain ⟨r, hr, hb⟩ := List.mem_flatMap.1 hb
    exact h r hr b hb

theorem fits_of_append (hs : isUtf8 s) (h : fits (s ++ t) = true) : fits t = true := by
  rw [fits_iff] at h ⊢
  rw [decode_append hs] at h
  intro r hr
  exact h r (Blank.mem_strip_append _ hr)

theorem restOfLine_interpolation (h : p.interpolated = true) :
    restOfLine (p :: rest) = restOfLine rest := by
  simp [restOfLine, h]

theorem restOfLine_literal (h : p.interpolated = false) :
    restOfLine (p :: rest) = p.text ++ restOfLine rest := by
  simp [restOfLine, h]

theorem fits_tail (hp : isUtf8 p.text) (h : fits (restOfLine (p :: rest)) = true) :
    fits (restOfLine rest) = true := by
  cases hi : p.interpolated with
  | true => rwa [restOfLine_interpolation hi] at h
  | false =>
    rw [restOfLine_literal hi] at h
    exact fits_of_append hp h

theorem ascii_of_isFiller {b : UInt8} (h : isFiller b = true) : b < 0x80 := by
  rw [isFiller, Bool.or_eq_true, beq_iff_eq] at h
  rcases h with rfl | h
  · decide
  · exact Glyph.ascii_of_isIndent h

/-- A filling byte is a semicolon or white space. -/
theorem ofByte_of_isFiller {b : UInt8} (h : isFiller b = true) :
    Blank.isBlankRune (ofByte b) = true ∨ ofByte b = ofByte Byte.semicolon := by
  rw [isFiller, Bool.or_eq_true, beq_iff_eq] at h
  rcases h with rfl | h
  · exact .inr rfl
  · exact .inl (Glyph.isBlankRune_of_isIndent h)

/-- A character is the byte that its encoding starts with, if that is an ASCII byte. -/
theorem char_eq_ofByte {c : Char} {b : UInt8} (hb : b < 0x80)
    (h : (Rune.char c).encode.head? = some b) : Rune.char c = ofByte b := by
  obtain ⟨behind, hbehind⟩ := List.head?_eq_some_iff.1 h
  have hdecode := Glyph.decode_encodeChar c
  rw [← encode, hbehind, decode_ascii_cons hb] at hdecode
  exact (List.cons.inj hdecode).1.symm

/-- Text that fits is made of white space and semicolons. -/
theorem of_mem_of_fits (hs : isUtf8 s) (h : fits s = true) {r : Rune} (hr : r ∈ decode s) :
    Blank.isBlankRune r = true ∨ r = ofByte Byte.semicolon := by
  rcases Blank.isBlankRune_or_mem_strip hr with hblank | hmem
  · exact .inl hblank
  · obtain ⟨c, rfl⟩ := exists_char_of_mem_decode hs hr
    obtain ⟨b, behind, hbehind⟩ :=
      List.exists_cons_of_ne_nil (String.utf8EncodeChar_ne_nil (c := c))
    have hfiller := fits_iff.1 h _ hmem b (by simp [encode, hbehind])
    rw [char_eq_ofByte (ascii_of_isFiller hfiller) (by simp [encode, hbehind])]
    exact ofByte_of_isFiller hfiller

theorem of_mem_of_isFiller (h : ∀ b ∈ s, isFiller b = true) {r : Rune} (hr : r ∈ decode s) :
    Blank.isBlankRune r = true ∨ r = ofByte Byte.semicolon := by
  rw [decode_of_ascii fun b hb => ascii_of_isFiller (h b hb)] at hr
  obtain ⟨b, hb, rfl⟩ := List.mem_map.1 hr
  exact ofByte_of_isFiller (h b hb)

theorem mem_decode_restOfLine (hvalid : ∀ p ∈ ps, isUtf8 p.text = true) (hp : p ∈ ps)
    (hi : p.interpolated = false) {r : Rune} (hr : r ∈ decode p.text) :
    r ∈ decode (restOfLine ps) := by
  induction ps with
  | nil => cases hp
  | cons q rest ih =>
    rw [List.forall_mem_cons] at hvalid
    cases hq : q.interpolated with
    | true =>
      rw [restOfLine_interpolation hq]
      rcases List.mem_cons.1 hp with rfl | hp
      · rw [hi] at hq
        cases hq
      · exact ih hvalid.2 hp
    | false =>
      rw [restOfLine_literal hq, decode_append hvalid.1, List.mem_append]
      rcases List.mem_cons.1 hp with rfl | hp
      · exact .inl hr
      · exact .inr (ih hvalid.2 hp)

/-- A text whose first character is a semicolon has it behind white space only. -/
theorem exists_semicolon (hs : isUtf8 s) (h : (trimBlank s).head? = some Byte.semicolon) :
    ∃ gap more, s = gap ++ Byte.semicolon :: more ∧ isBlank gap = true := by
  have hchars : ∀ r ∈ decode s, ∃ c, r = Rune.char c := fun r hr => exists_char_of_mem_decode hs hr
  change (encodeAll (Blank.strip (decode s))).head? = _ at h
  have hprefix : Blank.strip (decode s) <+: (decode s).dropWhile Blank.isBlankRune := by
    rw [Blank.strip, ← List.reverse_suffix, List.reverse_reverse]
    exact List.dropWhile_suffix _
  have hsplit := List.takeWhile_append_dropWhile (p := Blank.isBlankRune) (l := decode s)
  cases hstrip : Blank.strip (decode s) with
  | nil =>
    rw [hstrip] at h
    cases h
  | cons r core =>
    rw [hstrip] at h hprefix
    obtain ⟨behind, hbehind⟩ := hprefix
    rw [← hbehind, List.cons_append] at hsplit
    obtain ⟨c, rfl⟩ := hchars r (by rw [← hsplit]; simp)
    obtain ⟨b, tail, htail⟩ :=
      List.exists_cons_of_ne_nil (String.utf8EncodeChar_ne_nil (c := c))
    obtain rfl : b = Byte.semicolon := by simpa [encode, htail] using h
    have hc : Rune.char c = ofByte Byte.semicolon :=
      char_eq_ofByte (by decide) (by simp [encode, htail])
    refine ⟨encodeAll ((decode s).takeWhile Blank.isBlankRune), encodeAll (core ++ behind),
      ?_, ?_⟩
    · have hencode := congrArg encodeAll hsplit
      rw [encodeAll_decode, encodeAll_append, encodeAll_cons, hc] at hencode
      exact hencode.symm
    · rw [isBlank, decode_encodeAll fun r hr => hchars r ((List.takeWhile_subset _) hr),
        List.all_eq_true]
      intro r hr
      exact List.mem_takeWhile_imp hr

end Placeholder

namespace Spelling
open Placeholder
variable {n : Nat} {before : Bytes} {blank : Bool} {p : Part} {ps rest : List Part}

/-! ## One kind of placeholders or both -/

/-- A literal with other bytes than spaces, tabs and semicolons. -/
def Breaks (p : Part) : Prop := p.interpolated = false ∧ ∃ b ∈ p.text, isFiller b = false

/-- An interpolation stands behind a literal with other bytes than filler. -/
def IsCut (ps : List Part) : Prop :=
  ∃ p q, [p, q].Sublist ps ∧ Breaks p ∧ q.interpolated = true

/-- Two interpolations have a literal between them with other bytes than filler. -/
def IsTorn (ps : List Part) : Prop :=
  ∃ o p q, [o, p, q].Sublist ps ∧ o.interpolated = true ∧ Breaks p ∧ q.interpolated = true

theorem isCut_cons :
    IsCut (p :: rest) ↔ Breaks p ∧ rest.any (·.interpolated) = true ∨ IsCut rest := by
  rw [List.any_eq_true]
  constructor
  · rintro ⟨a, b, hsub, ha, hb⟩
    rcases List.sublist_cons_iff.1 hsub with hsub | ⟨_, heq, hsub⟩
    · exact .inr ⟨a, b, hsub, ha, hb⟩
    · cases heq
      exact .inl ⟨ha, b, List.singleton_sublist.1 hsub, hb⟩
  · rintro (⟨hp, b, hmem, hb⟩ | ⟨a, b, hsub, ha, hb⟩)
    · exact ⟨p, b, (List.singleton_sublist.2 hmem).cons_cons p, hp, hb⟩
    · exact ⟨a, b, hsub.cons p, ha, hb⟩

theorem isTorn_cons :
    IsTorn (p :: rest) ↔ p.interpolated = true ∧ IsCut rest ∨ IsTorn rest := by
  constructor
  · rintro ⟨a, b, c, hsub, ha, hb, hc⟩
    rcases List.sublist_cons_iff.1 hsub with hsub | ⟨_, heq, hsub⟩
    · exact .inr ⟨a, b, c, hsub, ha, hb, hc⟩
    · cases heq
      exact .inl ⟨ha, b, c, hsub, hb, hc⟩
  · rintro (⟨hp, b, c, hsub, hb, hc⟩ | ⟨a, b, c, hsub, ha, hb, hc⟩)
    · exact ⟨p, b, c, hsub.cons_cons p, hp, hb, hc⟩
    · exact ⟨a, b, c, hsub.cons p, ha, hb, hc⟩

theorem IsTorn.isCut (h : IsTorn ps) : IsCut ps := by
  obtain ⟨a, b, c, hsub, -, hb, hc⟩ := h
  exact ⟨b, c, (List.sublist_cons_self a [b, c]).trans hsub, hb, hc⟩

theorem isEmpty_trim_iff_not_breaks (h : p.interpolated = false) :
    (Bytes.trim isFiller p.text).isEmpty = true ↔ ¬ Breaks p := by
  rw [isEmpty_trim, List.all_eq_true]
  simp [Breaks, h]

/-- All interpolations of a row are replaced by whole declarations. -/
def IsWhole (row : List Spelling) : Prop :=
  ∀ s ∈ row, s.piece.interpolated = true → s.isDeclaration = true

theorem isWhole_cons {s : Spelling} {row : List Spelling} :
    IsWhole (s :: row) ↔ (s.piece.interpolated = true → s.isDeclaration = true) ∧ IsWhole row :=
  List.forall_mem_cons

theorem isWhole_append {row others : List Spelling} :
    IsWhole (row ++ others) ↔ IsWhole row ∧ IsWhole others :=
  List.forall_mem_append

/-- Behind text that is not filler nothing stands for a whole declaration. -/
theorem isDeclaration_of_not_blank (n : Nat) (before : Bytes) (ps : List Part) :
    ∀ s ∈ ofPieces n before false ps, s.isDeclaration = false := by
  induction ps generalizing n before with
  | nil => simp [ofPieces]
  | cons p rest ih =>
    cases h : p.interpolated with
    | true =>
      rw [ofPieces_interpolation h, choose_snd]
      refine List.forall_mem_cons.2 ⟨?_, ih _ _⟩
      rw [isDeclaration_choose h, choose_snd, Bool.false_and]
    | false =>
      rw [ofPieces_literal h]
      exact List.forall_mem_cons.2 ⟨isDeclaration_literal h _, ih _ _⟩

theorem any_isDeclaration_of_not_blank (n : Nat) (before : Bytes) (ps : List Part) :
    (ofPieces n before false ps).any isDeclaration = false := by
  simpa using isDeclaration_of_not_blank n before ps

theorem isWhole_of_not_blank (n : Nat) (before : Bytes) (ps : List Part) :
    IsWhole (ofPieces n before false ps) ↔ ps.any (·.interpolated) = false := by
  have hany : ps.any (·.interpolated) =
      (ofPieces n before false ps).any fun s => s.piece.interpolated := by
    conv_lhs => rw [← pieces_ofPieces n before false ps, pieces, List.any_map]
    rfl
  rw [IsWhole, hany, List.any_eq_false]
  constructor
  · intro h s hs hi
    have hdecl := h s hs hi
    rw [isDeclaration_of_not_blank n before ps s hs] at hdecl
    cases hdecl
  · intro h s hs hi
    exact absurd hi (h s hs)

/-- Where the rest of the line fits, an interpolation is replaced by a whole declaration unless a
literal cuts it off. -/
theorem isWhole_iff_not_isCut (hvalid : ∀ p ∈ ps, isUtf8 p.text = true)
    (hfits : fits (restOfLine ps) = true) :
    IsWhole (ofPieces n before true ps) ↔ ¬ IsCut ps := by
  induction ps generalizing n before with
  | nil => simp [ofPieces, IsWhole, IsCut]
  | cons p rest ih =>
    rw [List.forall_mem_cons] at hvalid
    have hrest := fits_tail hvalid.1 hfits
    rw [isCut_cons]
    cases h : p.interpolated with
    | true =>
      have hchoose : (choose n before true rest).2 = true := by rw [choose_snd, hrest]; rfl
      rw [ofPieces_interpolation h, hchoose, isWhole_cons, Bool.true_and, ih hvalid.2 hrest]
      simp [isDeclaration_choose h, hchoose, Breaks, h]
    | false =>
      rw [ofPieces_literal h, isWhole_cons, Bool.true_and]
      by_cases hbreaks : Breaks p
      · have hblank : (Bytes.trim isFiller p.text).isEmpty = false := by
          rw [Bool.eq_false_iff, ne_eq, isEmpty_trim_iff_not_breaks h]
          exact not_not_intro hbreaks
        -- nothing behind it is replaced by a declaration, so no interpolation may follow
        rw [hblank, isWhole_of_not_blank]
        have hcut : IsCut rest → rest.any (·.interpolated) = true := by
          rintro ⟨a, b, hsub, -, hb⟩
          exact List.any_eq_true.2 ⟨b, hsub.subset (by simp), hb⟩
        cases hany : rest.any (·.interpolated) with
        | true => simp [hbreaks]
        | false =>
          rw [hany] at hcut
          simpa [h] using hcut
      · rw [(isEmpty_trim_iff_not_breaks h).2 hbreaks, ih hvalid.2 hrest]
        simp [h, hbreaks]

/-- A literal is spelled as it is. -/
def ofLiteral (p : Part) : Spelling := ⟨p, p.text⟩

/-- In a row with a whole declaration the first interpolation is replaced by one: no literal
before it breaks the line, and what is behind it fits. -/
theorem exists_first_of_any (h : (ofPieces n before true ps).any isDeclaration = true) :
    ∃ first p rest before', ps = first ++ p :: rest ∧ p.interpolated = true ∧
      (∀ q ∈ first, q.interpolated = false ∧ ¬ Breaks q) ∧ fits (restOfLine rest) = true ∧
      ofPieces n before true ps = first.map ofLiteral ++
        ⟨p, (choose n before' true rest).1⟩ ::
          ofPieces (n + 1) (before' ++ (choose n before' true rest).1) true rest := by
  induction ps generalizing before with
  | nil => cases h
  | cons p rest ih =>
    cases hi : p.interpolated with
    | true =>
      have hfits : fits (restOfLine rest) = true := by
        by_contra hfits
        have hchoose : (choose n before true rest).2 = false := by
          rw [choose_snd, Bool.true_and]
          simpa using hfits
        rw [ofPieces_interpolation hi, List.any_cons, isDeclaration_choose hi, hchoose,
          Bool.and_false, any_isDeclaration_of_not_blank] at h
        cases h
      refine ⟨[], p, rest, before, rfl, hi, by simp, hfits, ?_⟩
      have hchoose : (choose n before true rest).2 = true := by rw [choose_snd, hfits]; rfl
      rw [ofPieces_interpolation hi, hchoose, Bool.true_and]
      rfl
    | false =>
      rw [ofPieces_literal hi, List.any_cons, isDeclaration_literal hi, Bool.false_or,
        Bool.true_and] at h
      by_cases hblank : (Bytes.trim isFiller p.text).isEmpty = true
      · rw [hblank] at h
        obtain ⟨first, q, behind, before', rfl, hq, hfirst, hfits, heq⟩ := ih h
        refine ⟨p :: first, q, behind, before', rfl, hq, ?_, hfits, ?_⟩
        · exact List.forall_mem_cons.2 ⟨⟨hi, (isEmpty_trim_iff_not_breaks hi).1 hblank⟩, hfirst⟩
        · rw [ofPieces_literal hi, hblank, Bool.true_and, heq]
          rfl
      · rw [Bool.not_eq_true] at hblank
        rw [hblank, any_isDeclaration_of_not_blank] at h
        cases h

theorem isTorn_append_cons {first : List Part} (hfirst : ∀ q ∈ first, q.interpolated = false)
    (hp : p.interpolated = true) : IsTorn (first ++ p :: rest) ↔ IsCut rest := by
  induction first with
  | nil =>
    rw [List.nil_append, isTorn_cons]
    simpa [hp] using IsTorn.isCut
  | cons q first ih =>
    rw [List.forall_mem_cons] at hfirst
    rw [List.cons_append, isTorn_cons, ih hfirst.2]
    simp [hfirst.1]

/-- A row with a whole declaration has a whole declaration for every interpolation unless a
literal tears it. -/
theorem isWhole_iff_not_isTorn (hvalid : ∀ p ∈ ps, isUtf8 p.text = true)
    (h : (ofPieces n before true ps).any isDeclaration = true) :
    IsWhole (ofPieces n before true ps) ↔ ¬ IsTorn ps := by
  obtain ⟨first, p, rest, before', rfl, hp, hfirst, hfits, heq⟩ := exists_first_of_any h
  have hrest : ∀ q ∈ rest, isUtf8 q.text = true := fun q hq => hvalid q (by simp [hq])
  have hliterals : IsWhole (first.map ofLiteral) := by
    intro s hs hi
    obtain ⟨q, hq, rfl⟩ := List.mem_map.1 hs
    exact absurd hi (by simp [ofLiteral, (hfirst q hq).1])
  have hdecl : isDeclaration ⟨p, (choose n before' true rest).1⟩ = true := by
    rw [isDeclaration_choose hp, choose_snd, hfits]
    rfl
  rw [heq, isTorn_append_cons (fun q hq => (hfirst q hq).1) hp, isWhole_append, isWhole_cons,
    isWhole_iff_not_isCut hrest hfits]
  simp [hliterals, hdecl]

/-- The literals of a row with a whole declaration hold white space and semicolons only. -/
theorem of_mem_of_any (hvalid : ∀ p ∈ ps, isUtf8 p.text = true)
    (h : (ofPieces n before true ps).any isDeclaration = true) (hp : p ∈ ps)
    (hi : p.interpolated = false) {r : Rune} (hr : r ∈ decode p.text) :
    Blank.isBlankRune r = true ∨ r = ofByte Byte.semicolon := by
  obtain ⟨first, q, rest, before', rfl, hq, hfirst, hfits, -⟩ := exists_first_of_any h
  have hrest : ∀ q ∈ rest, isUtf8 q.text = true := fun q hq => hvalid q (by simp [hq])
  rcases List.mem_append.1 hp with hp | hp
  · have hfiller := (isEmpty_trim_iff_not_breaks hi).2 (hfirst p hp).2
    rw [isEmpty_trim, List.all_eq_true] at hfiller
    exact of_mem_of_isFiller hfiller hr
  · rcases List.mem_cons.1 hp with rfl | hp
    · rw [hi] at hq
      cases hq
    · have hvalidRest : isUtf8 (restOfLine rest) = true :=
        isUtf8_flatMap fun q hq => hrest q (List.mem_filter.1 hq).1
      exact of_mem_of_fits hvalidRest hfits (mem_decode_restOfLine hrest hp hi hr)

/-! ## The texts of placeholders -/

/-- Every interpolation is replaced by a whole declaration, with a semicolon behind it on the same
line. -/
def AllDeclared (row : List Spelling) : Prop :=
  ∀ first s behind, row = first ++ s :: behind → s.piece.interpolated = true →
    ∃ n gap more, s.text ++ spell behind = mixin n ++ gap ++ Byte.semicolon :: more ∧
      isBlank gap = true

/-- Every interpolation is replaced by a selector or a value. -/
def NoneDeclared (row : List Spelling) : Prop :=
  ∀ s ∈ row, s.piece.interpolated = true →
    ∃ n, s.text = Bytes.ofString ".sc-selector" ++ Bytes.ofNat n ∨
      s.text = Bytes.ofString "$dummyValue" ++ Bytes.ofNat n

/-- The rest of a row is the row of the rest of its pieces. -/
theorem exists_ofPieces_cons {first behind : List Spelling} {s : Spelling}
    (h : ofPieces n before blank ps = first ++ s :: behind) :
    ∃ m before' blank' rest, s :: behind = ofPieces m before' blank' (s.piece :: rest) ∧
      ∃ front, ps = front ++ s.piece :: rest := by
  induction first generalizing n before blank ps with
  | nil =>
    cases ps with
    | nil => cases h
    | cons p rest =>
      have hp : p :: rest = s.piece :: pieces behind := by
        rw [← pieces_ofPieces n before blank (p :: rest), h]
        rfl
      obtain ⟨rfl, rfl⟩ := List.cons.inj hp
      exact ⟨n, before, blank, _, h.symm, [], rfl⟩
  | cons t first ih =>
    cases ps with
    | nil => cases h
    | cons p rest =>
      cases hi : p.interpolated with
      | true =>
        rw [ofPieces_interpolation hi] at h
        obtain ⟨m, before', blank', behind, heq, front, rfl⟩ := ih (List.cons.inj h).2
        exact ⟨m, before', blank', behind, heq, p :: front, rfl⟩
      | false =>
        rw [ofPieces_literal hi] at h
        obtain ⟨m, before', blank', behind, heq, front, rfl⟩ := ih (List.cons.inj h).2
        exact ⟨m, before', blank', behind, heq, p :: front, rfl⟩

/-- A whole declaration is closed by a semicolon. -/
theorem exists_semicolon_of_whole (hvalid : ∀ q ∈ rest, isUtf8 q.text = true)
    (h : (choose n before blank rest).2 = true) (m : Nat) (before' : Bytes) (blank' : Bool) :
    ∃ gap more, (choose n before blank rest).1 ++ spell (ofPieces m before' blank' rest) =
      mixin n ++ gap ++ Byte.semicolon :: more ∧ isBlank gap = true := by
  rw [choose_fst_of_whole h]
  split
  · next hclosed =>
    cases rest with
    | nil => cases hclosed
    | cons q rest =>
      rw [textAfter] at hclosed
      cases hi : q.interpolated with
      | true =>
        rw [if_pos hi] at hclosed
        cases hclosed
      | false =>
        rw [if_neg (by simp [hi]), beq_iff_eq] at hclosed
        obtain ⟨gap, more, htext, hgap⟩ := exists_semicolon (hvalid q (by simp)) hclosed
        refine ⟨gap, more ++ spell (ofPieces m (before' ++ q.text)
          (blank' && (Bytes.trim isFiller q.text).isEmpty) rest), ?_, hgap⟩
        rw [ofPieces_literal hi, spell_cons]
        simp only [htext, List.append_nil, List.append_assoc, List.cons_append]
  · exact ⟨[], spell (ofPieces m before' blank' rest), by simp, rfl⟩

theorem allDeclared_iff_isWhole (hvalid : ∀ p ∈ ps, isUtf8 p.text = true) :
    AllDeclared (ofPieces n before blank ps) ↔ IsWhole (ofPieces n before blank ps) := by
  constructor
  · intro h s hs hi
    obtain ⟨first, behind, heq⟩ := List.append_of_mem hs
    obtain ⟨m, gap, more, htext, -⟩ := h first s behind heq hi
    obtain ⟨k, ht⟩ := (isFaithful_of_mem_ofPieces ps s hs).placeholder hi
    obtain ⟨a, -, ha, -⟩ := ends_of_isText ht
    have hhead := congrArg List.head? htext
    rw [List.head?_append, ha, mixin] at hhead
    rw [isDeclaration, hi, ha, Bool.true_and, beq_iff_eq]
    exact hhead
  · intro h first s behind heq hi
    have hdecl := h s (by rw [heq]; simp) hi
    obtain ⟨m, before', blank', rest, hs, front, rfl⟩ := exists_ofPieces_cons heq
    rw [ofPieces_interpolation hi] at hs
    obtain ⟨hs, hbehind⟩ := List.cons.inj hs
    rw [hs, isDeclaration_choose hi] at hdecl
    have hrest : ∀ q ∈ rest, isUtf8 q.text = true := fun q hq => hvalid q (by simp [hq])
    obtain ⟨gap, more, htext, hgap⟩ := exists_semicolon_of_whole hrest hdecl (m + 1)
      (before' ++ (choose m before' blank' rest).1)
      (blank' && (choose m before' blank' rest).2)
    refine ⟨m, gap, more, ?_, hgap⟩
    rw [hbehind, ← htext, hs]

theorem eq_of_isText_of_head {text : Bytes} (ht : IsText n text)
    (h : (text.head? == some Byte.hyphen) = false) :
    text = Bytes.ofString ".sc-selector" ++ Bytes.ofNat n ∨
      text = Bytes.ofString "$dummyValue" ++ Bytes.ofNat n := by
  cases ht with
  | declaration => cases h
  | closed => cases h
  | selector => exact .inl rfl
  | value => exact .inr rfl

theorem noneDeclared_of_any {row : List Spelling} (hfaithful : ∀ s ∈ row, s.IsFaithful)
    (h : row.any isDeclaration = false) : NoneDeclared row := by
  intro s hs hi
  have hdecl : s.isDeclaration = false := by simpa using List.any_eq_false.1 h s hs
  obtain ⟨n, ht⟩ := (hfaithful s hs).placeholder hi
  rw [isDeclaration, hi, Bool.true_and] at hdecl
  exact ⟨n, eq_of_isText_of_head ht hdecl⟩

/-- **All or none.** A row has one kind of placeholders, and says which, unless it is torn. -/
theorem allDeclared_or_noneDeclared_iff {row : List Spelling} (h : IsRow row) :
    (AllDeclared row ∧ row.any isDeclaration = true ∨
        NoneDeclared row ∧ row.any isDeclaration = false) ↔
      ¬ (row.any isDeclaration = true ∧ IsTorn (pieces row)) := by
  obtain ⟨n, ps, rfl, hvalid⟩ := h
  rw [pieces_ofPieces]
  cases hany : (ofPieces n [] true ps).any isDeclaration with
  | true => simp [allDeclared_iff_isWhole hvalid, isWhole_iff_not_isTorn hvalid hany]
  | false => simp [noneDeclared_of_any (isFaithful_of_mem_ofPieces ps) hany]

end Spelling

namespace Fragment
open Spelling FragmentLine

/-- Rows for the lines of a fragment. -/
structure Shows (f : Fragment) (templates : List Template) (rows : List (List Spelling)) :
    Prop where
  /-- The lines of the templates with an interpolation have rows, in their order. -/
  complete : shownLines rows = templates.flatMap Template.interpolatedLines
  /-- Literals stand for themselves, interpolations are replaced by placeholders. -/
  faithful : ∀ row ∈ rows, ∀ s ∈ row, s.IsFaithful
  /-- A line is its row, spaces and tabs at the ends apart. -/
  text : ∀ (i : Nat) (row : List Spelling), rows[i]? = some row →
    (pieces row).any (·.interpolated) = true →
    ∃ text, (Bytes.lines f.css)[i]? = some text ∧ Resembles text row
  /-- Recorded lines have rows. -/
  recorded : ∀ n ∈ f.placeholderLines, ∃ i : Nat, n = i + 1 ∧ i < rows.length

theorem mem_placeholderLines_iff {ls : List FragmentLine} {n : Int} :
    n ∈ (ofLines ls).placeholderLines ↔
      ∃ (i : Nat) (line : FragmentLine), n = i + 1 ∧ ls[i]? = some line ∧
        line.placeholder = true := by
  simp only [ofLines, List.mem_filterMap, Prod.exists, mem_numbered, Option.ite_none_right_eq_some,
    Option.some.injEq]
  constructor
  · rintro ⟨m, line, ⟨i, rfl, hline⟩, hplaceholder, rfl⟩
    exact ⟨i, line, rfl, hline, hplaceholder⟩
  · rintro ⟨i, line, rfl, hline, hplaceholder⟩
    exact ⟨i + 1, line, ⟨i, rfl, hline⟩, hplaceholder, rfl⟩

section
variable {ls : List FragmentLine} {rows : List (List Spelling)}

theorem exists_line_of_row (h : List.Forall₂ FragmentLine.Shows ls rows) {i : Nat}
    {row : List Spelling} (hrow : rows[i]? = some row) :
    ∃ line, ls[i]? = some line ∧ line.Shows row := by
  induction h generalizing i with
  | nil => cases hrow
  | cons hl _ ih =>
    cases i with
    | zero =>
      cases hrow
      exact ⟨_, rfl, hl⟩
    | succ i => exact ih hrow

/-- A line is recorded when its row has a whole declaration. -/
theorem mem_placeholderLines_of_row (h : List.Forall₂ FragmentLine.Shows ls rows) {i : Nat}
    {row : List Spelling} (hrow : rows[i]? = some row) :
    (i + 1 : Int) ∈ (ofLines ls).placeholderLines ↔ row.any isDeclaration = true := by
  obtain ⟨line, hline, hshows⟩ := exists_line_of_row h hrow
  rw [mem_placeholderLines_iff, ← hshows.placeholder]
  constructor
  · rintro ⟨j, other, hj, hother, hplaceholder⟩
    obtain rfl : i = j := by omega
    rw [hline] at hother
    cases hother
    exact hplaceholder
  · intro hplaceholder
    exact ⟨i, line, rfl, hline, hplaceholder⟩

theorem shows_ofLines (hsingle : ∀ l ∈ ls, Byte.newline ∉ l.text) {templates : List Template}
    (h : List.Forall₂ FragmentLine.Shows ls rows)
    (hcomplete : shownLines rows = templates.flatMap Template.interpolatedLines) :
    (ofLines ls).Shows templates rows where
  complete := hcomplete
  faithful := by
    intro row hrow
    obtain ⟨i, hi⟩ := List.mem_iff_getElem?.1 hrow
    obtain ⟨line, -, hshows⟩ := exists_line_of_row h hi
    obtain ⟨n, ps, rfl, -⟩ := hshows.isRow
    exact isFaithful_of_mem_ofPieces ps
  text := by
    intro i row hrow hi
    obtain ⟨line, hline, hshows⟩ := exists_line_of_row h hrow
    exact ⟨line.text, getElem?_lines_css hsingle hline, hshows.text hi⟩
  recorded := by
    intro n hn
    obtain ⟨i, line, rfl, hline, -⟩ := mem_placeholderLines_iff.1 hn
    refine ⟨i, rfl, ?_⟩
    rw [← h.length_eq]
    exact (List.getElem?_eq_some_iff.1 hline).1

end

/-- **Placeholders for whole declarations are all or none.** The lines of the templates of a source
have rows in its fragment. On such a line every interpolation is replaced by a whole declaration
and the line is recorded, or none is and the line is not recorded, exactly unless the line is
recorded and torn. A recorded line holds no literal text but white space and semicolons. -/
theorem declarations_all_or_none_iff {source id moduleName : Bytes} {f : Fragment}
    (h : extract source id moduleName = .ok f)
    (himports : ModuleImport.imports source moduleName = true) :
    ∃ templates rows, Scan.templates source = .ok templates ∧ f.Shows templates rows ∧
      ∀ (i : Nat) (row : List Spelling), rows[i]? = some row →
        ((AllDeclared row ∧ (i + 1 : Int) ∈ f.placeholderLines ∨
            NoneDeclared row ∧ (i + 1 : Int) ∉ f.placeholderLines) ↔
          ¬ ((i + 1 : Int) ∈ f.placeholderLines ∧ IsTorn (pieces row))) ∧
        ((i + 1 : Int) ∈ f.placeholderLines → ∀ p ∈ pieces row, p.interpolated = false →
          ∀ r ∈ decode p.text, Blank.isBlankRune r = true ∨ r = ofByte Byte.semicolon) := by
  have hv := isUtf8_of_extract h
  obtain ⟨templates, htemplates, rfl⟩ := eq_ofLines_of_extract h himports
  have hlies : ∀ t ∈ templates, t.LiesIn source :=
    fun t ht => Scan.liesIn_of_mem_templates htemplates ht
  obtain ⟨rows, hrows, hcomplete⟩ := exists_rows_linesOf hv hlies {}
  obtain ⟨blocks, hplaced, -⟩ := exists_blocks_linesOf hv hlies {}
  refine ⟨templates, rows, htemplates,
    shows_ofLines (single_of_placed hplaced) hrows hcomplete, ?_⟩
  intro i row hrow
  obtain ⟨line, -, hshows⟩ := exists_line_of_row hrows hrow
  rw [mem_placeholderLines_of_row hrows hrow, Bool.not_eq_true]
  refine ⟨allDeclared_or_noneDeclared_iff hshows.isRow, ?_⟩
  intro hany p hp hi r hr
  obtain ⟨n, ps, rfl, hvalid⟩ := hshows.isRow
  rw [pieces_ofPieces] at hp
  exact of_mem_of_any hvalid hany hp hi hr

/-- A component with two interpolations on a line and a text between them, above a declaration with
an interpolation. -/
def mixinsSample (between : Bytes) : Bytes :=
  Bytes.ofString "import styled from 'styled-components'\nconst A = styled.div`\n  $\x7ba\x7d" ++
    between ++ Bytes.ofString "$\x7bb\x7d\n  color: $\x7bc\x7d;\n`\n"

/-- Behind a semicolon and a tab the second interpolation follows the first. -/
theorem mixinsSample_all_or_none :
    ∃ f, extract (mixinsSample [Byte.semicolon, Byte.tab]) [] defaultModule = .ok f ∧
      ModuleImport.imports (mixinsSample [Byte.semicolon, Byte.tab]) defaultModule = true ∧
      f.placeholderLines = [2] ∧
      Bytes.lines f.css = [Bytes.ofString ".selector0 \x7b",
        Bytes.ofString "  -styled-mixin0: dummyValue;\t-styled-mixin1: dummyValue;",
        Bytes.ofString "  color: $dummyValue2;", Bytes.ofString "\x7d", []] ∧
      ∃ templates rows,
        Scan.templates (mixinsSample [Byte.semicolon, Byte.tab]) = .ok templates ∧
        f.Shows templates rows ∧
        ∀ (i : Nat) (row : List Spelling), rows[i]? = some row →
          ((AllDeclared row ∧ (i + 1 : Int) ∈ f.placeholderLines ∨
              NoneDeclared row ∧ (i + 1 : Int) ∉ f.placeholderLines) ↔
            ¬ ((i + 1 : Int) ∈ f.placeholderLines ∧ IsTorn (pieces row))) ∧
          ((i + 1 : Int) ∈ f.placeholderLines → ∀ p ∈ pieces row, p.interpolated = false →
            ∀ r ∈ decode p.text,
              Blank.isBlankRune r = true ∨ r = ofByte Byte.semicolon) := by
  have himports : ModuleImport.imports (mixinsSample [Byte.semicolon, Byte.tab]) defaultModule =
      true := by decide +kernel
  have h : extract (mixinsSample [Byte.semicolon, Byte.tab]) [] defaultModule = .ok {
      css := Bytes.ofString ".selector0 \x7b\n  -styled-mixin0: dummyValue;\t" ++
        Bytes.ofString "-styled-mixin1: dummyValue;\n  color: $dummyValue2;\n\x7d\n"
      placeholderLines := [2]
      origins := [(1, 2), (2, 3), (3, 4), (4, 5)]
      anchors := [(1, [⟨12, 21⟩]), (2, [⟨1, 1⟩, ⟨3, 3⟩, ⟨29, 7⟩, ⟨31, 9⟩]),
        (3, [⟨1, 1⟩, ⟨10, 10⟩, ⟨22, 14⟩]), (4, [⟨1, 1⟩])] } := by
    decide +kernel
  exact ⟨_, h, himports, rfl, by decide +kernel, declarations_all_or_none_iff h himports⟩

/-- Behind a form feed it does not: the recorded line holds a placeholder for a value. -/
theorem mixinsSample_torn :
    ∃ f, extract (mixinsSample [0x0c]) [] defaultModule = .ok f ∧ f.placeholderLines = [2] ∧
      (Bytes.lines f.css)[1]? =
        some (Bytes.ofString "  -styled-mixin0: dummyValue;\x0c$dummyValue1") := by
  have h : extract (mixinsSample [0x0c]) [] defaultModule = .ok {
      css := Bytes.ofString ".selector0 \x7b\n  -styled-mixin0: dummyValue;\x0c" ++
        Bytes.ofString "$dummyValue1\n  color: $dummyValue2;\n\x7d\n"
      placeholderLines := [2]
      origins := [(1, 2), (2, 3), (3, 4), (4, 5)]
      anchors := [(1, [⟨12, 21⟩]), (2, [⟨1, 1⟩, ⟨3, 3⟩, ⟨30, 7⟩, ⟨31, 8⟩]),
        (3, [⟨1, 1⟩, ⟨10, 10⟩, ⟨22, 14⟩]), (4, [⟨1, 1⟩])] } := by
    decide +kernel
  exact ⟨_, h, rfl, by decide +kernel⟩

end Fragment
end TemplateLint
