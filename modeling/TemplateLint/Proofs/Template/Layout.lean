import Mathlib
import TemplateLint.Proofs.Template.Trace

/-!
# The lines of a block

A template becomes a block: its void first and last lines are dropped, the white space that its
lines have in common is replaced by the indentation of the block, and white space at line ends is
cut off. Every line keeps a trace through this, and the traces together hold every character and
every interpolation of the template exactly once.
-/
namespace TemplateLint
open Bytes Rune

namespace Glyph
variable {glyphs : List Glyph}

/-- A rune of white space from a literal. -/
def IsGap (g : Glyph) : Prop := ∃ r o, g = .kept r o ∧ Blank.isBlankRune r = true

/-- White space says nothing. -/
theorem flatMap_items_of_isGap (h : ∀ g ∈ glyphs, g.IsGap) : glyphs.flatMap items = [] := by
  rw [List.flatMap_eq_nil_iff]
  intro g hg
  obtain ⟨r, o, rfl, hr⟩ := h g hg
  exact Item.ofRunes_cons_of_isBlank hr o []

theorem newlines_of_isGap (h : ∀ g ∈ glyphs, g.IsGap) : newlines glyphs = 0 := by
  rw [newlines, List.sum_eq_zero_iff]
  intro n hn
  obtain ⟨g, hg, rfl⟩ := List.mem_map.1 hn
  obtain ⟨r, o, rfl, -⟩ := h g hg
  rfl

/-! ## White space at the ends of a line -/

theorem ascii_of_isIndent {b : UInt8} (h : Byte.isIndent b = true) : b < 0x80 := by
  simp only [Byte.isIndent, Bool.or_eq_true, beq_iff_eq] at h
  rcases h with rfl | rfl <;> decide

theorem isBlankRune_of_isIndent {b : UInt8} (h : Byte.isIndent b = true) :
    Blank.isBlankRune (.char (Char.ofNat b.toNat)) = true := by
  simp only [Byte.isIndent, Bool.or_eq_true, beq_iff_eq] at h
  rcases h with rfl | rfl <;> decide

theorem eq_nil_of_decode {s : Bytes} (h : decode s = []) : s = [] := by
  rw [← encodeAll_decode s, h]
  rfl

theorem decode_encodeChar (c : Char) : decode (String.utf8EncodeChar c) = [.char c] := by
  simpa using decode_encodeChar_append c []

/-- A glyph of a template's own text that starts with white space is that white space. -/
theorem isGap_of_head {g : Glyph} (hg : g.IsBody) {b : UInt8} {s : Bytes} (h : g.text = b :: s)
    (hb : Byte.isIndent b = true) : g.IsGap ∧ s = [] := by
  cases g with
  | kept r o =>
    obtain ⟨c, rfl⟩ := hg
    have hd := decode_encodeChar c
    rw [text, encode] at h
    rw [h, decode_ascii_cons (ascii_of_isIndent hb), List.cons.injEq] at hd
    refine ⟨⟨_, o, rfl, ?_⟩, eq_nil_of_decode hd.2⟩
    rw [← hd.1]
    exact isBlankRune_of_isIndent hb
  | placeholder p t =>
    obtain ⟨n, ht⟩ := hg
    obtain ⟨a, -, hhead, -, ha, -⟩ := Placeholder.ends_of_isText ht
    rw [text] at h
    rw [h, List.head?_cons, Option.some.injEq] at hhead
    subst hhead
    rcases ha with rfl | rfl | rfl <;> exact absurd hb (by decide)
  | indent t => exact hg.elim
  | brace t o => exact hg.elim

/-- A glyph of a template's own text that ends in white space is that white space. -/
theorem isGap_of_last {g : Glyph} (hg : g.IsBody) {b : UInt8} {s : Bytes} (h : g.text = s ++ [b])
    (hb : Byte.isIndent b = true) : g.IsGap ∧ s = [] := by
  cases g with
  | kept r o =>
    have hv := isUtf8_of_isBody hg
    obtain ⟨c, rfl⟩ := hg
    have hd := decode_encodeChar c
    have hs : isUtf8 s := isUtf8_of_append_cons (h ▸ hv) (isTail_of_ascii (ascii_of_isIndent hb))
    rw [text, encode] at h
    rw [h, decode_append hs, decode_ascii_cons (ascii_of_isIndent hb), decode_nil,
      List.append_eq_singleton_iff] at hd
    rcases hd with ⟨hnil, hc⟩ | ⟨-, hc⟩
    · refine ⟨⟨_, o, rfl, ?_⟩, eq_nil_of_decode hnil⟩
      rw [← (List.cons.inj hc).1]
      exact isBlankRune_of_isIndent hb
    · cases hc
  | placeholder p t =>
    obtain ⟨n, ht⟩ := hg
    obtain ⟨-, l, -, hlast, -, hl⟩ := Placeholder.ends_of_isText ht
    rw [text] at h
    rw [h, List.getLast?_append, List.getLast?_singleton, Option.some_or,
      Option.some.injEq] at hlast
    rw [← hlast, hb] at hl
    cases hl
  | indent t => exact hg.elim
  | brace t o => exact hg.elim

theorem text_ne_nil {g : Glyph} (hg : g.IsBody) : g.text ≠ [] := by
  cases g with
  | kept r o =>
    obtain ⟨c, rfl⟩ := hg
    exact String.utf8EncodeChar_ne_nil
  | placeholder p t =>
    obtain ⟨n, ht⟩ := hg
    obtain ⟨a, -, hhead, -⟩ := Placeholder.ends_of_isText ht
    intro h
    rw [text] at h
    rw [h] at hhead
    cases hhead
  | indent t => exact hg.elim
  | brace t o => exact hg.elim

/-- Spaces and tabs that start a line can be cut off between two glyphs. -/
theorem exists_gaps_of_le_lead (hbody : ∀ g ∈ glyphs, g.IsBody) {n : Nat}
    (hn : n ≤ ((spell glyphs).takeWhile Byte.isIndent).length) :
    ∃ gaps rest, glyphs = gaps ++ rest ∧ (∀ g ∈ gaps, g.IsGap) ∧
      spell rest = (spell glyphs).drop n ∧ runeCount (spell gaps) = n := by
  induction n generalizing glyphs with
  | zero => exact ⟨[], glyphs, rfl, by simp, rfl, rfl⟩
  | succ n ih =>
    cases glyphs with
    | nil => cases hn
    | cons g gs =>
      rw [List.forall_mem_cons] at hbody
      obtain ⟨b, s, hg⟩ := List.exists_cons_of_ne_nil (text_ne_nil hbody.1)
      rw [spell_cons, hg, List.cons_append, List.takeWhile_cons] at hn
      split at hn
      case isFalse => cases hn
      case isTrue hb =>
        obtain ⟨hgap, rfl⟩ := isGap_of_head hbody.1 hg hb
        obtain ⟨gaps, rest, rfl, hgaps, hrest, hcount⟩ := ih hbody.2 (Nat.le_of_succ_le_succ hn)
        refine ⟨g :: gaps, rest, rfl, List.forall_mem_cons.2 ⟨hgap, hgaps⟩, ?_, ?_⟩
        · rw [hrest, spell_cons, hg]
          rfl
        · rw [spell_cons, runeCount_append (isUtf8_of_isBody hbody.1), hcount, hg, Nat.add_comm,
            runeCount, decode_ascii_cons (ascii_of_isIndent hb)]
          rfl

theorem trimRight_append_of_neg {p : UInt8 → Bool} {b : UInt8} (h : p b = false) (s : Bytes) :
    trimRight p (s ++ [b]) = s ++ [b] := by
  simp [trimRight, h]

theorem trimRight_append_of_pos {p : UInt8 → Bool} {b : UInt8} (h : p b = true) (s : Bytes) :
    trimRight p (s ++ [b]) = trimRight p s := by
  simp [trimRight, h]

/-- Spaces and tabs that end a line can be cut off between two glyphs. -/
theorem exists_gaps_of_trimRight (hbody : ∀ g ∈ glyphs, g.IsBody) :
    ∃ rest gaps, glyphs = rest ++ gaps ∧ (∀ g ∈ gaps, g.IsGap) ∧
      spell rest = trimRight Byte.isIndent (spell glyphs) := by
  induction glyphs using List.reverseRecOn with
  | nil => exact ⟨[], [], rfl, by simp, rfl⟩
  | append_singleton gs g ih =>
    rw [List.forall_mem_append, List.forall_mem_singleton] at hbody
    obtain ⟨s, b, hg⟩ := (List.eq_nil_or_concat g.text).resolve_left (text_ne_nil hbody.2)
    rw [List.concat_eq_append] at hg
    cases hb : Byte.isIndent b with
    | true =>
      obtain ⟨hgap, rfl⟩ := isGap_of_last hbody.2 hg hb
      obtain ⟨rest, gaps, rfl, hgaps, hrest⟩ := ih hbody.1
      refine ⟨rest, gaps ++ [g], List.append_assoc _ _ _, ?_, ?_⟩
      · exact List.forall_mem_append.2 ⟨hgaps, List.forall_mem_singleton.2 hgap⟩
      · rw [hrest, spell_append _ [g], spell_cons, hg, List.nil_append, spell_nil, List.append_nil,
          trimRight_append_of_pos hb]
    | false =>
      refine ⟨gs ++ [g], [], (List.append_nil _).symm, by simp, ?_⟩
      rw [spell_append, spell_cons, hg, spell_nil, List.append_nil, ← List.append_assoc,
        trimRight_append_of_neg hb]

/-- A blank line holds nothing but white space from literals. -/
theorem isGap_of_isBlank (hbody : ∀ g ∈ glyphs, g.IsBody) (hblank : isBlank (spell glyphs)) :
    ∀ g ∈ glyphs, g.IsGap := by
  induction glyphs with
  | nil => simp
  | cons g gs ih =>
    rw [List.forall_mem_cons] at hbody
    rw [isBlank, spell_cons, decode_append (isUtf8_of_isBody hbody.1), List.all_append,
      Bool.and_eq_true] at hblank
    refine List.forall_mem_cons.2 ⟨?_, ih hbody.2 hblank.2⟩
    cases g with
    | kept r o =>
      obtain ⟨c, rfl⟩ := hbody.1
      have hc := hblank.1
      rw [text, encode, decode_encodeChar, List.all_cons, Bool.and_eq_true] at hc
      exact ⟨_, o, rfl, hc.1⟩
    | placeholder p t =>
      obtain ⟨n, ht⟩ := hbody.1
      obtain ⟨a, -, hhead, -, ha, -⟩ := Placeholder.ends_of_isText ht
      obtain ⟨s, rfl⟩ := List.head?_eq_some_iff.1 hhead
      have hc := hblank.1
      rw [text, decode_ascii_cons (by rcases ha with rfl | rfl | rfl <;> decide), List.all_cons,
        Bool.and_eq_true] at hc
      rcases ha with rfl | rfl | rfl <;> exact absurd hc.1 (by decide)
    | indent t => exact hbody.1.elim
    | brace t o => exact hbody.1.elim

/-- A glyph of a line inside a block: its indentation or text of the template. -/
def IsInner (g : Glyph) : Prop := g.IsBody ∨ ∃ s, g = .indent s ∧ ∀ b ∈ s, b = Byte.space

/-- The character of a glyph that stands for a place in the source: its number in the text of the
glyph, and the offset of the place. -/
def target? : Glyph → Option (Nat × Nat)
  | kept _ offset => some (1, offset)
  | brace text offset => some (runeCount text, offset)
  | _ => none

theorem kept_of_isInner {g : Glyph} (h : g.IsInner) {k o : Nat} (ht : g.target? = some (k, o)) :
    ∃ r, g = .kept r o ∧ k = 1 := by
  cases g with
  | kept r offset =>
    cases ht
    exact ⟨r, rfl, rfl⟩
  | brace text offset =>
    rcases h with h | ⟨s, hs, -⟩
    · exact h.elim
    · cases hs
  | placeholder p text => cases ht
  | indent text => cases ht

end Glyph

namespace FragmentLine
open Glyph
variable {source : Bytes} {line : FragmentLine} {glyphs : List Glyph}

/-- A line that holds text of a template only and keeps a trace. -/
structure OfBody (source : Bytes) (line : FragmentLine) (glyphs : List Glyph) : Prop
    extends line.Traced source glyphs where
  body : ∀ g ∈ glyphs, g.IsBody

/-- A line of a block that keeps a trace. -/
structure Inner (source : Bytes) (line : FragmentLine) (glyphs : List Glyph) : Prop
    extends line.Traced source glyphs where
  inner : ∀ g ∈ glyphs, g.IsInner

theorem move_of_isBlank {indent : Bytes} {common : Nat} (h : isBlank line.text = true) :
    move indent common line = { line with text := [], anchors := [] } := by
  rw [move, if_pos h]

theorem move_of_not_isBlank {indent : Bytes} {common : Nat} (h : isBlank line.text = false) :
    move indent common line =
      { line with
        text := indent ++ trimRight Byte.isIndent (line.text.drop common)
        anchors := line.anchors.map (Anchor.shift (indent.length - common)) } := by
  rw [move, if_neg (by simp [h])]
  simp only [Int.add_sub_assoc]
  rfl

theorem inner_empty (source : Bytes) (origin : Nat) (placeholder : Bool) :
    Inner source { text := [], origin, placeholder, anchors := [] } [] where
  text := rfl
  valid := by simp
  single := by simp
  anchored := by simp
  column := by simp
  row := by simp
  inner := by simp

/-- A line moved to an indentation keeps its trace. -/
theorem OfBody.move (h : line.OfBody source glyphs) {indent : Bytes}
    (hindent : ∀ b ∈ indent, b = Byte.space) {common : Nat}
    (hcommon : isBlank line.text = false → common ≤ line.lead) :
    ∃ moved, (line.move indent common).Inner source moved ∧
      moved.flatMap Glyph.items = glyphs.flatMap Glyph.items := by
  cases hblank : isBlank line.text with
  | true =>
    have hgaps := isGap_of_isBlank h.body (h.text ▸ hblank)
    rw [move_of_isBlank hblank]
    exact ⟨[], inner_empty source _ _, (flatMap_items_of_isGap hgaps).symm⟩
  | false =>
    have hlead := hcommon hblank
    rw [lead, h.text] at hlead
    obtain ⟨first, rest, rfl, hfirst, hrest, hcount⟩ := exists_gaps_of_le_lead h.body hlead
    obtain ⟨inner, last, rfl, hlast, hinner⟩ :=
      exists_gaps_of_trimRight fun g hg => h.body g (List.mem_append_right _ hg)
    have hne : line.anchors ≠ [] := h.anchored fun hnil => by
      rw [h.text, hnil] at hblank
      cases hblank
    have hascii : ∀ b ∈ indent, b < 0x80 := fun b hb => hindent b hb ▸ by decide
    have hbody : ∀ g ∈ inner, g.IsBody := fun g hg => h.body g (by simp [hg])
    -- a literal rune of the moved line and where it stood before
    have back : ∀ before r o behind, .indent indent :: inner = before ++ .kept r o :: behind →
        ∃ mid, before = .indent indent :: mid ∧
          first ++ (inner ++ last) = (first ++ mid) ++ .kept r o :: (behind ++ last) := by
      intro before r o behind heq
      cases before with
      | nil => cases heq
      | cons g mid =>
        obtain ⟨rfl, rfl⟩ := List.cons.inj heq
        exact ⟨mid, rfl, by simp⟩
    refine ⟨.indent indent :: inner, ?_, ?_⟩
    · rw [move_of_not_isBlank hblank]
      refine { text := ?_, valid := ?_, single := ?_, anchored := ?_, column := ?_, row := ?_,
               inner := ?_ }
      · rw [spell_cons, hinner, hrest, ← h.text]
        rfl
      · refine List.forall_mem_cons.2 ⟨isUtf8_of_ascii hascii, ?_⟩
        exact fun g hg => isUtf8_of_isBody (hbody g hg)
      · intro hm
        rcases List.mem_append.1 hm with hm | hm
        · exact absurd (hindent _ hm) (by decide)
        · rw [h.text, ← hrest, ← hinner] at hm
          exact h.single (by rw [h.text]; simp [hm])
      · simpa using hne
      · intro before r o behind heq
        obtain ⟨mid, rfl, hback⟩ := back before r o behind heq
        have hvalid : isUtf8 (spell first) := isUtf8_spell fun g hg => h.valid g (by simp [hg])
        have hold : runeCount (spell (first ++ mid)) = common + runeCount (spell mid) := by
          rw [spell_append, runeCount_append hvalid, hcount]
        have hnew : runeCount (spell (.indent indent :: mid)) =
            indent.length + runeCount (spell mid) := by
          rw [spell_cons, Glyph.text, runeCount_append (isUtf8_of_ascii hascii),
            runeCount_of_ascii hascii]
        have hshift : (runeCount (spell (.indent indent :: mid)) + 1 : Int) =
            runeCount (spell (first ++ mid)) + 1 + (indent.length - common) := by
          rw [hold, hnew]
          push_cast
          omega
        rw [hshift, Anchor.sourceColumn_shift (by omega) (by omega) _ hne]
        exact h.column _ r o _ hback
      · intro before r o behind heq
        obtain ⟨mid, rfl, hback⟩ := back before r o behind heq
        rw [h.row _ r o _ hback, newlines_append, newlines_of_isGap hfirst, Nat.zero_add]
        simp [newlines, newlineCount]
      · refine List.forall_mem_cons.2 ⟨.inr ⟨indent, rfl, hindent⟩, ?_⟩
        exact fun g hg => .inl (hbody g hg)
    · rw [List.flatMap_append, List.flatMap_append, flatMap_items_of_isGap hfirst,
        flatMap_items_of_isGap hlast, List.append_nil]
      rfl

/-! ## The lines of a body -/

/-- What lines say. -/
def itemsOf (traces : List (List Glyph)) : List Item :=
  traces.flatMap fun glyphs => glyphs.flatMap Glyph.items

theorem reaches_start {source : Bytes} {origin offset : Nat}
    (h : (Position.ofOffset source offset).line = origin) :
    Reaches source { origin } [] offset where
  text := rfl
  valid := by simp
  single := by simp
  anchored := by simp
  column := by simp
  row := by simp
  body := by simp
  here := by simp [h, newlines]
  covered := by simp

/-- The lines of a body keep traces that lose nothing. -/
theorem exists_traces_ofBody {lines : List BodyLine}
    (h : ∀ l ∈ lines, ∃ stop, l.LaidIn source stop) (n : Nat) :
    ∃ traces, List.Forall₂ (OfBody source) (ofBody source n lines).1 traces ∧
      itemsOf traces = lines.flatMap BodyLine.items := by
  induction lines generalizing n with
  | nil => exact ⟨[], .nil, rfl⟩
  | cons l lines ih =>
    rw [List.forall_mem_cons] at h
    obtain ⟨⟨stop, hl⟩, h⟩ := h
    obtain ⟨first, habut, hfirst⟩ := hl.abut
    obtain ⟨glyphs, hglyphs, hitems⟩ :=
      (reaches_start hfirst).addPieces habut hl.sits hl.single n true
    obtain ⟨traces, htraces, hrest⟩ := ih h _
    refine ⟨glyphs :: traces, .cons ⟨hglyphs.toTraced, hglyphs.body⟩ htraces, ?_⟩
    rw [itemsOf, List.flatMap_cons, hitems, ← itemsOf, hrest, List.flatMap_cons, BodyLine.items]

/-- A void line says nothing. -/
theorem OfBody.items_of_isVoid (h : line.OfBody source glyphs) (hvoid : line.isVoid = true) :
    glyphs.flatMap Glyph.items = [] := by
  rw [isVoid, Bool.and_eq_true] at hvoid
  exact flatMap_items_of_isGap (isGap_of_isBlank h.body (h.text ▸ hvoid.1))

theorem exists_traces_dropFirst {lines : List FragmentLine} {traces : List (List Glyph)}
    (h : List.Forall₂ (OfBody source) lines traces) :
    ∃ kept, List.Forall₂ (OfBody source) (dropFirst lines) kept ∧
      itemsOf kept = itemsOf traces := by
  fun_cases dropFirst lines with
  | case1 => exact ⟨traces, h, rfl⟩
  | case2 line => exact ⟨traces, h, rfl⟩
  | case3 line rest _ hvoid =>
    obtain ⟨glyphs, traces, hl, hrest, rfl⟩ := List.forall₂_cons_left_iff.1 h
    refine ⟨traces, hrest, ?_⟩
    rw [itemsOf, itemsOf, List.flatMap_cons, hl.items_of_isVoid hvoid, List.nil_append]
  | case4 line rest _ hvoid => exact ⟨traces, h, rfl⟩

theorem exists_traces_dropLast {lines : List FragmentLine} {traces : List (List Glyph)}
    (h : List.Forall₂ (OfBody source) lines traces) :
    ∃ kept, List.Forall₂ (OfBody source) (FragmentLine.dropLast lines) kept ∧
      itemsOf kept = itemsOf traces := by
  fun_cases FragmentLine.dropLast lines with
  | case1 line hlast hvoid =>
    obtain ⟨rest, rfl⟩ := List.getLast?_eq_some_iff.1 hlast
    have hrest := List.forall₂_take_append traces rest [line] h.flip
    have hline := List.forall₂_drop_append traces rest [line] h.flip
    obtain ⟨glyphs, none, hl, hnone, heq⟩ := List.forall₂_cons_right_iff.1 hline
    rw [List.forall₂_nil_right_iff] at hnone
    refine ⟨traces.take rest.length, ?_, ?_⟩
    · rw [List.dropLast_concat]
      exact hrest.flip
    · conv_rhs => rw [← List.take_append_drop rest.length traces, heq, hnone]
      simp [itemsOf, hl.items_of_isVoid hvoid]
  | case2 line hlast hvoid => exact ⟨traces, h, rfl⟩
  | case3 hlast =>
    rw [List.getLast?_eq_none_iff] at hlast
    subst hlast
    exact ⟨traces, h, rfl⟩

theorem commonLead_le {lines : List FragmentLine} (h : line ∈ lines)
    (hblank : isBlank line.text = false) : commonLead lines ≤ line.lead :=
  List.min?_getD_le_of_mem (List.mem_map_of_mem (List.mem_filter.2 ⟨h, by simp [hblank]⟩))

/-- Lines moved as a whole keep traces that lose nothing. -/
theorem exists_traces_reindent {lines : List FragmentLine} {traces : List (List Glyph)}
    (h : List.Forall₂ (OfBody source) lines traces) {indent : Bytes}
    (hindent : ∀ b ∈ indent, b = Byte.space) :
    ∃ moved, List.Forall₂ (Inner source) (reindent indent lines) moved ∧
      itemsOf moved = itemsOf traces := by
  have key : ∀ common, (∀ l ∈ lines, isBlank l.text = false → common ≤ l.lead) →
      ∃ moved, List.Forall₂ (Inner source) (lines.map (move indent common)) moved ∧
        itemsOf moved = itemsOf traces := by
    intro common hcommon
    induction h with
    | nil => exact ⟨[], .nil, rfl⟩
    | cons hl _ ih =>
      rw [List.forall_mem_cons] at hcommon
      obtain ⟨first, hfirst, hitems⟩ := hl.move hindent hcommon.1
      obtain ⟨moved, hmoved, hrest⟩ := ih hcommon.2
      refine ⟨first :: moved, .cons hfirst hmoved, ?_⟩
      rw [itemsOf, List.flatMap_cons, hitems, ← itemsOf, hrest, itemsOf, itemsOf, List.flatMap_cons]
  exact key _ fun l hl => commonLead_le hl

theorem isInner_of_forall₂ {lines : List FragmentLine} {traces : List (List Glyph)}
    (h : List.Forall₂ (Inner source) lines traces) :
    ∀ glyphs ∈ traces, ∀ g ∈ glyphs, g.IsInner := by
  induction h with
  | nil => simp
  | cons hl _ ih => exact List.forall_mem_cons.2 ⟨hl.inner, ih⟩

/-! ## The block of a template -/

/-- A line together with the places in the source that its glyphs stand for. -/
structure Placed (source : Bytes) (line : FragmentLine) (glyphs : List Glyph) : Prop where
  text : line.text = spell glyphs
  valid : ∀ g ∈ glyphs, isUtf8 g.text
  single : Byte.newline ∉ line.text
  anchored : glyphs ≠ [] → line.anchors ≠ []
  column : ∀ (before : List Glyph) (g : Glyph) (behind : List Glyph) (k o : Nat),
    glyphs = before ++ g :: behind → g.target? = some (k, o) →
    Anchor.sourceColumn (runeCount (spell before) + k) line.anchors =
      (Position.ofOffset source o).column
  row : ∀ (before : List Glyph) (g : Glyph) (behind : List Glyph) (k o : Nat),
    glyphs = before ++ g :: behind → g.target? = some (k, o) →
    (Position.ofOffset source o).line = line.origin + newlines before

theorem Inner.placed (h : line.Inner source glyphs) : line.Placed source glyphs where
  text := h.text
  valid := h.valid
  single := h.single
  anchored := h.anchored
  column := by
    intro before g behind k o heq ht
    obtain ⟨r, rfl, rfl⟩ := kept_of_isInner (h.inner g (by simp [heq])) ht
    exact h.column before r o behind heq
  row := by
    intro before g behind k o heq ht
    obtain ⟨r, rfl, rfl⟩ := kept_of_isInner (h.inner g (by simp [heq])) ht
    exact h.row before r o behind heq

/-- The last character of a wrapping line stands for a backtick. -/
theorem placed_wrapper {text : Bytes} (hascii : ∀ b ∈ text, b < 0x80)
    (hsingle : Byte.newline ∉ text) (hne : text ≠ []) (source : Bytes) (offset : Nat) :
    (wrapper source text offset).Placed source [.brace text offset] := by
  have sole : ∀ (before : List Glyph) (g : Glyph) (behind : List Glyph) (k o : Nat),
      [.brace text offset] = before ++ g :: behind → g.target? = some (k, o) →
      before = [] ∧ k = runeCount text ∧ o = offset := by
    intro before g behind k o heq ht
    cases before with
    | nil =>
      obtain ⟨rfl, -⟩ := List.cons.inj heq
      cases ht
      exact ⟨rfl, rfl, rfl⟩
    | cons b before => simp at heq
  have hcount : 0 < runeCount text := by
    rw [runeCount_of_ascii hascii]
    exact List.length_pos_iff.2 hne
  have hcolumn := Position.one_le_column_ofOffset source offset
  refine { text := ?_, valid := ?_, single := hsingle, anchored := ?_, column := ?_, row := ?_ }
  · simp [wrapper, Glyph.text]
  · simpa [Glyph.text] using isUtf8_of_ascii hascii
  · simp [wrapper]
  · intro before g behind k o heq ht
    obtain ⟨rfl, rfl, rfl⟩ := sole before g behind k o heq ht
    rw [spell_nil, runeCount_nil, Nat.cast_zero, Int.zero_add, wrapper, ← List.nil_append [_],
      Anchor.sourceColumn_append_of_le (by omega) (by simp) (by simp)]
    simp only
    omega
  · intro before g behind k o heq ht
    obtain ⟨rfl, rfl, rfl⟩ := sole before g behind k o heq ht
    rfl

end FragmentLine

namespace Tag

/-- The bytes of a header before its brace. -/
def isHeaderByte (b : UInt8) : Bool := Placeholder.isByte b || b == 0x40

theorem ascii_of_isHeaderByte {b : UInt8} (h : isHeaderByte b = true) :
    b < 0x80 ∧ b ≠ Byte.newline := by
  rw [isHeaderByte, Bool.or_eq_true, beq_iff_eq] at h
  rcases h with h | rfl
  · exact Placeholder.ascii_of_isByte h
  · decide

/-- A header ends in the brace that opens the block. -/
theorem header_eq_append {tag : Tag} {n : Nat} {header : Bytes} (h : tag.header n = some header) :
    ∃ s, header = s ++ [Byte.openBrace] ∧ ∀ b ∈ s, isHeaderByte b = true := by
  have digits : ∀ b ∈ Bytes.ofNat n, isHeaderByte b = true := by
    intro b hb
    simp [isHeaderByte, Placeholder.isByte, Bytes.isDigit_of_mem_ofNat hb]
  have words : ∀ w ∈ [".selector", "@keyframes selector", " "],
      ∀ b ∈ Bytes.ofString w, isHeaderByte b = true := by decide +kernel
  simp only [List.forall_mem_cons] at words
  obtain ⟨styled, keyframes, space, -⟩ := words
  cases tag with
  | styled =>
    cases h
    refine ⟨Bytes.ofString ".selector" ++ Bytes.ofNat n ++ Bytes.ofString " ", ?_, ?_⟩
    · rw [List.append_assoc _ _ [Byte.openBrace]]
      rfl
    · simpa only [List.forall_mem_append] using ⟨⟨styled, digits⟩, space⟩
  | keyframes =>
    cases h
    refine ⟨Bytes.ofString "@keyframes selector" ++ Bytes.ofNat n ++ Bytes.ofString " ", ?_, ?_⟩
    · rw [List.append_assoc _ _ [Byte.openBrace]]
      rfl
    · simpa only [List.forall_mem_append] using ⟨⟨keyframes, digits⟩, space⟩
  | global => cases h

end Tag

namespace Template
open FragmentLine
variable {source : Bytes} {t : Template}

/-- The lines of the block that stands for a template. -/
inductive IsBlock (t : Template) : List (List Glyph) → Prop
  /-- The rules of a template are not wrapped. -/
  | bare {n : Nat} {body : List (List Glyph)} (noHeader : t.tag.header n = none)
      (inner : ∀ glyphs ∈ body, ∀ g ∈ glyphs, g.IsInner) (items : itemsOf body = t.items) :
      IsBlock t body
  /-- The braces around the rules stand for the backticks around the template. -/
  | wrapped {n : Nat} {header : Bytes} {body : List (List Glyph)}
      (isHeader : t.tag.header n = some header)
      (inner : ∀ glyphs ∈ body, ∀ g ∈ glyphs, g.IsInner) (items : itemsOf body = t.items) :
      IsBlock t ([.brace header t.start] :: body ++ [[.brace [Byte.closeBrace] t.stop]])

theorem placed_header {n : Nat} {header : Bytes} (h : t.tag.header n = some header) :
    (wrapper source header t.start).Placed source [.brace header t.start] := by
  obtain ⟨s, rfl, hs⟩ := Tag.header_eq_append h
  refine placed_wrapper ?_ ?_ (by simp) source t.start
  · refine List.forall_mem_append.2 ⟨fun b hb => (Tag.ascii_of_isHeaderByte (hs b hb)).1, ?_⟩
    exact List.forall_mem_singleton.2 (by decide)
  · intro hm
    rcases List.mem_append.1 hm with hm | hm
    · exact (Tag.ascii_of_isHeaderByte (hs _ hm)).2 rfl
    · exact absurd hm (by decide)

/-- The lines between the backticks of a template, moved to an indentation, say what the template
says. -/
theorem LiesIn.exists_body (h : t.LiesIn source) (hv : isUtf8 source) (n : Nat) (indent : Bytes)
    (hindent : ∀ b ∈ indent, b = Byte.space) :
    ∃ body, List.Forall₂ (Placed source)
        (reindent indent (FragmentLine.dropLast (dropFirst (ofBody source n t.bodyLines).1)))
        body ∧
      (∀ glyphs ∈ body, ∀ g ∈ glyphs, g.IsInner) ∧ itemsOf body = t.items := by
  obtain ⟨lines, hlines, hitems⟩ := exists_traces_ofBody (h.laidIn_bodyLines hv) n
  obtain ⟨first, hfirst, hfirstItems⟩ := exists_traces_dropFirst hlines
  obtain ⟨last, hlast, hlastItems⟩ := exists_traces_dropLast hfirst
  obtain ⟨body, hbody, hbodyItems⟩ := exists_traces_reindent hlast hindent
  refine ⟨body, hbody.imp fun _ _ => Inner.placed, isInner_of_forall₂ hbody, ?_⟩
  rw [hbodyItems, hlastItems, hfirstItems, hitems, h.items_bodyLines hv]

/-- The fragment lines of a template are a block that says what the template says. -/
theorem LiesIn.exists_block (h : t.LiesIn source) (hv : isUtf8 source) (counters : Counters) :
    ∃ block, List.Forall₂ (Placed source) (t.fragmentLines source counters).1 block ∧
      t.IsBlock block := by
  rw [Template.fragmentLines]
  cases hheader : t.tag.header counters.selectors with
  | none =>
    obtain ⟨body, hbody, hinner, hitems⟩ :=
      h.exists_body hv counters.placeholders [] (by simp)
    exact ⟨body, hbody, .bare hheader hinner hitems⟩
  | some header =>
    obtain ⟨body, hbody, hinner, hitems⟩ :=
      h.exists_body hv counters.placeholders blockIndent (by decide +kernel)
    have closing : (wrapper source [Byte.closeBrace] t.stop).Placed source
        [.brace [Byte.closeBrace] t.stop] :=
      placed_wrapper (by decide +kernel) (by decide) (by simp) source t.stop
    refine ⟨_, ?_, .wrapped hheader hinner hitems⟩
    exact List.rel_append (.cons (placed_header hheader) hbody) (.cons closing .nil)

end Template
end TemplateLint
