import Mathlib
import TemplateLint.Proofs.Template.Fragment

/-!
# From a character of a fragment to the source

A character of a fragment that no placeholder and no header can hold comes from a literal of a
template, or it is a brace that stands for a backtick. In both cases the maps of the fragment lead
to a place of the source that shows the character, or the backtick.
-/
namespace TemplateLint
open Bytes Rune

namespace Glyph

/-- A rune of a line belongs to one of its glyphs. -/
theorem exists_of_getElem?_spell {glyphs : List Glyph} (hv : ∀ g ∈ glyphs, isUtf8 g.text)
    {c : Nat} {r : Rune} (h : (decode (spell glyphs))[c]? = some r) :
    ∃ before g behind k, glyphs = before ++ g :: behind ∧ c = runeCount (spell before) + k ∧
      (decode g.text)[k]? = some r := by
  induction glyphs generalizing c with
  | nil => simp at h
  | cons g gs ih =>
    rw [List.forall_mem_cons] at hv
    rw [spell_cons, decode_append hv.1] at h
    by_cases hc : c < (decode g.text).length
    · rw [List.getElem?_append_left hc] at h
      exact ⟨[], g, gs, c, rfl, by simp, h⟩
    · rw [List.getElem?_append_right (Nat.le_of_not_lt hc)] at h
      obtain ⟨before, x, behind, k, rfl, hk, hx⟩ := ih hv.2 h
      refine ⟨g :: before, x, behind, k, rfl, ?_, hx⟩
      rw [spell_cons, runeCount_append hv.1, runeCount]
      omega

end Glyph

/-- A character that stands in no placeholder and only at the end of a wrapping line. -/
structure Byte.IsMark (b : UInt8) : Prop where
  ascii : b < 0x80
  foreign : Tag.isHeaderByte b = false
  visible : Blank.isBlankRune (.ofByte b) = false

theorem getElem?_of_decode {s : Bytes} (hs : ∀ b ∈ s, b < 0x80) {b : UInt8} (hb : b < 0x80)
    {k : Nat} (h : (decode s)[k]? = some (.ofByte b)) : s[k]? = some b := by
  rw [decode_of_ascii hs, List.getElem?_map, Option.map_eq_some_iff] at h
  obtain ⟨a, ha, heq⟩ := h
  rw [ha, ofByte_injective (hs a (List.mem_of_getElem? ha)) hb heq]

namespace Glyph

/-- A mark inside a block comes from a literal. -/
theorem kept_of_isMark {g : Glyph} (hg : g.IsInner) {b : UInt8} (hb : Byte.IsMark b) {k : Nat}
    (h : (decode g.text)[k]? = some (.ofByte b)) : ∃ o, g = .kept (.ofByte b) o ∧ k = 0 := by
  have foreign : ∀ s : Bytes, (∀ x ∈ s, Tag.isHeaderByte x = true) →
      (decode s)[k]? ≠ some (.ofByte b) := by
    intro s hs heq
    have hascii : ∀ x ∈ s, x < 0x80 := fun x hx => (Tag.ascii_of_isHeaderByte (hs x hx)).1
    have hmem := List.mem_of_getElem? (getElem?_of_decode hascii hb.ascii heq)
    exact absurd (hs b hmem) (by simp [hb.foreign])
  cases g with
  | kept r o =>
    obtain ⟨c, rfl⟩ | ⟨s, hs, -⟩ := hg
    · rw [text, encode, decode_encodeChar, List.getElem?_singleton] at h
      split at h
      · next hk =>
        cases h
        exact ⟨o, rfl, hk⟩
      · cases h
    · cases hs
  | placeholder p text =>
    obtain ⟨n, ht⟩ | ⟨s, hs, -⟩ := hg
    · refine absurd h (foreign _ fun x hx => ?_)
      simp [Tag.isHeaderByte, Placeholder.isByte_of_mem ht x hx]
    · cases hs
  | indent s =>
    obtain hs | ⟨s, hs, hspace⟩ := hg
    · exact hs.elim
    · cases hs
      refine absurd h (foreign _ fun x hx => ?_)
      rw [hspace x hx]
      decide
  | brace text o =>
    obtain hs | ⟨s, hs, -⟩ := hg
    · exact hs.elim
    · cases hs

end Glyph

theorem Tag.ascii_of_mem_header {tag : Tag} {n : Nat} {header : Bytes}
    (h : tag.header n = some header) : ∀ b ∈ header, b < 0x80 := by
  obtain ⟨s, rfl, hs⟩ := header_eq_append h
  refine List.forall_mem_append.2 ⟨fun b hb => (ascii_of_isHeaderByte (hs b hb)).1, ?_⟩
  exact List.forall_mem_singleton.2 (by decide)

/-- The only mark in a header is the brace at its end. -/
theorem Tag.eq_openBrace_of_isMark {tag : Tag} {n : Nat} {header : Bytes}
    (hh : tag.header n = some header) {b : UInt8} (hb : Byte.IsMark b) {k : Nat}
    (h : (decode header)[k]? = some (.ofByte b)) :
    b = Byte.openBrace ∧ k + 1 = runeCount header := by
  obtain ⟨s, rfl, hs⟩ := header_eq_append hh
  have hascii := ascii_of_mem_header hh
  have hget := getElem?_of_decode hascii hb.ascii h
  rw [runeCount_of_ascii hascii, List.length_append, List.length_singleton]
  by_cases hk : k < s.length
  · rw [List.getElem?_append_left hk] at hget
    exact absurd (hs b (List.mem_of_getElem? hget)) (by simp [hb.foreign])
  · rw [List.getElem?_append_right (Nat.le_of_not_lt hk), List.getElem?_singleton] at hget
    split at hget
    · next hzero =>
      cases hget
      exact ⟨rfl, by omega⟩
    · cases hget

namespace Template
variable {source : Bytes} {t : Template}

/-- A line of a block is made of what the template says, or it stands for a backtick. -/
theorem IsBlock.of_mem {block : List (List Glyph)} (h : t.IsBlock block) {glyphs : List Glyph}
    (hm : glyphs ∈ block) :
    (∀ g ∈ glyphs, g.IsInner ∧ ∀ x ∈ g.items, x ∈ t.items) ∨
      (∃ n header, t.tag.header n = some header ∧ glyphs = [.brace header t.start]) ∨
      glyphs = [.brace [Byte.closeBrace] t.stop] := by
  have inner : ∀ {body : List (List Glyph)}, (∀ glyphs ∈ body, ∀ g ∈ glyphs, g.IsInner) →
      FragmentLine.itemsOf body = t.items → glyphs ∈ body →
      ∀ g ∈ glyphs, g.IsInner ∧ ∀ x ∈ g.items, x ∈ t.items := by
    intro body hinner hitems hm g hg
    refine ⟨hinner glyphs hm g hg, fun x hx => ?_⟩
    rw [← hitems, FragmentLine.itemsOf]
    exact List.mem_flatMap.2 ⟨glyphs, hm, List.mem_flatMap.2 ⟨g, hg, hx⟩⟩
  cases h with
  | bare _ hinner hitems => exact .inl (inner hinner hitems hm)
  | wrapped hheader hinner hitems =>
    rw [List.cons_append, List.mem_cons, List.mem_append, List.mem_singleton] at hm
    rcases hm with rfl | hm | rfl
    · exact .inr (.inl ⟨_, _, hheader, rfl⟩)
    · exact .inl (inner hinner hitems hm)
    · exact .inr (.inr rfl)

/-- A character of a template stands in the source at its offset. -/
theorem LiesIn.runeAt?_of_mem_items (h : t.LiesIn source) (hv : isUtf8 source) {c : Char}
    {o : Nat} (hm : .character (.char c) o ∈ t.items) :
    source.runeAt? (Position.ofOffset source o).line (Position.ofOffset source o).column =
      some (.char c) := by
  obtain ⟨p, hp, hm⟩ := List.mem_flatMap.1 hm
  cases hi : p.interpolated with
  | true =>
    rw [Part.items_interpolation hi, List.mem_singleton] at hm
    cases hm
  | false =>
    rw [Part.items_literal hi, Item.ofRunes, List.mem_map] at hm
    obtain ⟨⟨r, o⟩, hr, heq⟩ := hm
    cases heq
    rw [visible, List.mem_filter] at hr
    obtain ⟨first, behind, hplaced⟩ := List.append_of_mem hr.1
    obtain ⟨before, rest, hdecode, -, rfl⟩ := placed_eq_append_cons hplaced
    have hsits := h.sitsIn hv p hp
    have htext : p.text = encodeAll before ++ encodeAll (.char c :: rest) := by
      rw [← encodeAll_append, ← hdecode, encodeAll_decode]
    have hpiece := hsits.behind htext (isUtf8_encodeAll_of_decode hsits.valid hdecode) false
    obtain ⟨more, hmore⟩ := hpiece.text
    have hnewline : (Rune.char c).isNewline = false := by
      by_contra hn
      rw [Bool.not_eq_false] at hn
      have hblank : Blank.isBlankRune (.char '\n') = true := by decide
      rw [eq_of_isNewline hn] at hr
      simp [hblank] at hr
    have hrune : decode (source.drop (p.offset + (encodeAll before).length)) =
        .char c :: decode (encodeAll rest ++ more) := by
      rw [← hmore, encodeAll_cons, List.append_assoc, encode, decode_encodeChar_append]
    exact Position.runeAt?_ofOffset hv hpiece.cut hrune hnewline

/-- A byte of ASCII of the source stands at the position of its offset. -/
theorem runeAt?_ascii (hv : isUtf8 source) {o : Nat} {b : UInt8} (h : source[o]? = some b)
    (hb : b < 0x80) (hn : (ofByte b).isNewline = false) :
    source.runeAt? (Position.ofOffset source o).line (Position.ofOffset source o).column =
      some (.ofByte b) := by
  obtain ⟨hlt, hget⟩ := List.getElem?_eq_some_iff.1 h
  have hdecode : decode (source.drop o) = .ofByte b :: decode (source.drop (o + 1)) := by
    rw [List.drop_eq_getElem_cons hlt, hget, decode_ascii_cons hb, ofByte]
  exact Position.runeAt?_ofOffset hv (cut_at_ascii hv h hb).1 hdecode hn

/-- A backtick of the source stands at the position of its offset. -/
theorem runeAt?_backtick (hv : isUtf8 source) {o : Nat} (h : source[o]? = some Byte.backtick) :
    source.runeAt? (Position.ofOffset source o).line (Position.ofOffset source o).column =
      some (.ofByte Byte.backtick) :=
  runeAt?_ascii hv h (by decide) (by decide)

/-- The lines of a block are valid texts. -/
theorem IsBlock.isUtf8_of_mem {block : List (List Glyph)} (h : t.IsBlock block)
    {glyphs : List Glyph} (hm : glyphs ∈ block) {g : Glyph} (hg : g ∈ glyphs) :
    isUtf8 g.text = true := by
  rcases h.of_mem hm with hinner | ⟨n, header, hheader, rfl⟩ | rfl
  · exact Glyph.isUtf8_of_isInner (hinner g hg).1
  · rw [List.mem_singleton] at hg
    rw [hg]
    exact isUtf8_of_ascii (Tag.ascii_of_mem_header hheader)
  · rw [List.mem_singleton] at hg
    rw [hg, Glyph.text]
    decide

end Template

namespace Fragment

/-- A place of a fragment that the maps of the fragment lead to an offset of the source. The lines
that interpolations skip come on top of the source line of the place. -/
structure Leads (f : Fragment) (source : Bytes) (line column : Int) (offset skipped : Nat) :
    Prop where
  row : ∃ origin, f.origins.get? line = some origin ∧
    ((Position.ofOffset source offset).line : Int) = origin + skipped
  place : ∃ anchors, f.anchors.get? line = some anchors ∧
    Anchor.sourceColumn column anchors = (Position.ofOffset source offset).column

theorem Places.leads {f : Fragment} {source : Bytes} {n : Int} {before behind : List Glyph}
    {g : Glyph} {k o : Nat} (h : f.Places source n (before ++ g :: behind))
    (ht : g.target? = some (k, o)) :
    f.Leads source n (runeCount (Glyph.spell before) + k) o (Glyph.newlines before) := by
  obtain ⟨origin, anchors, horigin, hanchors, hcolumn, hline⟩ := h before g behind k o rfl ht
  exact ⟨⟨origin, horigin, hline⟩, ⟨anchors, hanchors, hcolumn⟩⟩

/-- The last character of a wrapping line leads to a backtick. -/
theorem Places.leads_last {f : Fragment} {source : Bytes} {n : Int} {text : Bytes} {o k : Nat}
    (h : f.Places source n ([] ++ [.brace text o])) (hk : k + 1 = runeCount text) :
    f.Leads source n (k + 1) o 0 := by
  have hleads := h.leads rfl
  rw [← hk] at hleads
  simpa [Glyph.newlines] using hleads

/-- The line that shows a rune. -/
theorem exists_line {css : Bytes} {traces : List (List Glyph)}
    (h : Bytes.lines css = traces.map Glyph.spell ++ [[]]) {line column : Int} {r : Rune}
    (hr : css.runeAt? line column = some r) :
    ∃ (i c : Nat) (glyphs : List Glyph), line = i + 1 ∧ column = c + 1 ∧
      traces[i]? = some glyphs ∧ (decode (Glyph.spell glyphs))[c]? = some r := by
  rw [runeAt?] at hr
  split at hr
  · next hpos =>
    obtain ⟨text, htext, hrune⟩ := Option.bind_eq_some_iff.1 hr
    rw [h] at htext
    by_cases hi : (line - 1).toNat < (traces.map Glyph.spell).length
    · rw [List.getElem?_append_left hi, List.getElem?_map, Option.map_eq_some_iff] at htext
      obtain ⟨glyphs, hglyphs, rfl⟩ := htext
      exact ⟨_, _, glyphs, by omega, by omega, hglyphs, hrune⟩
    · -- behind the last line comes nothing
      rw [List.getElem?_append_right (Nat.le_of_not_lt hi), List.getElem?_singleton] at htext
      split at htext
      · cases htext
        simp at hrune
      · cases htext
  · cases hr

/-- A line that shows a rune has a source line and anchors. -/
theorem exists_maps_of_runeAt? {source : Bytes} {lines : List FragmentLine}
    {traces : List (List Glyph)} (h : List.Forall₂ (FragmentLine.Placed source) lines traces)
    {line column : Int} {r : Rune} (hr : (ofLines lines).css.runeAt? line column = some r) :
    ∃ origin anchors, (ofLines lines).origins.get? line = some origin ∧
      (ofLines lines).anchors.get? line = some anchors := by
  obtain ⟨i, c, glyphs, rfl, rfl, hglyphs, hrune⟩ := exists_line (lines_css_of_placed h) hr
  have hne : glyphs ≠ [] := by
    rintro rfl
    simp at hrune
  obtain ⟨l, hl, hplaced⟩ := exists_placed h hglyphs
  refine ⟨l.origin, l.anchors, ?_, ?_⟩
  · rw [origins_ofLines, get?_lineMap, hl, Option.bind_some]
  · rw [anchors_ofLines, get?_lineMap, hl, Option.bind_some,
      if_neg (by simpa using hplaced.anchored hne)]

theorem Keeps.exists_template {source : Bytes} {templates : List Template}
    {blocks : List (List (List Glyph))} {f : Fragment} (h : f.Keeps source templates blocks)
    {glyphs : List Glyph} (hm : glyphs ∈ blocks.flatten) :
    ∃ t ∈ templates, t.LiesIn source ∧ ∃ block, t.IsBlock block ∧ glyphs ∈ block := by
  obtain ⟨block, hblock, hglyphs⟩ := List.mem_flatten.1 hm
  have hcontent := h.content
  clear h hm
  induction hcontent with
  | nil => cases hblock
  | cons hhead _ ih =>
    rcases List.mem_cons.1 hblock with rfl | hblock
    · exact ⟨_, by simp, hhead.1, block, hhead.2.1, hglyphs⟩
    · obtain ⟨t, ht, hrest⟩ := ih hblock
      exact ⟨t, by simp [ht], hrest⟩

/-- A fragment made of blocks is a valid text. -/
theorem Keeps.isUtf8_css {f : Fragment} {source : Bytes} {templates : List Template}
    {blocks : List (List (List Glyph))} (h : f.Keeps source templates blocks) :
    isUtf8 f.css = true := by
  refine isUtf8_of_lines fun line hline => ?_
  rw [h.lines, List.mem_append, List.mem_map, List.mem_singleton] at hline
  rcases hline with ⟨glyphs, hglyphs, rfl⟩ | rfl
  · obtain ⟨t, -, -, block, hblock, hm⟩ := h.exists_template hglyphs
    exact Glyph.isUtf8_spell fun g hg => hblock.isUtf8_of_mem hm hg
  · rfl

/-- **A mark of a fragment leads to the source.** It comes from a literal, or it is a brace that
stands for a backtick. -/
theorem Keeps.leads {f : Fragment} {source : Bytes} {templates : List Template}
    {blocks : List (List (List Glyph))} (h : f.Keeps source templates blocks) {line column : Int}
    {b : UInt8} (hb : Byte.IsMark b) (hr : f.css.runeAt? line column = some (.ofByte b)) :
    ∃ t ∈ templates, t.LiesIn source ∧
      ((∃ before o behind, before ++ .kept (.ofByte b) o :: behind ∈ blocks.flatten ∧
          (∀ g ∈ before, ∀ x ∈ g.items, x ∈ t.items) ∧ .character (.ofByte b) o ∈ t.items ∧
          f.Leads source line column o (Glyph.newlines before)) ∨
        (b = Byte.openBrace ∧ f.Leads source line column t.start 0) ∨
        (b = Byte.closeBrace ∧ f.Leads source line column t.stop 0)) := by
  obtain ⟨i, c, glyphs, rfl, rfl, hglyphs, hrune⟩ := exists_line h.lines hr
  have hm := List.mem_of_getElem? hglyphs
  obtain ⟨t, ht, hlies, block, hblock, hline⟩ := h.exists_template hm
  have hvalid : ∀ g ∈ glyphs, isUtf8 g.text := fun g hg => hblock.isUtf8_of_mem hline hg
  obtain ⟨before, g, behind, k, rfl, rfl, hg⟩ := Glyph.exists_of_getElem?_spell hvalid hrune
  have hplaces := h.places i _ hglyphs
  -- a wrapping line is one glyph
  have sole : ∀ {text : Bytes} {o : Nat}, before ++ g :: behind = [.brace text o] →
      before = [] ∧ g = .brace text o ∧ behind = [] := by
    intro text o heq
    cases before with
    | nil => exact ⟨rfl, List.cons.inj heq⟩
    | cons x before => simp at heq
  refine ⟨t, ht, hlies, ?_⟩
  rcases hblock.of_mem hline with hinner | ⟨n, header, hheader, heq⟩ | heq
  · obtain ⟨o, rfl, rfl⟩ := Glyph.kept_of_isMark (hinner g (by simp)).1 hb hg
    refine .inl ⟨before, o, behind, hm, fun g hg => (hinner g (by simp [hg])).2, ?_, ?_⟩
    · refine (hinner (.kept (.ofByte b) o) (by simp)).2 _ ?_
      simp [Glyph.items, Item.ofRunes, visible, hb.visible]
    · simpa using hplaces.leads rfl
  · obtain ⟨rfl, rfl, rfl⟩ := sole heq
    obtain ⟨hbrace, hk⟩ := Tag.eq_openBrace_of_isMark hheader hb hg
    refine .inr (.inl ⟨hbrace, ?_⟩)
    simpa using hplaces.leads_last hk
  · obtain ⟨rfl, rfl, rfl⟩ := sole heq
    rw [Glyph.text] at hg
    have hget := getElem?_of_decode (List.forall_mem_singleton.2 (by decide)) hb.ascii hg
    rw [List.getElem?_singleton] at hget
    split at hget
    · next hk =>
      cases hget
      refine .inr (.inr ⟨rfl, ?_⟩)
      simpa using hplaces.leads_last (k := k) (by rw [hk]; rfl)
    · cases hget

end Fragment
end TemplateLint
