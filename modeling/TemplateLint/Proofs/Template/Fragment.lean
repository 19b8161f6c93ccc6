import Mathlib
import TemplateLint.Proofs.Template.Layout
import TemplateLint.Template.Extract

/-!
# Fragments keep what the templates say

The lines of a fragment are the blocks of the templates of the source, one behind the other. The
line maps of the fragment lead every literal character of a template, and every brace that stands
for a backtick, to its place in the source.
-/
namespace TemplateLint
open Bytes Rune

/-! ## What is left without the text put in -/

/-- The runes of a text that are no white space. -/
def Bytes.characters (s : Bytes) : List Rune := (decode s).filter fun r => !Blank.isBlankRune r

/-- The characters of the literals of a template. -/
def Template.characters (t : Template) : List Rune :=
  (t.parts.filter fun p => !p.interpolated).flatMap fun p => p.text.characters

/-- The rune of a character. -/
def Item.rune? : Item → Option Rune
  | character rune _ => some rune
  | interpolation _ => none

/-- A glyph that is put in: a placeholder or a wrapping line. -/
def Glyph.isSubstituted : Glyph → Bool
  | kept _ _ => false
  | placeholder _ _ => true
  | indent _ => false
  | brace _ _ => true

theorem Bytes.characters_append {s : Bytes} (h : isUtf8 s) (t : Bytes) :
    characters (s ++ t) = characters s ++ characters t := by
  rw [characters, decode_append h, List.filter_append, ← characters, ← characters]

theorem filterMap_rune?_ofRunes (rs : List (Rune × Nat)) :
    (Item.ofRunes rs).filterMap Item.rune? =
      (rs.map Prod.fst).filter fun r => !Blank.isBlankRune r := by
  rw [Item.ofRunes, List.filterMap_map, List.filter_map]
  exact congrFun List.filterMap_eq_map _

theorem Rune.map_fst_placed (offset : Nat) (rs : List Rune) :
    (placed offset rs).map Prod.fst = rs := by
  induction rs generalizing offset with
  | nil => rfl
  | cons r rs ih => rw [placed, List.map_cons, ih]

theorem Template.filterMap_rune?_items (t : Template) :
    t.items.filterMap Item.rune? = t.characters := by
  rw [items, characters]
  induction t.parts with
  | nil => rfl
  | cons p parts ih =>
    rw [List.flatMap_cons, List.filterMap_append, ih]
    cases hi : p.interpolated with
    | true =>
      rw [List.filter_cons_of_neg (by simp [hi]), Part.items_interpolation hi]
      rfl
    | false =>
      rw [List.filter_cons_of_pos (by simp [hi]), List.flatMap_cons, Part.items_literal hi,
        filterMap_rune?_ofRunes, map_fst_placed]
      rfl

namespace Glyph

theorem isUtf8_of_isInner {g : Glyph} (h : g.IsInner) : isUtf8 g.text = true := by
  rcases h with h | ⟨s, rfl, hs⟩
  · exact isUtf8_of_isBody h
  · exact isUtf8_of_ascii fun b hb => hs b hb ▸ by decide

theorem characters_of_space {s : Bytes} (h : ∀ b ∈ s, b = Byte.space) :
    Bytes.characters s = [] := by
  induction s with
  | nil => rfl
  | cons b s ih =>
    rw [List.forall_mem_cons] at h
    rw [Bytes.characters, h.1, decode_ascii_cons (by decide), List.filter_cons_of_neg (by decide)]
    exact ih h.2

/-- What is left of a glyph that is not put in is what it says. -/
theorem characters_text {g : Glyph} (h : g.IsInner) (hs : g.isSubstituted = false) :
    Bytes.characters g.text = g.items.filterMap Item.rune? := by
  cases g with
  | kept r o =>
    obtain ⟨c, rfl⟩ | ⟨s, hs, -⟩ := h
    · rw [text, encode, Bytes.characters, decode_encodeChar, items, filterMap_rune?_ofRunes]
      rfl
    · cases hs
  | placeholder p text => cases hs
  | indent s =>
    obtain h | ⟨s, hs, hspace⟩ := h
    · exact h.elim
    · cases hs
      exact characters_of_space hspace
  | brace text o => cases hs

theorem items_of_isSubstituted {g : Glyph} (hs : g.isSubstituted = true) :
    g.items.filterMap Item.rune? = [] := by
  cases g with
  | kept r o => cases hs
  | placeholder p text => rfl
  | indent s => cases hs
  | brace text o => rfl

/-- Without the text that is put in, glyphs are left with what they say. -/
theorem characters_spell {glyphs : List Glyph} (h : ∀ g ∈ glyphs, g.IsInner) :
    Bytes.characters (spell (glyphs.filter fun g => !g.isSubstituted)) =
      (glyphs.flatMap items).filterMap Item.rune? := by
  induction glyphs with
  | nil => rfl
  | cons g gs ih =>
    rw [List.forall_mem_cons] at h
    rw [List.flatMap_cons, List.filterMap_append, ← ih h.2]
    cases hs : g.isSubstituted with
    | true =>
      rw [List.filter_cons_of_neg (by simp [hs]), items_of_isSubstituted hs, List.nil_append]
    | false =>
      rw [List.filter_cons_of_pos (by simp [hs]), spell_cons,
        Bytes.characters_append (isUtf8_of_isInner h.1), characters_text h.1 hs]

end Glyph

/-- Without the text that is put in, a block is left with the characters of its template. -/
theorem Template.IsBlock.characters_eq {t : Template} {block : List (List Glyph)}
    (h : t.IsBlock block) :
    Bytes.characters (Glyph.spell (block.flatten.filter fun g => !g.isSubstituted)) =
      t.characters := by
  have key : ∀ body : List (List Glyph), (∀ glyphs ∈ body, ∀ g ∈ glyphs, g.IsInner) →
      FragmentLine.itemsOf body = t.items →
      Bytes.characters (Glyph.spell (body.flatten.filter fun g => !g.isSubstituted)) =
        t.characters := by
    intro body hinner hitems
    have hflat : ∀ g ∈ body.flatten, g.IsInner := by
      intro g hg
      obtain ⟨glyphs, hglyphs, hg⟩ := List.mem_flatten.1 hg
      exact hinner glyphs hglyphs g hg
    rw [Glyph.characters_spell hflat, ← t.filterMap_rune?_items, ← hitems, FragmentLine.itemsOf,
      List.flatten_eq_flatMap, List.flatMap_assoc]
    rfl
  cases h with
  | bare _ hinner hitems => exact key _ hinner hitems
  | wrapped _ hinner hitems =>
    rw [← key _ hinner hitems]
    simp [Glyph.isSubstituted]

namespace Fragment

/-! ## Line maps -/

/-- The map from the numbers of lines to a value that some of them have. -/
def lineMap {α : Type} (value : FragmentLine → Option α) (lines : List FragmentLine) : LineMap α :=
  (numbered lines).filterMap fun (n, line) => (value line).map fun v => (n, v)

/-- Lines are numbered in their order. -/
theorem pairwise_numbered (lines : List FragmentLine) :
    (numbered lines).Pairwise fun a b => a.1 < b.1 := by
  have hnumbers : (lines.zipIdx.map Prod.snd).Pairwise (· < ·) := by
    rw [List.zipIdx_map_snd]
    exact List.pairwise_lt_range'
  rw [List.pairwise_map] at hnumbers
  rw [numbered, List.pairwise_map]
  refine hnumbers.imp ?_
  intro a b hlt
  simpa using hlt

theorem mem_numbered {lines : List FragmentLine} {n : Int} {line : FragmentLine} :
    (n, line) ∈ numbered lines ↔ ∃ i : Nat, n = i + 1 ∧ lines[i]? = some line := by
  simp only [numbered, List.mem_map, Prod.exists, Prod.mk.injEq, List.mem_zipIdx_iff_getElem?]
  constructor
  · rintro ⟨line, i, hline, rfl, rfl⟩
    exact ⟨i, rfl, hline⟩
  · rintro ⟨i, rfl, hline⟩
    exact ⟨line, i, hline, rfl, rfl⟩

theorem nodup_keys_lineMap {α : Type} (value : FragmentLine → Option α)
    (lines : List FragmentLine) : (lineMap value lines).keys.Nodup := by
  rw [LineMap.keys, List.Nodup, List.pairwise_map, lineMap, List.pairwise_filterMap]
  refine (pairwise_numbered lines).imp ?_
  intro a b hlt x hx y hy
  obtain ⟨v, -, rfl⟩ := Option.map_eq_some_iff.1 hx
  obtain ⟨w, -, rfl⟩ := Option.map_eq_some_iff.1 hy
  exact Int.ne_of_lt hlt

/-- A map that is made line by line has values for these lines only. -/
theorem get?_lineMap_eq_some_iff {α : Type} {value : FragmentLine → Option α}
    {lines : List FragmentLine} {n : Int} {v : α} :
    (lineMap value lines).get? n = some v ↔
      ∃ (i : Nat) (line : FragmentLine), n = i + 1 ∧ lines[i]? = some line ∧
        value line = some v := by
  rw [LineMap.get?_eq_some_iff (nodup_keys_lineMap value lines)]
  simp only [lineMap, List.mem_filterMap, Option.map_eq_some_iff, Prod.exists, Prod.mk.injEq,
    mem_numbered]
  constructor
  · rintro ⟨m, line, ⟨i, rfl, hline⟩, w, hw, rfl, rfl⟩
    exact ⟨i, line, rfl, hline, hw⟩
  · rintro ⟨i, line, rfl, hline, hv⟩
    exact ⟨i + 1, line, ⟨i, rfl, hline⟩, v, hv, rfl, rfl⟩

/-- A map that is made line by line answers line by line. -/
theorem get?_lineMap {α : Type} (value : FragmentLine → Option α) (lines : List FragmentLine)
    (i : Nat) : (lineMap value lines).get? (i + 1) = lines[i]?.bind value := by
  ext v
  rw [get?_lineMap_eq_some_iff, Option.bind_eq_some_iff]
  constructor
  · rintro ⟨j, line, hj, hline, hv⟩
    obtain rfl : j = i := by omega
    exact ⟨line, hline, hv⟩
  · rintro ⟨line, hline, hv⟩
    exact ⟨i, line, rfl, hline, hv⟩

theorem origins_ofLines (lines : List FragmentLine) :
    (ofLines lines).origins = lineMap (fun line => some (line.origin : Int)) lines := by
  rw [ofLines, lineMap, ← List.filterMap_eq_map]
  rfl

theorem anchors_ofLines (lines : List FragmentLine) :
    (ofLines lines).anchors =
      lineMap (fun line => if line.anchors.isEmpty then none else some line.anchors) lines := by
  refine List.filterMap_congr ?_
  rintro ⟨n, line⟩ -
  simp only
  split <;> rfl

/-- A fragment whose maps name every line once. -/
structure Mapped (f : Fragment) : Prop where
  origins : f.origins.keys.Nodup
  anchors : f.anchors.keys.Nodup

theorem mapped_ofLines (lines : List FragmentLine) : (ofLines lines).Mapped where
  origins := origins_ofLines lines ▸ nodup_keys_lineMap _ lines
  anchors := anchors_ofLines lines ▸ nodup_keys_lineMap _ lines

/-- Extraction names every line once. -/
theorem mapped_of_extract {source id moduleName : Bytes} {f : Fragment}
    (h : extract source id moduleName = .ok f) : f.Mapped := by
  rw [extract] at h
  split at h
  · cases h
  split at h
  · cases h
    exact mapped_ofLines []
  split at h
  · cases h
  · cases h
    exact mapped_ofLines _

theorem lines_css {lines : List FragmentLine} (h : ∀ l ∈ lines, Byte.newline ∉ l.text) :
    Bytes.lines (ofLines lines).css = lines.map FragmentLine.text ++ [[]] :=
  lines_flatMap h

/-! ## The lines of a fragment -/

/-- The lines of templates are their blocks, one behind the other. -/
theorem exists_blocks_linesOf {source : Bytes} (hv : isUtf8 source) {templates : List Template}
    (h : ∀ t ∈ templates, t.LiesIn source) (counters : Counters) :
    ∃ blocks, List.Forall₂ (FragmentLine.Placed source) (linesOf source counters templates)
        blocks.flatten ∧
      List.Forall₂ Template.IsBlock templates blocks := by
  induction templates generalizing counters with
  | nil => exact ⟨[], .nil, .nil⟩
  | cons t rest ih =>
    rw [List.forall_mem_cons] at h
    obtain ⟨block, hplaced, hblock⟩ := h.1.exists_block hv counters
    obtain ⟨blocks, hrest, hblocks⟩ := ih h.2 _
    exact ⟨block :: blocks, List.rel_append hplaced hrest, .cons hblock hblocks⟩

section
variable {source : Bytes} {lines : List FragmentLine} {traces : List (List Glyph)}

theorem single_of_placed (h : List.Forall₂ (FragmentLine.Placed source) lines traces) :
    ∀ l ∈ lines, Byte.newline ∉ l.text := by
  induction h with
  | nil => simp
  | cons hl _ ih => exact List.forall_mem_cons.2 ⟨hl.single, ih⟩

/-- The lines of a fragment spell their glyphs. -/
theorem lines_css_of_placed (h : List.Forall₂ (FragmentLine.Placed source) lines traces) :
    Bytes.lines (ofLines lines).css = traces.map Glyph.spell ++ [[]] := by
  rw [lines_css (single_of_placed h)]
  congr 1
  induction h with
  | nil => rfl
  | cons hl _ ih => rw [List.map_cons, List.map_cons, hl.text, ih]

theorem exists_placed (h : List.Forall₂ (FragmentLine.Placed source) lines traces) {i : Nat}
    {glyphs : List Glyph} (hi : traces[i]? = some glyphs) :
    ∃ line, lines[i]? = some line ∧ line.Placed source glyphs := by
  induction h generalizing i with
  | nil => simp at hi
  | cons hl _ ih =>
    cases i with
    | zero =>
      cases hi
      exact ⟨_, rfl, hl⟩
    | succ i => exact ih hi

end

theorem isUtf8_of_extract {source id moduleName : Bytes} {f : Fragment}
    (h : extract source id moduleName = .ok f) : isUtf8 source = true := by
  by_contra hv
  rw [extract, if_pos (by simpa using hv)] at h
  cases h

/-- A source that does not import the module has the empty fragment. -/
theorem eq_empty_of_extract {source id moduleName : Bytes} {f : Fragment}
    (h : extract source id moduleName = .ok f)
    (himports : ModuleImport.imports source moduleName = false) : f = {} := by
  rw [extract, if_neg (by simp [isUtf8_of_extract h]), if_pos (by simp [himports])] at h
  cases h
  rfl

/-- A source that is scanned gives the blocks of its templates. -/
theorem exists_blocks_extract {source id moduleName : Bytes} {f : Fragment}
    (h : extract source id moduleName = .ok f)
    (himports : ModuleImport.imports source moduleName = true) :
    ∃ templates blocks lines, Scan.templates source = .ok templates ∧ f = ofLines lines ∧
      List.Forall₂ (FragmentLine.Placed source) lines blocks.flatten ∧
      List.Forall₂ Template.IsBlock templates blocks := by
  have hv := isUtf8_of_extract h
  rw [extract, if_neg (by simp [hv]), if_neg (by simp [himports])] at h
  split at h
  · cases h
  · next templates htemplates =>
    cases h
    obtain ⟨blocks, hplaced, hblocks⟩ := exists_blocks_linesOf hv
      (fun t ht => Scan.liesIn_of_mem_templates htemplates ht) {}
    exact ⟨templates, blocks, _, htemplates, rfl, hplaced, hblocks⟩

/-- The maps of a fragment lead the glyphs of a line to the places in the source that they stand
for: columns by the anchors of the line, lines by its source line and the newlines inside the
interpolations before the glyph. -/
def Places (f : Fragment) (source : Bytes) (n : Int) (glyphs : List Glyph) : Prop :=
  ∀ (before : List Glyph) (g : Glyph) (behind : List Glyph) (k o : Nat),
    glyphs = before ++ g :: behind → g.target? = some (k, o) →
    ∃ origin anchors, f.origins.get? n = some origin ∧ f.anchors.get? n = some anchors ∧
      Anchor.sourceColumn (runeCount (Glyph.spell before) + k) anchors =
        (Position.ofOffset source o).column ∧
      (Position.ofOffset source o).line = origin + Glyph.newlines before

theorem places_of_placed {source : Bytes} {lines : List FragmentLine} {line : FragmentLine}
    {i : Nat} (hline : lines[i]? = some line) {glyphs : List Glyph}
    (h : line.Placed source glyphs) : (ofLines lines).Places source (i + 1) glyphs := by
  intro before g behind k o heq ht
  have hne : line.anchors ≠ [] := h.anchored (by simp [heq])
  refine ⟨line.origin, line.anchors, ?_, ?_, h.column before g behind k o heq ht, ?_⟩
  · rw [origins_ofLines, get?_lineMap, hline, Option.bind_some]
  · rw [anchors_ofLines, get?_lineMap, hline, Option.bind_some, if_neg (by simpa using hne)]
  · exact_mod_cast h.row before g behind k o heq ht

/-- A fragment that is made of blocks for templates of a source. -/
structure Keeps (f : Fragment) (source : Bytes) (templates : List Template)
    (blocks : List (List (List Glyph))) : Prop where
  /-- The lines of the fragment are those of the blocks. -/
  lines : Bytes.lines f.css = blocks.flatten.map Glyph.spell ++ [[]]
  /-- A block says what its template says. Without its wrapping lines, its placeholders and white
  space it is left with the characters of the literals. -/
  content : List.Forall₂ (fun t block => t.LiesIn source ∧ t.IsBlock block ∧
    Bytes.characters (Glyph.spell (block.flatten.filter fun g => !g.isSubstituted)) =
      t.characters) templates blocks
  /-- The literal runes and the wrapping braces are led to their places in the source. -/
  places : ∀ (i : Nat) (glyphs : List Glyph), blocks.flatten[i]? = some glyphs →
    f.Places source (i + 1) glyphs

/-- Lines that are placed keep the templates of their blocks. -/
theorem keeps_of_placed {source : Bytes} {templates : List Template}
    (hlies : ∀ t ∈ templates, t.LiesIn source) {lines : List FragmentLine}
    {blocks : List (List (List Glyph))}
    (hplaced : List.Forall₂ (FragmentLine.Placed source) lines blocks.flatten)
    (hblocks : List.Forall₂ Template.IsBlock templates blocks) :
    (ofLines lines).Keeps source templates blocks where
  lines := lines_css_of_placed hplaced
  content := by
    have hkept := hblocks.imp fun _ _ hblock => And.intro hblock hblock.characters_eq
    exact (List.forall₂_and_left _ _).2 ⟨hlies, hkept⟩
  places := by
    intro i glyphs hi
    obtain ⟨line, hline, hglyphs⟩ := exists_placed hplaced hi
    exact places_of_placed hline hglyphs

/-- **Extraction loses nothing and places everything.** The fragment of a source that imports the
module keeps all its templates. -/
theorem extract_keeps_templates {source id moduleName : Bytes} {f : Fragment}
    (h : extract source id moduleName = .ok f)
    (himports : ModuleImport.imports source moduleName = true) :
    ∃ templates blocks, Scan.templates source = .ok templates ∧
      f.Keeps source templates blocks := by
  obtain ⟨templates, blocks, lines, htemplates, rfl, hplaced, hblocks⟩ :=
    exists_blocks_extract h himports
  have hlies : ∀ t ∈ templates, t.LiesIn source :=
    fun t ht => Scan.liesIn_of_mem_templates htemplates ht
  exact ⟨templates, blocks, htemplates, keeps_of_placed hlies hplaced hblocks⟩

/-- A template with an interpolation over two lines and a letter of two bytes behind it. -/
def twoLineSample : Bytes :=
  Bytes.ofString "import styled from 'styled-components'\n" ++
    Bytes.ofString "const A = styled.div`\n  color: $\x7bp =>\n    p.c\x7d \u00e9;\n`\n"

/-- The fragment of the sample keeps its template. -/
theorem extract_keeps_twoLineSample :
    ∃ f, extract twoLineSample [] defaultModule = .ok f ∧
      ModuleImport.imports twoLineSample defaultModule = true ∧
      f.css = Bytes.ofString ".selector0 \x7b\n  color: $dummyValue0 \u00e9;\n\x7d\n" ∧
      ∃ templates blocks, Scan.templates twoLineSample = .ok templates ∧
        f.Keeps twoLineSample templates blocks := by
  have himports : ModuleImport.imports twoLineSample defaultModule = true := by decide +kernel
  have h : extract twoLineSample [] defaultModule = .ok {
      css := Bytes.ofString ".selector0 \x7b\n  color: $dummyValue0 \u00e9;\n\x7d\n"
      origins := [(1, 2), (2, 3), (3, 5)]
      anchors := [(1, [⟨12, 21⟩]), (2, [⟨1, 1⟩, ⟨10, 10⟩, ⟨22, 9⟩]), (3, [⟨1, 1⟩])] } := by
    decide +kernel
  exact ⟨_, h, himports, rfl, extract_keeps_templates h himports⟩

end Fragment
end TemplateLint
