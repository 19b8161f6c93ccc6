import Mathlib
import TemplateLint.Proofs.Template.Fragment
import TemplateLint.Proofs.Template.Order

/-!
# Templates without interpolations

A template that holds nothing but literal text is found with that text as its only part. The lines
of its fragment are the lines of the text, moved to the indentation of the block.
-/
namespace TemplateLint
open Bytes

/-! ## Finding the template -/

/-- A module is imported when its first mention is announced. -/
theorem ModuleImport.importsFrom_of_announces {quote : UInt8} {name a : Bytes} (ha : quote ∉ a)
    {reversed : Bytes} (h : announces (a.reverse ++ reversed) = true) (s : Bytes) :
    importsFrom (quote :: name) reversed 0 (a ++ (quote :: (name ++ s))) = true := by
  induction a generalizing reversed with
  | nil =>
    have hstarts : (quote :: name).isPrefixOf (quote :: (name ++ s)) = true := by
      simp [List.isPrefixOf_iff_prefix]
    rw [List.nil_append, importsFrom, if_pos hstarts]
    simpa using Or.inl h
  | cons b a ih =>
    rw [List.mem_cons, not_or] at ha
    have hstarts : (quote :: name).isPrefixOf (b :: (a ++ (quote :: (name ++ s)))) = false := by
      rw [List.isPrefixOf_cons_cons]
      simp [ha.1]
    rw [List.cons_append, importsFrom, if_neg (by simp [hstarts])]
    refine ih ha.2 ?_
    rwa [List.reverse_cons, List.append_assoc, List.singleton_append] at h

namespace Scan.State

/-- Read a text that `next` follows. -/
def runBefore (next : Option UInt8) : State → Bytes → State
  | s, [] => s
  | s, b :: rest => (s.read b (rest.head?.or next)).runBefore next rest

/-- Reading a text is reading its first part and then the rest. -/
theorem run_append (s : State) (a b : Bytes) :
    s.run (a ++ b) = (s.runBefore b.head? a).run b := by
  induction a generalizing s with
  | nil => rfl
  | cons c a ih => rw [List.cons_append, run, ih, runBefore, List.head?_append]

/-- A byte of literal text that means nothing else. -/
def isLiteral (b : UInt8) : Bool :=
  b != Byte.backtick && b != Byte.backslash && b != Byte.dollar

/-- The state behind literal text. -/
def skip (s : State) (text : Bytes) : State :=
  { s with passed := text.reverse ++ s.passed, offset := s.offset + text.length }

theorem run_literal {s : State} (hmode : s.mode = .text) {text : Bytes}
    (h : ∀ b ∈ text, isLiteral b = true) (rest : Bytes) :
    s.run (text ++ rest) = (s.skip text).run rest := by
  induction text generalizing s with
  | nil => rfl
  | cons b text ih =>
    rw [List.forall_mem_cons, isLiteral] at h
    simp only [Bool.and_eq_true, bne_iff_ne, ne_eq] at h
    obtain ⟨⟨⟨hbacktick, hbackslash⟩, hdollar⟩, htext⟩ := h
    have hread (next : Option UInt8) : s.read b next = s.skip [b] := by
      simp [read, hmode, readText, hbacktick, textMode, hbackslash, hdollar, move, skip]
    rw [List.cons_append, run, hread, ih (s := s.skip [b]) hmode htext]
    simp [skip, Nat.add_assoc, Nat.add_comm 1]

/-- A newline in code leaves everything open that was. -/
theorem read_newline {s : State} {regex : Bool} (hmode : s.mode = .code regex)
    (next : Option UInt8) :
    s.read Byte.newline next =
      s.move Byte.newline (codeMode regex s.passed.head? Byte.newline next) := by
  simp only [read, hmode]
  rw [readCode, if_neg (by decide), if_neg (by decide), if_neg (by decide)]

/-- The state behind a template outside all others that holds literal text only. -/
theorem run_template {s : State} (hmode : s.mode = .text) {start : Nat} {tag : Tag}
    (hstack : s.stack = [.template start (some tag) [] s.offset]) {text : Bytes}
    (h : ∀ b ∈ text, isLiteral b = true) :
    (s.run (text ++ [Byte.backtick, Byte.newline])).stack = [] ∧
      (s.run (text ++ [Byte.backtick, Byte.newline])).found =
        ⟨tag, start, s.offset + text.length, [⟨false, text, s.offset⟩]⟩ :: s.found := by
  have hclose : (s.skip text).read Byte.backtick (some Byte.newline) =
      (s.skip text).closeTemplate Byte.backtick := by
    simp [read, skip, hmode, readText]
  have hcode : ((s.skip text).closeTemplate Byte.backtick).mode = .code false := by
    simp [closeTemplate, skip, hstack, move]
  rw [run_literal hmode h, run, List.head?_cons, hclose, run, read_newline hcode, run]
  simp [closeTemplate, skip, hstack, move, textSince]

end Scan.State

/-- A template that holds literal text only is found with it. -/
theorem Scan.templates_literal {before text : Bytes} {start : Nat} {tag : Tag}
    (hopen : State.runBefore text.head? {} before =
      ⟨before.reverse, before.length, .text, [.template start (some tag) [] before.length], []⟩)
    (hne : text ≠ []) (h : ∀ b ∈ text, State.isLiteral b = true) :
    templates (before ++ (text ++ [Byte.backtick, Byte.newline])) =
      .ok [⟨tag, start, before.length + text.length, [⟨false, text, before.length⟩]⟩] := by
  have hhead : (text ++ [Byte.backtick, Byte.newline]).head? = text.head? :=
    List.head?_append_of_ne_nil _ hne
  have hrun := State.run_append {} before (text ++ [Byte.backtick, Byte.newline])
  rw [hhead, hopen] at hrun
  obtain ⟨hstack, hfound⟩ := State.run_template (s := ⟨before.reverse, before.length, .text,
    [.template start (some tag) [] before.length], []⟩) rfl rfl h
  simp only [templates, hrun, hstack, hfound, List.reverse_singleton]

/-! ## Its lines -/

/-- The literal text of a line. -/
def BodyLine.text (line : BodyLine) : Bytes := line.pieces.flatMap Part.text

/-- A line without interpolations. -/
def BodyLine.IsLiteral (line : BodyLine) : Prop := ∀ p ∈ line.pieces, p.interpolated = false

namespace BodyLine

theorem text_push (line : BodyLine) (p : Part) : (line.push p).text = line.text ++ p.text := by
  by_cases hp : p.text = []
  · rw [push_of_nil line hp, hp, List.append_nil]
  · rw [push_of_ne_nil line hp, text, text, List.flatMap_append, List.flatMap_singleton]

theorem IsLiteral.push {line : BodyLine} (h : line.IsLiteral) {p : Part}
    (hp : p.interpolated = false) : (line.push p).IsLiteral := by
  rw [BodyLine.push]
  split
  · exact h
  · intro q hq
    rcases List.mem_append.1 hq with hq | hq
    · exact h q hq
    · rw [List.mem_singleton] at hq
      rw [hq, hp]

theorem withoutReturn_of_not_mem {s : Bytes} (h : Byte.carriageReturn ∉ s) :
    withoutReturn s = s := by
  rw [withoutReturn]
  split
  · next b hb =>
    rw [if_neg]
    rintro rfl
    exact h (List.mem_of_getLast? hb)
  · rfl

/-- The lines of a literal text follow the line that is open. -/
theorem addLines_eq (line : BodyLine) (hline : line.IsLiteral) (offset : Nat) {texts : List Bytes}
    (hreturn : ∀ s ∈ texts, Byte.carriageReturn ∉ s) {s : Bytes}
    (hs : Byte.carriageReturn ∉ s) :
    ((line.addLines offset (s :: texts)).1 ++ [(line.addLines offset (s :: texts)).2]).map text =
        (line.text ++ s) :: texts ∧
      ∀ l ∈ (line.addLines offset (s :: texts)).1 ++ [(line.addLines offset (s :: texts)).2],
        l.IsLiteral := by
  induction texts generalizing line offset s with
  | nil =>
    rw [addLines]
    refine ⟨by simp [text_push], ?_⟩
    intro l hl
    rw [List.nil_append, List.mem_singleton] at hl
    rw [hl]
    exact hline.push rfl
  | cons next texts ih =>
    rw [List.forall_mem_cons] at hreturn
    obtain ⟨htexts, hliteral⟩ := ih ⟨offset + s.length + 1, []⟩ (by simp [IsLiteral])
      (offset + s.length + 1) hreturn.2 hreturn.1
    have hadd : line.addLines offset (s :: next :: texts) =
        (line.push ⟨false, withoutReturn s, offset⟩ ::
          (addLines ⟨offset + s.length + 1, []⟩ (offset + s.length + 1) (next :: texts)).1,
        (addLines ⟨offset + s.length + 1, []⟩ (offset + s.length + 1) (next :: texts)).2) := rfl
    rw [hadd, List.cons_append, List.map_cons, htexts, text_push, withoutReturn_of_not_mem hs,
      List.forall_mem_cons]
    exact ⟨rfl, hline.push rfl, hliteral⟩

end BodyLine

/-- The lines of a template that holds literal text only are the lines of the text. -/
theorem Template.map_text_bodyLines {t : Template} {text : Bytes} {offset : Nat}
    (hparts : t.parts = [⟨false, text, offset⟩]) (hreturn : Byte.carriageReturn ∉ text) :
    t.bodyLines.map BodyLine.text = lines text ∧ ∀ l ∈ t.bodyLines, l.IsLiteral := by
  obtain ⟨s, texts, hlines⟩ :=
    List.exists_cons_of_ne_nil (List.splitOn_ne_nil Byte.newline text)
  rw [← lines] at hlines
  have hsingle : ∀ line ∈ s :: texts, Byte.carriageReturn ∉ line := by
    intro line hline hmem
    rw [← hlines] at hline
    exact hreturn (mem_of_mem_lines hline hmem)
  rw [List.forall_mem_cons] at hsingle
  have hlines' := BodyLine.addLines_eq ⟨t.start, []⟩ (by simp [BodyLine.IsLiteral]) offset hsingle.2
    hsingle.1
  rw [Template.bodyLines, hparts, BodyLine.ofParts_literal _ rfl, BodyLine.ofParts, hlines]
  exact hlines'

namespace FragmentLine

/-- Literal pieces are added as they are. -/
theorem addPieces_literal (source : Bytes) (n : Nat) (line : FragmentLine) (blank : Bool)
    {pieces : List Part} (h : ∀ p ∈ pieces, p.interpolated = false) :
    (addPieces source n line blank pieces).1.text = line.text ++ pieces.flatMap Part.text ∧
      (addPieces source n line blank pieces).1.placeholder = line.placeholder := by
  induction pieces generalizing n line blank with
  | nil => simp [addPieces]
  | cons p rest ih =>
    rw [List.forall_mem_cons] at h
    rw [addPieces, if_neg (by simp [h.1])]
    obtain ⟨htext, hplaceholder⟩ := ih n
      { line.pin (Position.ofOffset source p.offset).column with text := line.text ++ p.text }
      (blank && (Bytes.trim Placeholder.isFiller p.text).isEmpty) h.2
    exact ⟨by rw [htext]; simp, by rw [hplaceholder]; simp⟩

theorem ofBody_literal (source : Bytes) (n : Nat) {ls : List BodyLine}
    (h : ∀ l ∈ ls, l.IsLiteral) :
    (ofBody source n ls).1.map FragmentLine.text = ls.map BodyLine.text ∧
      ∀ l ∈ (ofBody source n ls).1, l.placeholder = false := by
  induction ls generalizing n with
  | nil => simp [ofBody]
  | cons line rest ih =>
    rw [List.forall_mem_cons] at h
    obtain ⟨htext, hplaceholder⟩ := addPieces_literal source n
      { origin := (Position.ofOffset source line.offset).line } true h.1
    obtain ⟨hrest, hplain⟩ := ih (addPieces source n
      { origin := (Position.ofOffset source line.offset).line } true line.pieces).2 h.2
    rw [ofBody]
    simp only [List.map_cons, List.forall_mem_cons]
    exact ⟨by rw [htext, hrest]; rfl, hplaceholder, hplain⟩

theorem isVoid_of_nil {line : FragmentLine} (htext : line.text = [])
    (hplain : line.placeholder = false) : line.isVoid = true := by
  simp [isVoid, htext, hplain, isBlank]

/-- The empty lines at both ends are dropped. -/
theorem map_text_dropLast {ls : List FragmentLine} {texts : List Bytes}
    (h : ls.map FragmentLine.text = [] :: texts ++ [[]])
    (hplain : ∀ l ∈ ls, l.placeholder = false) :
    (FragmentLine.dropLast (dropFirst ls)).map FragmentLine.text = texts := by
  rw [List.cons_append, List.map_eq_cons_iff] at h
  obtain ⟨first, rest, rfl, hfirst, hrest⟩ := h
  rw [List.map_eq_append_iff] at hrest
  obtain ⟨body, last, rfl, hbody, hlast⟩ := hrest
  rw [List.map_eq_singleton_iff] at hlast
  obtain ⟨line, rfl, hline⟩ := hlast
  have hvoid := isVoid_of_nil hfirst (hplain first (by simp))
  have hvoid' := isVoid_of_nil hline (hplain line (by simp))
  have hdrop : dropFirst (first :: (body ++ [line])) = body ++ [line] := by
    rw [dropFirst, if_pos hvoid]
    simp
  rw [hdrop, FragmentLine.dropLast, List.getLast?_concat]
  simp only [hvoid', if_true, List.dropLast_concat, hbody]

/-- Lines that are not blank lose their common lead. -/
theorem map_text_reindent {indent : Bytes} {ls : List FragmentLine}
    (hblank : ∀ l ∈ ls, isBlank l.text = false) {common : Nat}
    (hcommon : ((ls.map FragmentLine.text).map fun s => (s.takeWhile Byte.isIndent).length).min? =
      some common) :
    (reindent indent ls).map FragmentLine.text = (ls.map FragmentLine.text).map fun s =>
      indent ++ trimRight Byte.isIndent (s.drop common) := by
  have hfilter : (ls.filter fun l => !isBlank l.text) = ls :=
    List.filter_eq_self.2 fun l hl => by simp [hblank l hl]
  have hlead : commonLead ls = common := by
    have hmap : ((ls.map FragmentLine.text).map fun s => (s.takeWhile Byte.isIndent).length) =
        ls.map lead := by
      rw [List.map_map]
      rfl
    rw [commonLead, hfilter, ← hmap, hcommon, Option.getD_some]
  rw [reindent, List.map_map, List.map_map, hlead]
  refine List.map_congr_left fun l hl => ?_
  rw [Function.comp, move_of_not_isBlank (hblank l hl)]
  rfl

theorem placeholder_move (indent : Bytes) (common : Nat) (line : FragmentLine) :
    (line.move indent common).placeholder = line.placeholder := by
  rw [move]
  split <;> rfl

end FragmentLine

/-- **A template that holds literal text only becomes a block of its lines.** The empty lines at
its ends are dropped, and the common lead of the others gives way to the indentation of the
block. -/
theorem Template.fragmentLines_literal {source : Bytes} {t : Template} {text : Bytes} {offset : Nat}
    (hparts : t.parts = [⟨false, text, offset⟩]) (hreturn : Byte.carriageReturn ∉ text)
    {header : Bytes} (hheader : t.tag.header 0 = some header) {texts : List Bytes}
    (hlines : lines text = [] :: texts ++ [[]]) (hblank : ∀ s ∈ texts, isBlank s = false)
    {common : Nat}
    (hcommon : (texts.map fun s => (s.takeWhile Byte.isIndent).length).min? = some common) :
    (t.fragmentLines source {}).1.map FragmentLine.text =
        header :: texts.map (fun s =>
          blockIndent ++ trimRight Byte.isIndent (s.drop common)) ++ [[Byte.closeBrace]] ∧
      ∀ l ∈ (t.fragmentLines source {}).1, l.placeholder = false := by
  obtain ⟨hbody, hliteral⟩ := t.map_text_bodyLines hparts hreturn
  obtain ⟨htext, hplain⟩ := FragmentLine.ofBody_literal source 0 hliteral
  rw [hbody, hlines] at htext
  set ls := (FragmentLine.ofBody source 0 t.bodyLines).1
  have hkept := FragmentLine.map_text_dropLast htext hplain
  have hsub : ∀ l ∈ FragmentLine.dropLast (FragmentLine.dropFirst ls), l ∈ ls := fun l hl =>
    (FragmentLine.dropFirst_sublist ls).mem ((FragmentLine.dropLast_sublist _).mem hl)
  set kept := FragmentLine.dropLast (FragmentLine.dropFirst ls)
  have hfragment : (t.fragmentLines source {}).1 =
      FragmentLine.wrapper source header t.start :: FragmentLine.reindent blockIndent kept ++
        [FragmentLine.wrapper source [Byte.closeBrace] t.stop] := by
    rw [Template.fragmentLines]
    simp only [hheader]
    rfl
  have hnot : ∀ l ∈ kept, isBlank l.text = false := by
    intro l hl
    refine hblank l.text ?_
    rw [← hkept]
    exact List.mem_map_of_mem hl
  rw [hfragment]
  refine ⟨?_, ?_⟩
  · rw [List.map_append, List.map_cons,
      FragmentLine.map_text_reindent hnot (by rw [hkept, hcommon]), hkept]
    rfl
  · intro l hl
    rw [List.cons_append, List.mem_cons, List.mem_append, List.mem_singleton] at hl
    rcases hl with rfl | hl | rfl
    · rfl
    · obtain ⟨m, hm, rfl⟩ := List.mem_map.1 hl
      rw [FragmentLine.placeholder_move, hplain m (hsub m hm)]
    · rfl

/-- The fragment of a source with one template. -/
theorem Fragment.extract_singleton {source moduleName : Bytes} (hutf8 : isUtf8 source = true)
    (himports : ModuleImport.imports source moduleName = true) {t : Template}
    (ht : Scan.templates source = .ok [t]) (id : Bytes) :
    extract source id moduleName = .ok (ofLines (t.fragmentLines source {}).1) := by
  rw [extract, if_neg (by simp [hutf8]), if_neg (by simp [himports]), ht]
  simp only [linesOf, List.append_nil]

theorem Fragment.placeholderLines_eq_nil {ls : List FragmentLine}
    (h : ∀ l ∈ ls, l.placeholder = false) : (ofLines ls).placeholderLines = [] := by
  simp only [ofLines, List.filterMap_eq_nil_iff]
  rintro ⟨n, line⟩ hmem
  obtain ⟨i, -, hi⟩ := mem_numbered.1 hmem
  simp [h line (List.mem_of_getElem? hi)]

end TemplateLint
