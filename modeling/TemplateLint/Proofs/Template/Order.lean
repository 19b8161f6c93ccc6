import Mathlib
import TemplateLint.Proofs.Template.Layout

/-!
# Source lines never fall along a fragment

A template is tagged only when no construct is open around it. So the templates that a scan finds
follow each other in the source and never overlap. Within a template the lines of its body start
one behind the other, between the two backticks. Dropping lines at the ends and moving them does
not touch the source lines they come from, so along all lines of a fragment the source lines never
fall.
-/
namespace TemplateLint

namespace Scan

/-! ## The order of templates -/

/-- Where an open construct starts. -/
def Frame.start : Frame → Nat
  | template start _ _ _ => start
  | interpolation start _ => start

/-- The tag of an open template. -/
def Frame.tag? : Frame → Option Tag
  | template _ tag _ _ => tag
  | interpolation _ _ => none

namespace State

/-- Only the outermost construct is tagged, and it starts behind every template found so far. The
templates found are kept in reverse. -/
structure Ordered (s : State) : Prop where
  passed : ∀ t ∈ s.found, t.stop < s.offset
  found : s.found.Pairwise fun later earlier => earlier.stop < later.start
  untagged : s.stack.Pairwise fun inner _ => inner.tag? = none
  behind : ∀ frame ∈ s.stack, frame.tag? ≠ none → ∀ t ∈ s.found, t.stop < frame.start

/-- Moving on leaves the order alone. -/
theorem Ordered.of_move {s : State} (h : s.Ordered) (b : UInt8) (mode : Mode)
    {stack : List Frame} (huntagged : stack.Pairwise fun inner _ => inner.tag? = none)
    (hbehind : ∀ frame ∈ stack, frame.tag? ≠ none → ∀ t ∈ s.found, t.stop < frame.start) :
    Ordered { s.move b mode with stack } where
  passed := by
    intro t ht
    have hlt := h.passed t ht
    simp only [State.move]
    omega
  found := h.found
  untagged := huntagged
  behind := hbehind

theorem Ordered.move {s : State} (h : s.Ordered) (b : UInt8) (mode : Mode) :
    (s.move b mode).Ordered :=
  h.of_move b mode h.untagged h.behind

/-- The innermost construct can be replaced by one with the same start and tag. -/
theorem Ordered.of_same {s : State} (h : s.Ordered) (b : UInt8) (mode : Mode) {old : Frame}
    (new : Frame) {outer : List Frame} (hstack : s.stack = old :: outer)
    (hstart : new.start = old.start) (htag : new.tag? = old.tag?) :
    Ordered { s.move b mode with stack := new :: outer } := by
  have huntagged := h.untagged
  have hbehind := h.behind
  rw [hstack] at huntagged hbehind
  rw [List.pairwise_cons] at huntagged
  rw [List.forall_mem_cons] at hbehind
  refine h.of_move b mode (List.pairwise_cons.2 ⟨?_, huntagged.2⟩) ?_
  · rw [htag]
    exact huntagged.1
  · rw [List.forall_mem_cons, hstart, htag]
    exact hbehind

theorem Ordered.openTemplate {s : State} (h : s.Ordered) (b : UInt8) :
    (s.openTemplate b).Ordered := by
  refine h.of_move b .text (List.pairwise_cons.2 ⟨?_, h.untagged⟩) ?_
  · intro outer houter
    have hne : s.stack.isEmpty = false := by
      rw [Bool.eq_false_iff, ne_eq, List.isEmpty_iff]
      exact List.ne_nil_of_mem houter
    simp [Frame.tag?, hne]
  · exact List.forall_mem_cons.2 ⟨fun _ => h.passed, h.behind⟩

theorem Ordered.closeTemplate {s : State} (h : s.Ordered) (b : UInt8) :
    (s.closeTemplate b).Ordered := by
  unfold State.closeTemplate
  split
  · next start tag parts textStart outer hstack =>
    have huntagged := h.untagged
    have hbehind := h.behind
    rw [hstack] at huntagged hbehind
    rw [List.pairwise_cons] at huntagged
    rw [List.forall_mem_cons] at hbehind
    cases tag with
    | none => exact h.of_move b (.code false) huntagged.2 hbehind.2
    | some tag =>
      -- a tagged template has no construct around it
      have houter : outer = [] := by
        rw [List.eq_nil_iff_forall_not_mem]
        intro frame hframe
        cases huntagged.1 frame hframe
      subst houter
      refine ⟨?_, ?_, List.Pairwise.nil, by simp⟩
      · refine List.forall_mem_cons.2 ⟨Nat.lt_succ_self s.offset, fun t ht => ?_⟩
        exact Nat.lt_succ_of_lt (h.passed t ht)
      · exact List.pairwise_cons.2 ⟨hbehind.1 (by simp [Frame.tag?]), h.found⟩
  · exact h.move b _

theorem Ordered.startInterpolation {s : State} (h : s.Ordered) (b : UInt8) :
    (s.startInterpolation b).Ordered := by
  unfold State.startInterpolation
  split
  · next start tag parts textStart outer hstack =>
    have hsame := h.of_same b .interpolationOpen (.template start tag
      (⟨false, s.textSince textStart, textStart⟩ :: parts) s.offset) hstack rfl rfl
    refine ⟨hsame.passed, hsame.found, List.pairwise_cons.2 ⟨?_, hsame.untagged⟩, ?_⟩
    · intro _ _
      rfl
    · exact List.forall_mem_cons.2 ⟨fun htag => absurd rfl htag, hsame.behind⟩
  · exact h.move b _

theorem Ordered.openBrace {s : State} (h : s.Ordered) (b : UInt8) : (s.openBrace b).Ordered := by
  unfold State.openBrace
  split
  · next start depth outer hstack => exact h.of_same b _ _ hstack rfl rfl
  · exact h.move b _

theorem Ordered.closeBrace {s : State} (h : s.Ordered) (b : UInt8) : (s.closeBrace b).Ordered := by
  unfold State.closeBrace
  split
  · next start depth outer hstack => exact h.of_same b _ _ hstack rfl rfl
  · next start depth opened tag parts textStart outer hstack =>
    have huntagged := h.untagged
    have hbehind := h.behind
    rw [hstack, List.pairwise_cons, List.pairwise_cons] at huntagged
    rw [hstack, List.forall_mem_cons, List.forall_mem_cons] at hbehind
    exact h.of_move b .text (List.pairwise_cons.2 huntagged.2)
      (List.forall_mem_cons.2 hbehind.2)
  · exact h.move b _

/-- Reading a byte keeps the order. -/
theorem Ordered.of_reading {s t : State} {b : UInt8} (h : s.Ordered) (hr : s.Reading b t) :
    t.Ordered := by
  cases hr with
  | moved mode => exact h.move b mode
  | opened _ => exact h.openTemplate b
  | closed _ => exact h.closeTemplate b
  | started _ => exact h.startInterpolation b
  | deeper _ => exact h.openBrace b
  | ended _ => exact h.closeBrace b

/-- Reading a whole text keeps the order. -/
theorem Ordered.run {s : State} (h : s.Ordered) (text : Bytes) : (s.run text).Ordered := by
  induction text generalizing s with
  | nil => exact h
  | cons b rest ih => exact ih (h.of_reading (s.reading_read b rest.head?))

end State

/-- The templates of a source follow each other and never overlap. -/
theorem pairwise_templates {source : Bytes} {found : List Template}
    (h : templates source = .ok found) : found.Pairwise fun a b => a.stop < b.start := by
  have hordered : (State.run {} source).Ordered :=
    State.Ordered.run (s := {}) ⟨by simp, .nil, .nil, by simp⟩ source
  simp only [templates] at h
  split at h
  · cases h
    exact List.pairwise_reverse.2 hordered.found
  · cases h
  · cases h

end Scan

/-! ## Numbers that never fall -/

/-- Numbers that never fall, from `low` up to `high`. -/
structure Ascends (low high : Nat) (ns : List Nat) : Prop where
  pairwise : ns.Pairwise (· ≤ ·)
  bounds : ∀ n ∈ ns, low ≤ n ∧ n ≤ high

namespace Ascends
variable {low mid high : Nat} {ms ns : List Nat}

theorem nil (low high : Nat) : Ascends low high [] := ⟨.nil, by simp⟩

theorem singleton {n : Nat} (hl : low ≤ n) (hh : n ≤ high) : Ascends low high [n] :=
  ⟨List.pairwise_singleton _ _, by simp [hl, hh]⟩

theorem widen (h : Ascends mid high ns) (hl : low ≤ mid) {top : Nat} (hh : high ≤ top) :
    Ascends low top ns := by
  refine ⟨h.pairwise, fun n hn => ?_⟩
  have hbounds := h.bounds n hn
  omega

theorem append (hm : Ascends low mid ms) (hn : Ascends mid high ns) (hl : low ≤ mid)
    (hh : mid ≤ high) : Ascends low high (ms ++ ns) := by
  refine ⟨List.pairwise_append.2 ⟨hm.pairwise, hn.pairwise, ?_⟩, ?_⟩
  · intro m hmem n hnem
    have := hm.bounds m hmem
    have := hn.bounds n hnem
    omega
  · exact List.forall_mem_append.2 ⟨(hm.widen (Nat.le_refl _) hh).bounds,
      (hn.widen hl (Nat.le_refl _)).bounds⟩

theorem sublist (h : Ascends low high ns) (hs : ms.Sublist ns) : Ascends low high ms :=
  ⟨h.pairwise.sublist hs, fun n hn => h.bounds n (hs.subset hn)⟩

theorem map {f : Nat → Nat} (hf : Monotone f) (h : Ascends low high ns) :
    Ascends (f low) (f high) (ns.map f) := by
  refine ⟨List.pairwise_map.2 (h.pairwise.imp fun hle => hf hle), ?_⟩
  intro n hn
  obtain ⟨m, hm, rfl⟩ := List.mem_map.1 hn
  exact ⟨hf (h.bounds m hm).1, hf (h.bounds m hm).2⟩

end Ascends

/-! ## Lines of a source -/

namespace Position

theorem line_ofOffset (source : Bytes) (o : Nat) :
    (ofOffset source o).line = 1 + (source.take o).count Byte.newline := by
  rw [ofOffset, line_after, start]

/-- Lines never fall with the offset. -/
theorem monotone_line_ofOffset (source : Bytes) :
    Monotone fun o => (ofOffset source o).line := by
  intro a b hab
  simp only [line_ofOffset]
  have hsub := (List.take_prefix_take_left (l := source) hab).sublist.count_le Byte.newline
  omega

/-- The line of an offset is a line of the source. -/
theorem line_ofOffset_le (source : Bytes) (o : Nat) :
    (ofOffset source o).line ≤ (Bytes.lines source).length := by
  have hsub := (List.take_sublist o source).count_le Byte.newline
  rw [line_ofOffset, Bytes.length_lines]
  omega

end Position

/-! ## The lines of a body -/

theorem Abut.le {source : Bytes} {a b : Nat} {parts : List Part} (h : Abut source a parts b) :
    a ≤ b := by
  induction parts generalizing a with
  | nil => exact Nat.le_of_eq h
  | cons p ps ih =>
    have hle := ih h.2.2
    omega

namespace BodyLine
open Bytes

@[simp] theorem offset_push (line : BodyLine) (piece : Part) :
    (line.push piece).offset = line.offset := by
  rw [push]
  split <;> rfl

/-- The lines of a literal start one behind the other, within the literal. -/
theorem ascends_addLines (line : BodyLine) {offset : Nat} (h : line.offset ≤ offset)
    (text : Bytes) :
    Ascends line.offset (line.addLines offset (lines text)).2.offset
        ((line.addLines offset (lines text)).1.map BodyLine.offset) ∧
      line.offset ≤ (line.addLines offset (lines text)).2.offset ∧
      (line.addLines offset (lines text)).2.offset ≤ offset + text.length := by
  induction text using lineInduction generalizing line offset with
  | last text hn =>
    rw [lines_of_not_mem hn]
    simp only [addLines, List.map_nil, offset_push]
    exact ⟨.nil _ _, Nat.le_refl _, by omega⟩
  | line s t hn ih =>
    have hnext : offset + s.length + 1 ≤ offset + s.length + 1 := Nat.le_refl _
    obtain ⟨hrest, hle, hstop⟩ := ih ⟨offset + s.length + 1, []⟩ hnext
    rw [lines_append_newline hn, addLines_cons_lines]
    simp only [List.map_cons, offset_push, List.length_append, List.length_cons] at hrest hle ⊢
    refine ⟨?_, by omega, by omega⟩
    rw [← List.singleton_append]
    exact (Ascends.singleton (Nat.le_refl _) (by omega)).append hrest (by omega) hle

/-- The lines of abutting parts start one behind the other, up to the end of the parts. -/
theorem ascends_ofParts {source : Bytes} (line : BodyLine) {offset stop : Nat}
    {parts : List Part} (h : line.offset ≤ offset) (hab : Abut source offset parts stop) :
    Ascends line.offset stop ((ofParts line parts).map BodyLine.offset) := by
  induction parts generalizing line offset with
  | nil =>
    rw [Abut] at hab
    exact .singleton (Nat.le_refl _) (hab ▸ h)
  | cons p rest ih =>
    have hstop := hab.2.2.le
    obtain ⟨rfl, -, hab⟩ := hab
    cases hi : p.interpolated with
    | true =>
      rw [ofParts_interpolation line hi]
      have hrest := ih (line.push p) (by rw [offset_push]; omega) hab
      rwa [offset_push] at hrest
    | false =>
      rw [ofParts_literal line hi, List.map_append]
      obtain ⟨hcomplete, hle, hlast⟩ := ascends_addLines line h p.text
      exact hcomplete.append (ih _ hlast hab) hle (by omega)

end BodyLine

/-! ## The lines of a fragment -/

namespace FragmentLine

@[simp] theorem origin_addPieces (source : Bytes) (n : Nat) (line : FragmentLine) (blank : Bool)
    (pieces : List Part) : (addPieces source n line blank pieces).1.origin = line.origin := by
  induction pieces generalizing n line blank with
  | nil => rfl
  | cons p rest ih =>
    rw [addPieces]
    split <;> simp [ih]

theorem map_origin_ofBody (source : Bytes) (n : Nat) (lines : List BodyLine) :
    (ofBody source n lines).1.map FragmentLine.origin =
      (lines.map BodyLine.offset).map fun o => (Position.ofOffset source o).line := by
  induction lines generalizing n with
  | nil => rfl
  | cons line rest ih => simp [ofBody, ih]

theorem dropFirst_sublist (lines : List FragmentLine) : (dropFirst lines).Sublist lines := by
  fun_cases dropFirst lines with
  | case1 => exact List.Sublist.refl _
  | case2 line => exact List.Sublist.refl _
  | case3 line rest _ _ => exact List.sublist_cons_self line rest
  | case4 line rest _ _ => exact List.Sublist.refl _

theorem dropLast_sublist (lines : List FragmentLine) :
    (FragmentLine.dropLast lines).Sublist lines := by
  fun_cases FragmentLine.dropLast lines with
  | case1 line _ _ => exact List.dropLast_sublist lines
  | case2 line _ _ => exact List.Sublist.refl _
  | case3 _ => exact List.nil_sublist lines

@[simp] theorem origin_move (indent : Bytes) (common : Nat) (line : FragmentLine) :
    (line.move indent common).origin = line.origin := by
  rw [move]
  split <;> rfl

theorem map_origin_reindent (indent : Bytes) (lines : List FragmentLine) :
    (reindent indent lines).map FragmentLine.origin = lines.map FragmentLine.origin := by
  simp [reindent]

end FragmentLine

namespace Template
open FragmentLine

theorem LiesIn.start_lt_stop {source : Bytes} {t : Template} (h : t.LiesIn source) :
    t.start < t.stop :=
  h.abut.le

/-- The lines of a template come from lines between its backticks, and they never fall. -/
theorem LiesIn.ascends_fragmentLines {source : Bytes} {t : Template} (h : t.LiesIn source)
    (counters : Counters) :
    Ascends (Position.ofOffset source t.start).line (Position.ofOffset source t.stop).line
      ((t.fragmentLines source counters).1.map FragmentLine.origin) := by
  have hmono := Position.monotone_line_ofOffset source
  have hle : (Position.ofOffset source t.start).line ≤ (Position.ofOffset source t.stop).line :=
    hmono (Nat.le_of_lt h.start_lt_stop)
  have hbody : ∀ indent, Ascends (Position.ofOffset source t.start).line
      (Position.ofOffset source t.stop).line
      ((reindent indent (FragmentLine.dropLast (dropFirst
        (ofBody source counters.placeholders t.bodyLines).1))).map FragmentLine.origin) := by
    intro indent
    have hlines := BodyLine.ascends_ofParts ⟨t.start, []⟩ (Nat.le_succ t.start) h.abut
    have horigins := hlines.map hmono
    rw [← bodyLines, ← map_origin_ofBody source counters.placeholders] at horigins
    rw [map_origin_reindent]
    exact horigins.sublist (((dropLast_sublist _).trans (dropFirst_sublist _)).map _)
  rw [fragmentLines]
  cases t.tag.header counters.selectors with
  | none => exact hbody []
  | some header =>
    simp only [List.map_append, List.map_cons, List.map_nil, wrapper]
    rw [← List.singleton_append]
    refine .append (.append (.singleton (Nat.le_refl _) (Nat.le_refl _)) (hbody _) (Nat.le_refl _)
      hle) (.singleton (Nat.le_refl _) (Nat.le_refl _)) hle (Nat.le_refl _)

end Template

/-- **Source lines never fall along the lines of templates that follow each other.** -/
theorem Fragment.ascends_linesOf {source : Bytes} {templates : List Template}
    (h : ∀ t ∈ templates, t.LiesIn source)
    (hordered : templates.Pairwise fun a b => a.stop < b.start) (counters : Counters) {low : Nat}
    (hlow : ∀ t ∈ templates, low ≤ (Position.ofOffset source t.start).line)
    (hlines : low ≤ (Bytes.lines source).length) :
    Ascends low (Bytes.lines source).length
      ((linesOf source counters templates).map FragmentLine.origin) := by
  induction templates generalizing counters low with
  | nil => exact .nil _ _
  | cons t rest ih =>
    rw [List.forall_mem_cons] at h hlow
    rw [List.pairwise_cons] at hordered
    have hmono := Position.monotone_line_ofOffset source
    have hstop := Position.line_ofOffset_le source t.stop
    have hle : (Position.ofOffset source t.start).line ≤ (Position.ofOffset source t.stop).line :=
      hmono (Nat.le_of_lt h.1.start_lt_stop)
    have hrest := ih h.2 hordered.2 (t.fragmentLines source counters).2
      (fun u hu => hmono (Nat.le_of_lt (hordered.1 u hu))) hstop
    rw [linesOf, List.map_append]
    exact ((h.1.ascends_fragmentLines counters).widen hlow.1 (Nat.le_refl _)).append hrest
      (by omega) hstop

end TemplateLint
