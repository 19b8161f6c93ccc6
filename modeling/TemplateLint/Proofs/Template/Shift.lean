import Mathlib
import TemplateLint.Proofs.Template.Order

/-!
# Templates at another place

The lines of a template depend on the source only through the places of its parts. So the same
template at another place, or in another source, has the same lines as long as its places are on
the same source lines; only their anchors tell columns apart. `shift n m` moves what stood at the
offset `n` to the offset `m`, and `FragmentLine.seen` is what can be seen of a line with or without
its columns.
-/
namespace TemplateLint

/-! ## Shifted parts and lines -/

/-- A part when what stood at `n` stands at `m`. -/
def Part.shift (n m : Nat) (p : Part) : Part := { p with offset := p.offset - n + m }

/-- A line when what stood at `n` stands at `m`. -/
def BodyLine.shift (n m : Nat) (line : BodyLine) : BodyLine :=
  ⟨line.offset - n + m, line.pieces.map (Part.shift n m)⟩

/-- A template when what stood at `n` stands at `m`. -/
def Template.shift (n m : Nat) (t : Template) : Template :=
  ⟨t.tag, t.start - n + m, t.stop - n + m, t.parts.map (Part.shift n m)⟩

@[simp] theorem Template.shift_zero (t : Template) : t.shift 0 0 = t := by
  have hparts : t.parts.map (Part.shift 0 0) = t.parts := List.map_id _
  simp only [shift, hparts]
  rfl

namespace BodyLine
variable {n m : Nat}

theorem shift_push (line : BodyLine) (p : Part) :
    (line.push p).shift n m = (line.shift n m).push (p.shift n m) := by
  by_cases hp : p.text = []
  · rw [push_of_nil line hp, push_of_nil _ (by exact hp)]
  · rw [push_of_ne_nil line hp, push_of_ne_nil _ (by exact hp)]
    simp [shift]

/-- Shifting a line that is being read shifts the lines that it is completed to. -/
theorem shift_addLines (line : BodyLine) {offset : Nat} (h : n ≤ offset) (texts : List Bytes) :
    (line.shift n m).addLines (offset - n + m) texts =
      ((line.addLines offset texts).1.map (shift n m), (line.addLines offset texts).2.shift n m) := by
  induction texts generalizing line offset with
  | nil => rfl
  | cons text texts ih =>
    cases texts with
    | nil =>
      simp only [addLines, List.map_nil, shift_push]
      rfl
    | cons next texts =>
      have hbehind : offset - n + m + text.length + 1 = offset + text.length + 1 - n + m := by omega
      have hnext := ih ⟨offset + text.length + 1, []⟩ (by omega : n ≤ offset + text.length + 1)
      simp only [addLines, hbehind]
      rw [show (⟨offset + text.length + 1 - n + m, []⟩ : BodyLine) =
        shift n m ⟨offset + text.length + 1, []⟩ from rfl, hnext]
      simp only [List.map_cons, shift_push]
      rfl

theorem shift_ofParts (line : BodyLine) {parts : List Part} (h : ∀ p ∈ parts, n ≤ p.offset) :
    ofParts (line.shift n m) (parts.map (Part.shift n m)) =
      (ofParts line parts).map (shift n m) := by
  induction parts generalizing line with
  | nil => rfl
  | cons p rest ih =>
    rw [List.forall_mem_cons] at h
    cases hi : p.interpolated with
    | true =>
      rw [List.map_cons, ofParts_interpolation _ (by exact hi), ofParts_interpolation line hi,
        ← shift_push, ih _ h.2]
    | false =>
      rw [List.map_cons, ofParts_literal _ (by exact hi), ofParts_literal line hi, List.map_append]
      have hlines := shift_addLines (m := m) line h.1 (Bytes.lines p.text)
      simp only [Part.shift] at hlines ⊢
      rw [hlines, ih _ h.2]

end BodyLine

theorem Abut.le_offset {source : Bytes} {a b : Nat} {parts : List Part}
    (h : Abut source a parts b) : ∀ p ∈ parts, a ≤ p.offset ∧ p.offset ≤ b := by
  induction parts generalizing a with
  | nil => simp
  | cons q ps ih =>
    have hle := h.2.2.le
    refine List.forall_mem_cons.2 ⟨?_, fun p hp => ?_⟩
    · have hoffset := h.1
      omega
    · have hrest := ih h.2.2 p hp
      omega

/-- The lines of a shifted template are its lines shifted. -/
theorem Template.LiesIn.bodyLines_shift {source : Bytes} {t : Template} (h : t.LiesIn source)
    {n : Nat} (hn : n ≤ t.start) (m : Nat) :
    (t.shift n m).bodyLines = t.bodyLines.map (BodyLine.shift n m) := by
  refine BodyLine.shift_ofParts (n := n) (m := m) ⟨t.start, []⟩ fun p hp => ?_
  have hoffset := (h.abut.le_offset p hp).1
  omega

/-! ## Places inside a template -/

/-- A line whose own place and the places of its pieces are between two offsets. -/
structure BodyLine.IsWithin (a b : Nat) (line : BodyLine) : Prop where
  offset : a ≤ line.offset ∧ line.offset ≤ b
  pieces : ∀ p ∈ line.pieces, a ≤ p.offset ∧ p.offset ≤ b

namespace BodyLine
open Bytes
variable {a b : Nat}

theorem isWithin_nil {offset : Nat} (ha : a ≤ offset) (hb : offset ≤ b) :
    IsWithin a b ⟨offset, []⟩ :=
  ⟨⟨ha, hb⟩, by simp⟩

theorem IsWithin.push {line : BodyLine} (h : line.IsWithin a b) {p : Part} (ha : a ≤ p.offset)
    (hb : p.offset ≤ b) : (line.push p).IsWithin a b := by
  by_cases hp : p.text = []
  · rw [push_of_nil line hp]
    exact h
  · rw [push_of_ne_nil line hp]
    exact ⟨h.offset, List.forall_mem_append.2 ⟨h.pieces, by simpa using ⟨ha, hb⟩⟩⟩

theorem isWithin_addLines {line : BodyLine} (h : line.IsWithin a b) {offset : Nat} {text : Bytes}
    (ha : a ≤ offset) (hb : offset + text.length ≤ b) :
    (∀ l ∈ (line.addLines offset (lines text)).1, l.IsWithin a b) ∧
      (line.addLines offset (lines text)).2.IsWithin a b := by
  induction text using lineInduction generalizing line offset with
  | last text hn =>
    rw [lines_of_not_mem hn]
    have hle : offset ≤ b := by omega
    exact ⟨by simp [addLines], h.push ha hle⟩
  | line s t hn ih =>
    rw [List.length_append, List.length_cons] at hb
    have hnext : IsWithin a b ⟨offset + s.length + 1, []⟩ := isWithin_nil (by omega) (by omega)
    have hle : offset ≤ b := by omega
    obtain ⟨hcomplete, hlast⟩ := ih hnext (by omega : a ≤ offset + s.length + 1) (by omega)
    rw [lines_append_newline hn, addLines_cons_lines]
    exact ⟨List.forall_mem_cons.2 ⟨h.push ha hle, hcomplete⟩, hlast⟩

theorem isWithin_ofParts {source : Bytes} {line : BodyLine} (h : line.IsWithin a b) {offset : Nat}
    {parts : List Part} (ha : a ≤ offset) (hab : Abut source offset parts b) :
    ∀ l ∈ ofParts line parts, l.IsWithin a b := by
  induction parts generalizing line offset with
  | nil => simpa [ofParts] using h
  | cons p rest ih =>
    have hb := hab.2.2.le
    obtain ⟨rfl, -, hab⟩ := hab
    cases hi : p.interpolated with
    | true =>
      rw [ofParts_interpolation line hi]
      exact ih (h.push ha (by omega)) (by omega) hab
    | false =>
      obtain ⟨hcomplete, hlast⟩ := isWithin_addLines h ha hb
      rw [ofParts_literal line hi]
      exact List.forall_mem_append.2 ⟨hcomplete, ih hlast (by omega) hab⟩

end BodyLine

/-- The places of the lines of a template are between its backticks. -/
theorem Template.LiesIn.isWithin_bodyLines {source : Bytes} {t : Template} (h : t.LiesIn source) :
    ∀ l ∈ t.bodyLines, l.IsWithin t.start t.stop :=
  BodyLine.isWithin_ofParts
    (BodyLine.isWithin_nil (Nat.le_refl _) (Nat.le_of_lt h.start_lt_stop)) (Nat.le_succ _) h.abut

/-! ## The same lines -/

/-- What stands at `o` in a source stands at `o - n + m` in another: on the same line, and in the
same column when columns are looked at. -/
structure SamePlace (columns : Bool) (source : Bytes) (n : Nat) (source' : Bytes) (m : Nat)
    (o : Nat) : Prop where
  line : (Position.ofOffset source' (o - n + m)).line = (Position.ofOffset source o).line
  column : columns = true →
    (Position.ofOffset source' (o - n + m)).column = (Position.ofOffset source o).column

namespace FragmentLine
variable {columns : Bool} {source source' : Bytes} {n m : Nat}

/-- What is seen of a line, with its columns or without. -/
def seen (columns : Bool) (line : FragmentLine) : FragmentLine :=
  { line with anchors := if columns then line.anchors else [] }

theorem map_seen_true (lines : List FragmentLine) : lines.map (seen true) = lines :=
  List.map_id lines

theorem seen_eq_iff {line line' : FragmentLine} :
    line'.seen columns = line.seen columns ↔ line'.text = line.text ∧ line'.origin = line.origin ∧
      line'.placeholder = line.placeholder ∧
      (columns = true → line'.anchors = line.anchors) := by
  cases columns <;> simp [seen]

theorem choose_shift (k : Nat) (before : Bytes) (blank : Bool) (pieces : List Part) :
    Placeholder.choose k before blank (pieces.map (Part.shift n m)) =
      Placeholder.choose k before blank pieces := by
  have hrest : Placeholder.restOfLine (pieces.map (Part.shift n m)) =
      Placeholder.restOfLine pieces := by
    simp only [Placeholder.restOfLine, List.filter_map, List.flatMap_map]
    rfl
  have hafter : Placeholder.textAfter (pieces.map (Part.shift n m)) =
      Placeholder.textAfter pieces := by
    cases pieces <;> rfl
  simp only [Placeholder.choose, hrest, hafter]

/-- Pieces at the same places are added in the same way. -/
theorem seen_addPieces {line line' : FragmentLine} (h : line'.seen columns = line.seen columns)
    {pieces : List Part} (hp : ∀ p ∈ pieces, SamePlace columns source n source' m p.offset)
    (k : Nat) (blank : Bool) :
    (addPieces source' k line' blank (pieces.map (Part.shift n m))).1.seen columns =
        (addPieces source k line blank pieces).1.seen columns ∧
      (addPieces source' k line' blank (pieces.map (Part.shift n m))).2 =
        (addPieces source k line blank pieces).2 := by
  induction pieces generalizing line line' k blank with
  | nil => exact ⟨h, rfl⟩
  | cons p rest ih =>
    rw [List.forall_mem_cons] at hp
    obtain ⟨htext, horigin, hplaceholder, hanchors⟩ := seen_eq_iff.1 h
    have hpin : columns = true →
        (line'.pin (Position.ofOffset source' (p.shift n m).offset).column).anchors =
          (line.pin (Position.ofOffset source p.offset).column).anchors := by
      intro hc
      simp only [pin, hanchors hc, htext, Part.shift, hp.1.column hc]
    rw [List.map_cons, addPieces, addPieces]
    by_cases hi : p.interpolated = true
    · rw [if_pos (by exact hi), if_pos hi]
      simp only [htext, hplaceholder, choose_shift]
      refine ih ?_ hp.2 _ _
      exact seen_eq_iff.2 ⟨rfl, horigin, rfl, hpin⟩
    · rw [if_neg (by exact hi), if_neg hi]
      simp only [htext]
      refine ih ?_ hp.2 _ _
      exact seen_eq_iff.2 ⟨rfl, horigin, hplaceholder, hpin⟩

theorem seen_ofBody {a b : Nat} {lines : List BodyLine} (hl : ∀ l ∈ lines, l.IsWithin a b)
    (h : ∀ o, a ≤ o → o ≤ b → SamePlace columns source n source' m o) (k : Nat) :
    (ofBody source' k (lines.map (BodyLine.shift n m))).1.map (seen columns) =
        (ofBody source k lines).1.map (seen columns) ∧
      (ofBody source' k (lines.map (BodyLine.shift n m))).2 = (ofBody source k lines).2 := by
  induction lines generalizing k with
  | nil => exact ⟨rfl, rfl⟩
  | cons l rest ih =>
    rw [List.forall_mem_cons] at hl
    have horigin := (h l.offset hl.1.offset.1 hl.1.offset.2).line
    have hline :
        seen columns { origin := (Position.ofOffset source' (l.shift n m).offset).line } =
          seen columns { origin := (Position.ofOffset source l.offset).line } :=
      seen_eq_iff.2 ⟨rfl, horigin, rfl, fun _ => rfl⟩
    obtain ⟨hfirst, hcount⟩ := seen_addPieces hline
      (fun p hp => h p.offset (hl.1.pieces p hp).1 (hl.1.pieces p hp).2) k true
    obtain ⟨hrest, htotal⟩ := ih hl.2
      (addPieces source k { origin := (Position.ofOffset source l.offset).line } true l.pieces).2
    simp only [List.map_cons, ofBody, BodyLine.shift] at hfirst hcount hrest htotal ⊢
    rw [hfirst, hcount]
    exact ⟨by rw [hrest], htotal⟩

/-! What is dropped and how lines are moved does not depend on their columns. -/

theorem map_seen_dropFirst (lines : List FragmentLine) :
    (dropFirst lines).map (seen columns) = dropFirst (lines.map (seen columns)) := by
  fun_cases dropFirst lines with
  | case1 => rfl
  | case2 line => rfl
  | case3 line rest hne hvoid =>
    obtain ⟨next, more, rfl⟩ := List.exists_cons_of_ne_nil hne
    rw [List.map_cons, List.map_cons, List.map_cons, dropFirst, if_pos (by exact hvoid)]
    simp
  | case4 line rest hne hvoid =>
    obtain ⟨next, more, rfl⟩ := List.exists_cons_of_ne_nil hne
    rw [List.map_cons, List.map_cons, dropFirst, if_neg (by exact hvoid)]
    simp

theorem map_seen_dropLast (lines : List FragmentLine) :
    (FragmentLine.dropLast lines).map (seen columns) =
      FragmentLine.dropLast (lines.map (seen columns)) := by
  rw [FragmentLine.dropLast, FragmentLine.dropLast, List.getLast?_map]
  cases lines.getLast? with
  | none => rfl
  | some line =>
    have hvoid : (line.seen columns).isVoid = line.isVoid := rfl
    simp only [Option.map_some, hvoid, apply_ite (List.map (seen columns)), List.map_dropLast]

theorem seen_move (indent : Bytes) (common : Nat) (line : FragmentLine) :
    (line.move indent common).seen columns = (line.seen columns).move indent common := by
  cases columns <;> by_cases hblank : Bytes.isBlank line.text = true <;> simp [move, seen, hblank]

theorem map_seen_reindent (indent : Bytes) (lines : List FragmentLine) :
    (reindent indent lines).map (seen columns) = reindent indent (lines.map (seen columns)) := by
  have hcommon : commonLead (lines.map (seen columns)) = commonLead lines := by
    simp only [commonLead, List.filter_map, List.map_map]
    rfl
  simp only [reindent, hcommon, List.map_map]
  exact List.map_congr_left fun line _ => seen_move indent _ line

theorem seen_wrapper (text : Bytes) {o : Nat} (h : SamePlace columns source n source' m o) :
    (wrapper source' text (o - n + m)).seen columns = (wrapper source text o).seen columns :=
  seen_eq_iff.2 ⟨rfl, h.line, rfl, fun hc => by simp only [wrapper, h.column hc]⟩

end FragmentLine

open FragmentLine (seen)

/-- **A template has the same lines at the same places.** -/
theorem Template.LiesIn.seen_fragmentLines {columns : Bool} {source source' : Bytes} {n m : Nat}
    {t : Template} (ht : t.LiesIn source) (hn : n ≤ t.start)
    (h : ∀ o, t.start ≤ o → o ≤ t.stop → SamePlace columns source n source' m o)
    (counters : Counters) :
    ((t.shift n m).fragmentLines source' counters).1.map (seen columns) =
        (t.fragmentLines source counters).1.map (seen columns) ∧
      ((t.shift n m).fragmentLines source' counters).2 = (t.fragmentLines source counters).2 := by
  have hlt := ht.start_lt_stop
  have hstart := h t.start (Nat.le_refl _) (by omega)
  have hstop := h t.stop (by omega) (Nat.le_refl _)
  obtain ⟨hbody, hcount⟩ :=
    FragmentLine.seen_ofBody ht.isWithin_bodyLines h counters.placeholders
  rw [← ht.bodyLines_shift hn] at hbody hcount
  have htag : (t.shift n m).tag = t.tag := rfl
  rw [fragmentLines, fragmentLines, htag]
  refine ⟨?_, by simp only [hcount]⟩
  cases t.tag.header counters.selectors with
  | none =>
    simp only [FragmentLine.map_seen_reindent, FragmentLine.map_seen_dropLast,
      FragmentLine.map_seen_dropFirst, hbody]
  | some header =>
    have hfirst := FragmentLine.seen_wrapper header hstart
    have hlast := FragmentLine.seen_wrapper [Byte.closeBrace] hstop
    simp only [List.map_append, List.map_cons, List.map_nil, FragmentLine.map_seen_reindent,
      FragmentLine.map_seen_dropLast, FragmentLine.map_seen_dropFirst, hbody]
    rw [← hfirst, ← hlast]
    rfl

/-- A template that stands in another source as it does in this one, up to a shift. -/
structure Template.Stands (columns : Bool) (source source' : Bytes) (t t' : Template) : Prop where
  lies : t.LiesIn source
  shifted : ∃ n m, n ≤ t.start ∧ t' = t.shift n m ∧
    ∀ o, t.start ≤ o → o ≤ t.stop → SamePlace columns source n source' m o

/-- Templates that stand in another source as they do in this one have the same lines there. -/
theorem Fragment.seen_linesOf {columns : Bool} {source source' : Bytes} {ts ts' : List Template}
    (h : List.Forall₂ (Template.Stands columns source source') ts ts') (counters : Counters) :
    (linesOf source' counters ts').map (seen columns) =
      (linesOf source counters ts).map (seen columns) := by
  induction h generalizing counters with
  | nil => rfl
  | cons ht _ ih =>
    obtain ⟨hlies, n, m, hn, rfl, hplaces⟩ := ht
    obtain ⟨hlines, hcounters⟩ := hlies.seen_fragmentLines hn hplaces counters
    rw [linesOf, linesOf, List.map_append, List.map_append, hlines, hcounters, ih]

end TemplateLint
