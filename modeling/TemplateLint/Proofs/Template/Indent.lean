import Mathlib
import TemplateLint.Proofs.List
import TemplateLint.Proofs.Template.Literal
import TemplateLint.Proofs.Template.WellFormed

/-!
# Templates further to the right

A component may stand at any indentation. When white space is put behind every newline of its
literals, each line of the template but the first starts with that white space, and nothing else
about its lines changes: placeholders are chosen from what follows an interpolation and from
colons before it. The common lead of the lines grows by the same amount, so it is taken off again.
The first line is not moved, which does not matter when it is blank and is dropped.
-/
namespace TemplateLint

/-! ## Texts -/

namespace Bytes

/-- A text with `w` put behind every newline. -/
def indentLines (w s : Bytes) : Bytes :=
  s.flatMap fun b => if b = Byte.newline then Byte.newline :: w else [b]

theorem indentLines_of_not_mem (w : Bytes) {s : Bytes} (h : Byte.newline ∉ s) :
    indentLines w s = s := by
  induction s with
  | nil => rfl
  | cons b s ih =>
    simp only [List.mem_cons, not_or] at h
    simp only [indentLines, List.flatMap_cons, if_neg (Ne.symm h.1)] at ih ⊢
    rw [ih h.2, List.singleton_append]

theorem indentLines_append_newline (w : Bytes) {s : Bytes} (h : Byte.newline ∉ s) (t : Bytes) :
    indentLines w (s ++ Byte.newline :: t) = s ++ Byte.newline :: (w ++ indentLines w t) := by
  have hs := indentLines_of_not_mem w h
  simp only [indentLines] at hs ⊢
  rw [List.flatMap_append, hs, List.flatMap_cons, if_pos rfl, List.cons_append]

/-- What is put before a text is put before its first line. -/
theorem lines_append_of_not_mem {w : Bytes} (h : Byte.newline ∉ w) (s : Bytes) :
    lines (w ++ s) = (lines s).modifyHead (w ++ ·) := by
  induction s using lineInduction with
  | last s hs =>
    rw [lines_of_not_mem hs, lines_of_not_mem (by simp [h, hs])]
    rfl
  | line s t hs _ =>
    rw [lines_append_newline hs, ← List.append_assoc, lines_append_newline (by simp [h, hs])]
    rfl

/-- All lines but the first are moved. -/
theorem exists_lines_indentLines {w : Bytes} (h : Byte.newline ∉ w) (s : Bytes) :
    ∃ first rest, lines s = first :: rest ∧
      lines (indentLines w s) = first :: rest.map (w ++ ·) := by
  induction s using lineInduction with
  | last s hs =>
    refine ⟨s, [], lines_of_not_mem hs, ?_⟩
    rw [indentLines_of_not_mem w hs, lines_of_not_mem hs]
    rfl
  | line s t hs ih =>
    obtain ⟨first, rest, hlines, hmoved⟩ := ih
    refine ⟨s, first :: rest, by rw [lines_append_newline hs, hlines], ?_⟩
    rw [indentLines_append_newline w hs, lines_append_newline hs, lines_append_of_not_mem h, hmoved]
    rfl

end Bytes

open Bytes
variable {w : Bytes}

theorem newline_not_mem_of_isIndent (hw : ∀ b ∈ w, Byte.isIndent b = true) :
    Byte.newline ∉ w := by
  intro hmem
  exact absurd (hw _ hmem) (by decide)

/-- White space before a text does not make it blank. -/
theorem isBlank_indent_append (hw : ∀ b ∈ w, Byte.isIndent b = true) (s : Bytes) :
    isBlank (w ++ s) = isBlank s := by
  have hascii : ∀ b ∈ w, b < 0x80 := fun b hb => Glyph.ascii_of_isIndent (hw b hb)
  rw [isBlank, decode_append (isUtf8_of_ascii hascii), List.all_append]
  have hblank : (Rune.decode w).all Blank.isBlankRune = true := FragmentLine.isBlank_of_isIndent hw
  rw [hblank, Bool.true_and, isBlank]

/-! ## Lines of pieces -/

/-- The same piece, whatever its place. -/
def Part.Like (p p' : Part) : Prop := p'.interpolated = p.interpolated ∧ p'.text = p.text

/-- The same part with `w` put behind every newline of a literal. -/
def Part.Indented (w : Bytes) (p p' : Part) : Prop :=
  p'.interpolated = p.interpolated ∧
    p'.text = if p.interpolated then p.text else indentLines w p.text

/-- Pieces of a line, and the same pieces behind `w`. -/
inductive Part.Pushed (w : Bytes) : List Part → List Part → Prop
  /-- There is nothing to put before them. -/
  | nothing {ps ps' : List Part} (none : w = []) (like : List.Forall₂ Part.Like ps ps') :
    Pushed w ps ps'
  /-- The white space is a piece of its own. -/
  | apart {ps ps' : List Part} {o : Nat} (like : List.Forall₂ Part.Like ps ps') :
    Pushed w ps (⟨false, w, o⟩ :: ps')
  /-- The white space belongs to the first literal. -/
  | joined {s : Bytes} {o o' : Nat} {ps ps' : List Part} (like : List.Forall₂ Part.Like ps ps') :
    Pushed w (⟨false, s, o⟩ :: ps) (⟨false, w ++ s, o'⟩ :: ps')

theorem Part.Pushed.concat {ps ps' : List Part} (h : Part.Pushed w ps ps') {p p' : Part}
    (hp : p.Like p') : Part.Pushed w (ps ++ [p]) (ps' ++ [p']) := by
  have hlast : List.Forall₂ Part.Like [p] [p'] := .cons hp .nil
  cases h with
  | nothing none like => exact .nothing none (List.rel_append like hlast)
  | apart like => exact .apart (List.rel_append like hlast)
  | joined like => exact .joined (List.rel_append like hlast)

namespace BodyLine
variable {line line' : BodyLine}

/-- A line that stands behind `w` in another one. -/
def Pushed (w : Bytes) (line line' : BodyLine) : Prop := Part.Pushed w line.pieces line'.pieces

theorem Pushed.push (h : line.Pushed w line') {p p' : Part} (hp : p.Like p') :
    (line.push p).Pushed w (line'.push p') := by
  by_cases hnil : p.text = []
  · rw [push_of_nil _ hnil, push_of_nil _ (by rw [hp.2, hnil])]
    exact h
  · rw [push_of_ne_nil _ hnil, push_of_ne_nil _ (by rw [hp.2]; exact hnil)]
    exact h.concat hp

/-- A line that begins with `w`. -/
theorem pushed_first (w text : Bytes) (offset offset' o o' : Nat) :
    Pushed w (push ⟨offset, []⟩ ⟨false, text, o⟩) (push ⟨offset', []⟩ ⟨false, w ++ text, o'⟩) := by
  by_cases htext : text = []
  · by_cases hw : w = []
    · simp [Pushed, push, htext, hw, Part.Pushed.nothing]
    · rw [push_of_nil _ (by exact htext), push_of_ne_nil _ (by simp [hw]), htext, List.append_nil]
      exact .apart .nil
  · rw [push_of_ne_nil _ (by exact htext), push_of_ne_nil _ (by simp [htext])]
    exact .joined .nil

/-- White space before a line does not belong to its line end. -/
theorem withoutReturn_append_of_isIndent (hw : ∀ b ∈ w, Byte.isIndent b = true) (s : Bytes) :
    withoutReturn (w ++ s) = w ++ withoutReturn s := by
  cases hs : s.getLast? with
  | none =>
    rw [List.getLast?_eq_none_iff.1 hs, List.append_nil]
    have hreturn : Byte.carriageReturn ∉ w := fun hmem => absurd (hw _ hmem) (by decide)
    rw [withoutReturn_of_not_mem hreturn]
    simp [withoutReturn]
  | some b =>
    obtain ⟨s, rfl⟩ := List.getLast?_eq_some_iff.1 hs
    by_cases hb : b = Byte.carriageReturn
    · simp [withoutReturn, hb, ← List.append_assoc]
    · simp [withoutReturn, hb, ← List.append_assoc]

/-- The lines behind a newline all begin with `w`. -/
theorem pushed_addLines_nil (hw : ∀ b ∈ w, Byte.isIndent b = true) (texts : List Bytes)
    (text : Bytes) (offset offset' : Nat) :
    List.Forall₂ (Pushed w) (addLines ⟨offset, []⟩ offset (text :: texts)).1
        (addLines ⟨offset', []⟩ offset' ((w ++ text) :: texts.map (w ++ ·))).1 ∧
      Pushed w (addLines ⟨offset, []⟩ offset (text :: texts)).2
        (addLines ⟨offset', []⟩ offset' ((w ++ text) :: texts.map (w ++ ·))).2 := by
  induction texts generalizing text offset offset' with
  | nil => exact ⟨.nil, pushed_first w text _ _ _ _⟩
  | cons next texts ih =>
    obtain ⟨hcomplete, hlast⟩ := ih next (offset + text.length + 1)
      (offset' + (w ++ text).length + 1)
    refine ⟨.cons ?_ hcomplete, hlast⟩
    rw [withoutReturn_append_of_isIndent hw]
    exact pushed_first w (withoutReturn text) _ _ _ _

/-- A line that is being read and what a literal adds to it. -/
theorem Pushed.addLines (hw : ∀ b ∈ w, Byte.isIndent b = true) (h : line.Pushed w line')
    (offset offset' : Nat) (text : Bytes) :
    List.Forall₂ (Pushed w) (line.addLines offset (lines text)).1
        (line'.addLines offset' (lines (indentLines w text))).1 ∧
      (line.addLines offset (lines text)).2.Pushed w
        (line'.addLines offset' (lines (indentLines w text))).2 := by
  obtain ⟨first, rest, hlines, hmoved⟩ :=
    exists_lines_indentLines (newline_not_mem_of_isIndent hw) text
  rw [hlines, hmoved]
  cases rest with
  | nil => exact ⟨.nil, h.push ⟨rfl, rfl⟩⟩
  | cons next rest =>
    obtain ⟨hcomplete, hlast⟩ := pushed_addLines_nil hw rest next (offset + first.length + 1)
      (offset' + first.length + 1)
    exact ⟨.cons (h.push ⟨rfl, rfl⟩) hcomplete, hlast⟩

theorem ofParts_ne_nil (line : BodyLine) (parts : List Part) : ofParts line parts ≠ [] := by
  induction parts generalizing line with
  | nil => simp [ofParts]
  | cons p rest ih =>
    rw [ofParts]
    split
    · exact ih _
    · simp [ih]

/-- The lines of parts, all behind `w`. -/
theorem Pushed.ofParts (hw : ∀ b ∈ w, Byte.isIndent b = true) (h : line.Pushed w line')
    {parts parts' : List Part} (hparts : List.Forall₂ (Part.Indented w) parts parts') :
    List.Forall₂ (Pushed w) (BodyLine.ofParts line parts) (BodyLine.ofParts line' parts') := by
  induction hparts generalizing line line' with
  | nil => exact .cons h .nil
  | @cons p p' rest rest' hp _ ih =>
    obtain ⟨hkind, htext⟩ := hp
    cases hi : p.interpolated with
    | true =>
      rw [hi] at hkind
      rw [ofParts_interpolation _ hi, ofParts_interpolation _ hkind]
      refine ih (h.push ⟨by rw [hkind, hi], ?_⟩)
      rw [htext, if_pos hi]
    | false =>
      rw [hi] at hkind
      rw [if_neg (by simp [hi])] at htext
      rw [ofParts_literal _ hi, ofParts_literal _ hkind, htext]
      obtain ⟨hcomplete, hlast⟩ := h.addLines hw p.offset p'.offset p.text
      exact List.rel_append hcomplete (ih hlast)

end BodyLine

/-! ## Fragment lines -/

namespace FragmentLine
variable {source source' : Bytes} {line line' : FragmentLine} {lines lines' : List FragmentLine}

/-- The text of a line and whether it is a placeholder line. -/
def shown (line : FragmentLine) : Bytes × Bool := (line.text, line.placeholder)

/-- A line that shows `w` and then the same as another one. -/
def Behind (w : Bytes) (line line' : FragmentLine) : Prop :=
  line'.text = w ++ line.text ∧ line'.placeholder = line.placeholder

/-- The placeholder of an interpolation does not depend on white space before it. -/
theorem choose_of_like (hw : ∀ b ∈ w, Byte.isIndent b = true) (n : Nat) (before : Bytes)
    (blank : Bool) {pieces pieces' : List Part} (h : List.Forall₂ Part.Like pieces pieces') :
    Placeholder.choose n (w ++ before) blank pieces' =
      Placeholder.choose n before blank pieces := by
  have hrest : Placeholder.restOfLine pieces' = Placeholder.restOfLine pieces := by
    induction h with
    | nil => rfl
    | @cons p p' rest rest' hp _ ih =>
      simp only [Placeholder.restOfLine] at ih ⊢
      cases hi : p.interpolated <;> simp [hp.1, hp.2, hi, ih]
  have hafter : Placeholder.textAfter pieces' = Placeholder.textAfter pieces := by
    cases h with
    | nil => rfl
    | cons hp _ => simp only [Placeholder.textAfter, hp.1, hp.2]
  have hcolon : (w ++ before).contains Byte.colon = before.contains Byte.colon := by
    have hnot : Byte.colon ∉ w := fun hmem => absurd (hw _ hmem) (by decide)
    simp [hnot]
  simp only [Placeholder.choose, hrest, hafter, hcolon]

/-- Adding the same pieces to a line and to the line behind `w`. -/
theorem Behind.addPieces (hw : ∀ b ∈ w, Byte.isIndent b = true) (h : line.Behind w line')
    {pieces pieces' : List Part} (hp : List.Forall₂ Part.Like pieces pieces') (n : Nat)
    (blank : Bool) :
    (addPieces source n line blank pieces).1.Behind w
        (addPieces source' n line' blank pieces').1 ∧
      (addPieces source' n line' blank pieces').2 =
        (addPieces source n line blank pieces).2 := by
  induction hp generalizing line line' n blank with
  | nil => exact ⟨h, rfl⟩
  | @cons p p' rest rest' hlike hrest ih =>
    rw [FragmentLine.addPieces, FragmentLine.addPieces, hlike.1, hlike.2, h.1]
    by_cases hi : p.interpolated = true
    · rw [if_pos hi, if_pos hi]
      simp only [choose_of_like hw n line.text blank hrest]
      apply ih
      exact ⟨by simp, by simp [h.2]⟩
    · rw [if_neg hi, if_neg hi]
      apply ih
      exact ⟨by simp, by simp [h.2]⟩

/-- Filler before a literal leaves it filler or not. -/
theorem isEmpty_trim_indent_append (hw : ∀ b ∈ w, Byte.isIndent b = true) (s : Bytes) :
    (trim Placeholder.isFiller (w ++ s)).isEmpty = (trim Placeholder.isFiller s).isEmpty := by
  have hfiller : w.all Placeholder.isFiller = true := by
    rw [List.all_eq_true]
    intro b hb
    simp [Placeholder.isFiller, hw b hb]
  rw [isEmpty_trim, isEmpty_trim, List.all_append, hfiller, Bool.true_and]

/-- A line of pieces behind `w` shows `w` and then the same. -/
theorem behind_of_pushed (source source' : Bytes) (hw : ∀ b ∈ w, Byte.isIndent b = true)
    {pieces pieces' : List Part} (h : Part.Pushed w pieces pieces') (n origin origin' : Nat) :
    (addPieces source n { origin } true pieces).1.Behind w
        (addPieces source' n { origin := origin' } true pieces').1 ∧
      (addPieces source' n { origin := origin' } true pieces').2 =
        (addPieces source n { origin } true pieces).2 := by
  cases h with
  | nothing none like =>
    have hstart : Behind w { origin } { origin := origin' } := ⟨by simp [none], rfl⟩
    exact hstart.addPieces hw like n true
  | @apart _ _ o like =>
    have hfiller := isEmpty_trim_indent_append hw []
    rw [List.append_nil] at hfiller
    have hstart : Behind w { origin }
        { pin { origin := origin' } (Position.ofOffset source' o).column with text := [] ++ w } :=
      ⟨by simp, rfl⟩
    rw [addPieces, if_neg (by simp), hfiller]
    exact hstart.addPieces hw like n true
  | @joined s o o' _ _ like =>
    have hstart : Behind w
        { pin { origin } (Position.ofOffset source o).column with text := [] ++ s }
        { pin { origin := origin' } (Position.ofOffset source' o').column with
          text := [] ++ (w ++ s) } :=
      ⟨by simp, rfl⟩
    rw [addPieces, addPieces, if_neg (by simp), if_neg (by simp)]
    simp only [isEmpty_trim_indent_append hw]
    exact hstart.addPieces hw like n _

theorem behind_ofBody (source source' : Bytes) (hw : ∀ b ∈ w, Byte.isIndent b = true)
    {ls ls' : List BodyLine} (h : List.Forall₂ (BodyLine.Pushed w) ls ls') (n : Nat) :
    List.Forall₂ (Behind w) (ofBody source n ls).1 (ofBody source' n ls').1 ∧
      (ofBody source' n ls').2 = (ofBody source n ls).2 := by
  induction h generalizing n with
  | nil => exact ⟨.nil, rfl⟩
  | @cons l l' ls ls' hl _ ih =>
    obtain ⟨hfirst, hcount⟩ := behind_of_pushed source source' hw hl n
      (Position.ofOffset source l.offset).line (Position.ofOffset source' l'.offset).line
    obtain ⟨hrest, htotal⟩ := ih
      (addPieces source n { origin := (Position.ofOffset source l.offset).line } true l.pieces).2
    simp only [ofBody, hcount]
    exact ⟨.cons hfirst hrest, htotal⟩

theorem Behind.isBlank_eq (hw : ∀ b ∈ w, Byte.isIndent b = true) (h : line.Behind w line') :
    isBlank line'.text = isBlank line.text := by
  rw [h.1, isBlank_indent_append hw]

theorem Behind.isVoid_eq (hw : ∀ b ∈ w, Byte.isIndent b = true) (h : line.Behind w line') :
    line'.isVoid = line.isVoid := by
  rw [isVoid, isVoid, h.isBlank_eq hw, h.2]

theorem behind_dropFirst (hw : ∀ b ∈ w, Byte.isIndent b = true)
    (h : List.Forall₂ (Behind w) lines lines') :
    List.Forall₂ (Behind w) (dropFirst lines) (dropFirst lines') := by
  cases h with
  | nil => exact .nil
  | cons hl hrest =>
    cases hrest with
    | nil => exact .cons hl .nil
    | cons hnext hmore =>
      simp only [dropFirst, hl.isVoid_eq hw]
      split
      · exact .cons hnext hmore
      · exact .cons hl (.cons hnext hmore)

theorem dropLast_cons_cons (first next : FragmentLine) (more : List FragmentLine) :
    FragmentLine.dropLast (first :: next :: more) =
      first :: FragmentLine.dropLast (next :: more) := by
  rw [FragmentLine.dropLast, FragmentLine.dropLast, List.getLast?_cons_cons]
  cases hlast : (next :: more).getLast? with
  | none => simp at hlast
  | some last =>
    simp only [List.dropLast_cons_cons]
    split <;> rfl

theorem behind_dropLast (hw : ∀ b ∈ w, Byte.isIndent b = true)
    (h : List.Forall₂ (Behind w) lines lines') :
    List.Forall₂ (Behind w) (FragmentLine.dropLast lines) (FragmentLine.dropLast lines') := by
  induction h with
  | nil => exact .nil
  | cons hl hrest ih =>
    cases hrest with
    | nil =>
      simp only [FragmentLine.dropLast, List.getLast?_singleton, hl.isVoid_eq hw]
      split
      · exact .nil
      · exact .cons hl .nil
    | cons hnext hmore =>
      rw [dropLast_cons_cons, dropLast_cons_cons]
      exact .cons hl ih

theorem Behind.lead_eq (hw : ∀ b ∈ w, Byte.isIndent b = true) (h : line.Behind w line') :
    line'.lead = w.length + line.lead := by
  rw [lead, h.1, List.takeWhile_append_of_pos hw, List.length_append, lead]

/-- The lines that are not blank start further to the right. -/
theorem leads_of_behind (hw : ∀ b ∈ w, Byte.isIndent b = true)
    (h : List.Forall₂ (Behind w) lines lines') :
    (lines'.filter fun l => !isBlank l.text).map lead =
      ((lines.filter fun l => !isBlank l.text).map lead).map (w.length + ·) := by
  induction h with
  | nil => rfl
  | @cons l l' _ _ hl _ ih =>
    have hblank := hl.isBlank_eq hw
    cases hb : isBlank l.text with
    | true => simp [hb, hblank, ih]
    | false => simp [hb, hblank, ih, hl.lead_eq hw]

/-- Moved to the same indentation, both show the same. -/
theorem shown_move (hw : ∀ b ∈ w, Byte.isIndent b = true) (h : line.Behind w line')
    (indent : Bytes) (common : Nat) :
    (line'.move indent (w.length + common)).shown = (line.move indent common).shown := by
  have hblank := h.isBlank_eq hw
  cases hb : isBlank line.text with
  | true => simp [move, shown, hb, hblank, h.2]
  | false =>
    rw [move_of_not_isBlank hb, move_of_not_isBlank (hblank.trans hb)]
    simp [shown, h.1, h.2]

theorem map_shown_move (hw : ∀ b ∈ w, Byte.isIndent b = true)
    (h : List.Forall₂ (Behind w) lines lines') (indent : Bytes) (common : Nat) :
    (lines'.map (move indent (w.length + common))).map shown =
      (lines.map (move indent common)).map shown := by
  induction h with
  | nil => rfl
  | cons hl _ ih => simp only [List.map_cons, shown_move hw hl, ih]

/-- **The white space before all lines is taken off again.** -/
theorem map_shown_reindent (hw : ∀ b ∈ w, Byte.isIndent b = true)
    (h : List.Forall₂ (Behind w) lines lines') (indent : Bytes) :
    (reindent indent lines').map shown = (reindent indent lines).map shown := by
  have hleads := leads_of_behind hw h
  have hmin := min?_map_add w.length ((lines.filter fun l => !isBlank l.text).map lead)
  rw [← hleads] at hmin
  rw [reindent, reindent, commonLead, commonLead, hmin, ← map_shown_move hw h]
  cases hcommon : ((lines.filter fun l => !isBlank l.text).map lead).min? with
  | some common => rfl
  | none =>
    -- every line is blank, and a blank line becomes empty wherever it stands
    rw [List.min?_eq_none_iff] at hcommon
    rw [hcommon, List.map_nil, List.map_eq_nil_iff, List.filter_eq_nil_iff] at hleads
    congr 1
    apply List.map_congr_left
    intro line hline
    have hblank : isBlank line.text = true := by simpa using hleads line hline
    rw [move_of_isBlank hblank, move_of_isBlank hblank]

/-- A blank line takes no number. -/
theorem ofBody_blank (source : Bytes) (n offset o : Nat) (text : Bytes) (ls : List BodyLine) :
    ofBody source n (BodyLine.push ⟨offset, []⟩ ⟨false, text, o⟩ :: ls) =
      ((addPieces source n { origin := (Position.ofOffset source offset).line } true
          (BodyLine.push ⟨offset, []⟩ ⟨false, text, o⟩).pieces).1 :: (ofBody source n ls).1,
        (ofBody source n ls).2) := by
  by_cases htext : text = []
  · simp [ofBody, BodyLine.push, htext, addPieces]
  · simp [ofBody, BodyLine.push, htext, addPieces]

/-- A blank first line is dropped unless it is the only one. -/
theorem dropFirst_ofBody_blank (source : Bytes) (n offset o : Nat) {text : Bytes}
    (hblank : isBlank text = true) {ls : List BodyLine} (hne : ls ≠ []) :
    dropFirst (ofBody source n (BodyLine.push ⟨offset, []⟩ ⟨false, text, o⟩ :: ls)).1 =
      (ofBody source n ls).1 := by
  have hliteral : BodyLine.IsLiteral (BodyLine.push ⟨offset, []⟩ ⟨false, text, o⟩) :=
    BodyLine.IsLiteral.push (by simp [BodyLine.IsLiteral]) rfl
  obtain ⟨htext, hplain⟩ := addPieces_literal source n
    { origin := (Position.ofOffset source offset).line } true hliteral
  have hpieces := BodyLine.text_push ⟨offset, []⟩ ⟨false, text, o⟩
  rw [BodyLine.text] at hpieces
  have hvoid : (addPieces source n { origin := (Position.ofOffset source offset).line } true
      (BodyLine.push ⟨offset, []⟩ ⟨false, text, o⟩).pieces).1.isVoid = true := by
    rw [isVoid, htext, hplain, hpieces]
    simpa [BodyLine.text] using hblank
  obtain ⟨line, more, rfl⟩ := List.exists_cons_of_ne_nil hne
  rw [ofBody_blank, ofBody, dropFirst, if_pos hvoid]
  simp

theorem isBlank_withoutReturn {s : Bytes} (h : isBlank s = true) :
    isBlank (BodyLine.withoutReturn s) = true := by
  obtain ⟨t, hs, rfl | rfl⟩ := BodyLine.withoutReturn_append s
  · rw [List.append_nil] at hs
    rwa [← hs]
  · rw [hs, isBlank, Rune.decode_append_cons (by decide), List.all_append, Bool.and_eq_true] at h
    exact h.1

end FragmentLine

/-! ## Templates -/

/-- The same template, further to the right: `w` is put behind every newline of its literals. -/
structure Template.Indented (w : Bytes) (t t' : Template) : Prop where
  tag : t'.tag = t.tag
  parts : List.Forall₂ (Part.Indented w) t.parts t'.parts

/-- Only white space stands between the opening backtick and the first newline of a literal, if
there is one. -/
def Template.OpensBlank (t : Template) : Prop :=
  (∀ p ∈ t.parts, p.interpolated = false → Byte.newline ∉ p.text) ∨
    ∃ lead more offset rest,
      t.parts = ⟨false, lead ++ Byte.newline :: more, offset⟩ :: rest ∧
        Byte.newline ∉ lead ∧ isBlank lead = true

namespace Template
open FragmentLine
variable {t t' : Template}

/-- A template without newlines stays as it is. -/
theorem Indented.like (h : t.Indented w t')
    (hsingle : ∀ p ∈ t.parts, p.interpolated = false → Byte.newline ∉ p.text) :
    List.Forall₂ (Part.Indented []) t.parts t'.parts := by
  have hparts := (List.forall₂_and_left _ _).2 ⟨hsingle, h.parts⟩
  apply hparts.imp
  rintro p p' ⟨hp, hkind, htext⟩
  refine ⟨hkind, ?_⟩
  cases hi : p.interpolated with
  | true => simpa [hi] using htext
  | false => simpa [hi, indentLines_of_not_mem _ (hp hi)] using htext

/-- Behind a blank first line, all lines of the moved template begin with `w`. -/
theorem Indented.exists_pushed (hw : ∀ b ∈ w, Byte.isIndent b = true) (h : t.Indented w t')
    {lead more : Bytes} {offset : Nat} {rest : List Part}
    (hparts : t.parts = ⟨false, lead ++ Byte.newline :: more, offset⟩ :: rest)
    (hlead : Byte.newline ∉ lead) :
    ∃ offset' ls ls',
      t.bodyLines = BodyLine.push ⟨t.start, []⟩ ⟨false, BodyLine.withoutReturn lead, offset⟩ :: ls ∧
      t'.bodyLines =
        BodyLine.push ⟨t'.start, []⟩ ⟨false, BodyLine.withoutReturn lead, offset'⟩ :: ls' ∧
      ls ≠ [] ∧ List.Forall₂ (BodyLine.Pushed w) ls ls' := by
  have hboth := h.parts
  rw [hparts, List.forall₂_cons_left_iff] at hboth
  obtain ⟨⟨kind, text, offset'⟩, rest', ⟨rfl, rfl⟩, hrest, hparts'⟩ := hboth
  have hnone := newline_not_mem_of_isIndent hw
  obtain ⟨first, texts, hlines, hmoved⟩ := exists_lines_indentLines hnone more
  obtain ⟨hcomplete, hlast⟩ := BodyLine.pushed_addLines_nil hw texts first
    (offset + lead.length + 1) (offset' + lead.length + 1)
  refine ⟨offset', _, _, ?_, ?_, ?_, List.rel_append hcomplete (hlast.ofParts hw hrest)⟩
  · rw [bodyLines, hparts, BodyLine.ofParts_literal _ rfl]
    simp only
    rw [lines_append_newline hlead, BodyLine.addLines_cons_lines, hlines]
    rfl
  · rw [bodyLines, hparts', BodyLine.ofParts_literal _ rfl]
    simp only [Bool.false_eq_true, if_false]
    rw [indentLines_append_newline w hlead, lines_append_newline hlead,
      BodyLine.addLines_cons_lines, lines_append_of_not_mem hnone, hmoved]
    rfl
  · simp [BodyLine.ofParts_ne_nil]

/-- Without its first line when that is blank, the moved template shows the same lines behind `w`,
or the same lines when it has only one. -/
theorem Indented.exists_behind (hw : ∀ b ∈ w, Byte.isIndent b = true) (h : t.Indented w t')
    (hopen : t.OpensBlank) (source source' : Bytes) (n : Nat) :
    ∃ v : Bytes, (∀ b ∈ v, Byte.isIndent b = true) ∧
      List.Forall₂ (Behind v) (dropFirst (ofBody source n t.bodyLines).1)
        (dropFirst (ofBody source' n t'.bodyLines).1) ∧
      (ofBody source' n t'.bodyLines).2 = (ofBody source n t.bodyLines).2 := by
  rcases hopen with hsingle | ⟨lead, more, offset, rest, hparts, hlead, hblank⟩
  · have hstart : BodyLine.Pushed [] ⟨t.start, []⟩ ⟨t'.start, []⟩ := .nothing rfl .nil
    obtain ⟨hlines, hcount⟩ := behind_ofBody source source' (by simp)
      (hstart.ofParts (by simp) (h.like hsingle)) n
    exact ⟨[], by simp, behind_dropFirst (by simp) hlines, hcount⟩
  · obtain ⟨offset', ls, ls', hbody, hbody', hne, hpushed⟩ := h.exists_pushed hw hparts hlead
    obtain ⟨hlines, hcount⟩ := behind_ofBody source source' hw hpushed n
    have hreturn := isBlank_withoutReturn hblank
    refine ⟨w, hw, ?_, ?_⟩
    · rw [hbody, hbody', dropFirst_ofBody_blank source n t.start offset hreturn hne,
        dropFirst_ofBody_blank source' n t'.start offset' hreturn]
      · exact hlines
      · rintro rfl
        exact hne (List.forall₂_nil_right_iff.1 hpushed)
    · rw [hbody, hbody', ofBody_blank, ofBody_blank]
      exact hcount

/-- **The indentation of a component does not matter.** When a template begins with a blank line
and white space is put behind every newline of its literals, its lines show the same texts, in the
same number and with the same placeholder lines. -/
theorem indentation_irrelevant (hw : ∀ b ∈ w, Byte.isIndent b = true) (h : t.Indented w t')
    (hopen : t.OpensBlank) (source source' : Bytes) (counters : Counters) :
    (t'.fragmentLines source' counters).1.map shown =
        (t.fragmentLines source counters).1.map shown ∧
      (t'.fragmentLines source' counters).2 = (t.fragmentLines source counters).2 := by
  obtain ⟨v, hv, hlines, hcount⟩ :=
    h.exists_behind hw hopen source source' counters.placeholders
  have hmoved := map_shown_reindent hv (behind_dropLast hv hlines)
  rw [fragmentLines, fragmentLines, h.tag]
  refine ⟨?_, by simp only [hcount]⟩
  cases t.tag.header counters.selectors with
  | none => exact hmoved []
  | some header =>
    simp only [List.map_append, List.map_cons, List.map_nil, hmoved blockIndent]
    rfl

/-- A component with a declaration, an empty line and an interpolation, at an indentation. -/
def componentSample (w : Bytes) : Bytes :=
  ofString "styled.div`\n" ++ w ++ ofString "  a: 1;\n" ++ w ++ ofString "\n" ++ w ++
    ofString "  $\x7bb\x7d;\n" ++ w ++ ofString "`"

/-- The lines of the component are the same at the margin and behind a tab and a space. -/
theorem componentSample_indentation_irrelevant :
    ∃ t t', Scan.templates (componentSample []) = .ok [t] ∧
      Scan.templates (componentSample [Byte.tab, Byte.space]) = .ok [t'] ∧
      (∀ b ∈ [Byte.tab, Byte.space], Byte.isIndent b = true) ∧
      t.Indented [Byte.tab, Byte.space] t' ∧ t.OpensBlank ∧
      (t'.fragmentLines (componentSample [Byte.tab, Byte.space]) {}).1.map shown =
        (t.fragmentLines (componentSample []) {}).1.map shown ∧
      (t.fragmentLines (componentSample []) {}).1.map shown =
        [(ofString ".selector0 \x7b", false), (ofString "  a: 1;", false), ([], false),
          (ofString "  -styled-mixin0: dummyValue;", true), ([Byte.closeBrace], false)] := by
  have hw : ∀ b ∈ [Byte.tab, Byte.space], Byte.isIndent b = true := by simp [Byte.isIndent]
  have hparts : List.Forall₂ (Part.Indented [Byte.tab, Byte.space])
      [⟨false, Byte.newline :: ofString "  a: 1;\n\n  ", 11⟩, ⟨true, ofString "$\x7bb\x7d", 23⟩,
        ⟨false, ofString ";\n", 27⟩]
      [⟨false, ofString "\n\t   a: 1;\n\t \n\t   ", 11⟩, ⟨true, ofString "$\x7bb\x7d", 29⟩,
        ⟨false, ofString ";\n\t ", 33⟩] :=
    .cons ⟨rfl, by decide +kernel⟩
      (.cons ⟨rfl, by decide +kernel⟩ (.cons ⟨rfl, by decide +kernel⟩ .nil))
  have h : Template.Indented [Byte.tab, Byte.space] ⟨.styled, 10, 29, _⟩ ⟨.styled, 10, 37, _⟩ :=
    ⟨rfl, hparts⟩
  have hopen : ∀ rest, OpensBlank
      ⟨.styled, 10, 29, ⟨false, Byte.newline :: ofString "  a: 1;\n\n  ", 11⟩ :: rest⟩ := by
    intro rest
    exact .inr ⟨[], _, _, rest, rfl, by simp, by decide⟩
  refine ⟨_, _, ?_, ?_, hw, h, hopen _, (indentation_irrelevant hw h (hopen _) _ _ {}).1, ?_⟩
  · decide +kernel
  · decide +kernel
  · decide +kernel

end Template
end TemplateLint
