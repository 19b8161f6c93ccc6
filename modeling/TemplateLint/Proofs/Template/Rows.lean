import Mathlib
import TemplateLint.Proofs.Template.Literal
import TemplateLint.Proofs.Template.WellFormed

/-!
# Which line of a fragment shows which line of a template

A row is a line of a template, piece by piece, together with the text that a fragment has for
every piece. A literal stands for itself and an interpolation is replaced by a placeholder.

The lines of a fragment show rows. Lines are dropped only when they hold no interpolation, and
moving a line to an indentation takes away no more than spaces and tabs at its ends. So the lines
of the templates that hold an interpolation are shown one by one and in their order.
-/
namespace TemplateLint
open Bytes Rune

/-- A piece of a line and the text that stands for it in a fragment. -/
structure Spelling where
  piece : Part
  text : Bytes

namespace Spelling

/-- The text of a row. -/
def spell (row : List Spelling) : Bytes := row.flatMap text

/-- The pieces of a row. -/
def pieces (row : List Spelling) : List Part := row.map piece

/-- The row of pieces that stand behind a text, the interpolations numbered from `n`. `blank` says
that the text holds only filler and placeholders for whole declarations. -/
def ofPieces (n : Nat) (before : Bytes) (blank : Bool) : List Part → List Spelling
  | [] => []
  | piece :: rest =>
    if piece.interpolated then
      let (text, whole) := Placeholder.choose n before blank rest
      ⟨piece, text⟩ :: ofPieces (n + 1) (before ++ text) (blank && whole) rest
    else
      ⟨piece, piece.text⟩ ::
        ofPieces n (before ++ piece.text)
          (blank && (Bytes.trim Placeholder.isFiller piece.text).isEmpty) rest

/-- Whether the text is a placeholder for a whole declaration. The other placeholders do not start
with a hyphen. -/
def isDeclaration (s : Spelling) : Bool :=
  s.piece.interpolated && s.text.head? == some Byte.hyphen

/-- Whether the text is the one of a literal, or a placeholder of an interpolation. -/
structure IsFaithful (s : Spelling) : Prop where
  literal : s.piece.interpolated = false → s.text = s.piece.text
  placeholder : s.piece.interpolated = true → ∃ n, Placeholder.IsText n s.text

variable {n : Nat} {before : Bytes} {blank : Bool} {p : Part} {rest : List Part}

@[simp] theorem spell_nil : spell [] = [] := rfl

@[simp] theorem spell_cons (s : Spelling) (row : List Spelling) :
    spell (s :: row) = s.text ++ spell row := rfl

@[simp] theorem pieces_nil : pieces [] = [] := rfl

@[simp] theorem pieces_cons (s : Spelling) (row : List Spelling) :
    pieces (s :: row) = s.piece :: pieces row := rfl

theorem ofPieces_interpolation (h : p.interpolated = true) :
    ofPieces n before blank (p :: rest) =
      ⟨p, (Placeholder.choose n before blank rest).1⟩ ::
        ofPieces (n + 1) (before ++ (Placeholder.choose n before blank rest).1)
          (blank && (Placeholder.choose n before blank rest).2) rest := by
  rw [ofPieces, if_pos h]

theorem ofPieces_literal (h : p.interpolated = false) :
    ofPieces n before blank (p :: rest) =
      ⟨p, p.text⟩ ::
        ofPieces n (before ++ p.text)
          (blank && (Bytes.trim Placeholder.isFiller p.text).isEmpty) rest := by
  rw [ofPieces, if_neg (by simp [h])]

@[simp] theorem pieces_ofPieces (n : Nat) (before : Bytes) (blank : Bool) (ps : List Part) :
    pieces (ofPieces n before blank ps) = ps := by
  induction ps generalizing n before blank with
  | nil => rfl
  | cons p rest ih =>
    cases h : p.interpolated with
    | true => rw [ofPieces_interpolation h, pieces_cons, ih]
    | false => rw [ofPieces_literal h, pieces_cons, ih]

theorem isFaithful_of_mem_ofPieces (ps : List Part) :
    ∀ s ∈ ofPieces n before blank ps, s.IsFaithful := by
  induction ps generalizing n before blank with
  | nil => simp [ofPieces]
  | cons p rest ih =>
    cases h : p.interpolated with
    | true =>
      rw [ofPieces_interpolation h]
      refine List.forall_mem_cons.2 ⟨⟨by simp [h], ?_⟩, ih⟩
      exact fun _ => ⟨n, Placeholder.isText_choose n before blank rest⟩
    | false =>
      rw [ofPieces_literal h]
      exact List.forall_mem_cons.2 ⟨⟨fun _ => rfl, by simp [h]⟩, ih⟩

/-- A placeholder stands for a whole declaration exactly when it is chosen so. -/
theorem head?_choose (n : Nat) (before : Bytes) (blank : Bool) (ps : List Part) :
    ((Placeholder.choose n before blank ps).1.head? == some Byte.hyphen) =
      (Placeholder.choose n before blank ps).2 := by
  unfold Placeholder.choose
  dsimp only
  split
  · rfl
  · split
    · rfl
    · split <;> rfl

theorem isDeclaration_choose (h : p.interpolated = true) :
    isDeclaration ⟨p, (Placeholder.choose n before blank rest).1⟩ =
      (Placeholder.choose n before blank rest).2 := by
  rw [isDeclaration, head?_choose, h, Bool.true_and]

theorem isDeclaration_literal (h : p.interpolated = false) (text : Bytes) :
    isDeclaration ⟨p, text⟩ = false := by
  rw [isDeclaration, h, Bool.false_and]

/-- The row of a line: nothing stands before its pieces, and their texts are valid. -/
def IsRow (row : List Spelling) : Prop :=
  ∃ n ps, row = ofPieces n [] true ps ∧ ∀ p ∈ ps, isUtf8 p.text = true

theorem isRow_nil : IsRow [] := ⟨0, [], rfl, by simp⟩

theorem isUtf8_of_isFaithful {s : Spelling} (h : s.IsFaithful) (hvalid : isUtf8 s.piece.text) :
    isUtf8 s.text = true := by
  cases hi : s.piece.interpolated with
  | true =>
    obtain ⟨n, ht⟩ := h.placeholder hi
    exact isUtf8_of_ascii (Placeholder.ascii_of_isText ht)
  | false => rwa [h.literal hi]

theorem isUtf8_of_mem {row : List Spelling} (hrow : IsRow row) :
    ∀ s ∈ row, isUtf8 s.text = true := by
  obtain ⟨n, ps, rfl, hvalid⟩ := hrow
  intro s hs
  refine isUtf8_of_isFaithful (isFaithful_of_mem_ofPieces ps s hs) (hvalid _ ?_)
  rw [← pieces_ofPieces n [] true ps]
  exact List.mem_map_of_mem hs

theorem isBlank_of_mem_row {row : List Spelling} (hvalid : ∀ s ∈ row, isUtf8 s.text = true)
    (h : isBlank (spell row) = true) : ∀ s ∈ row, isBlank s.text = true := by
  induction row with
  | nil => simp
  | cons s row ih =>
    rw [List.forall_mem_cons] at hvalid
    rw [isBlank, spell_cons, decode_append hvalid.1, List.all_append, Bool.and_eq_true] at h
    exact List.forall_mem_cons.2 ⟨h.1, ih hvalid.2 h.2⟩

theorem isBlank_of_isText {n : Nat} {text : Bytes} (h : Placeholder.IsText n text) :
    isBlank text = false := by
  obtain ⟨a, _, hhead, -, ha, -⟩ := Placeholder.ends_of_isText h
  obtain ⟨behind, rfl⟩ := List.head?_eq_some_iff.1 hhead
  have hascii : a < 0x80 := Placeholder.ascii_of_isText h a (by simp)
  rw [isBlank, decode_ascii_cons hascii, List.all_cons]
  rcases ha with rfl | rfl | rfl <;> rfl

/-- A row with an interpolation shows more than white space. -/
theorem isBlank_spell {row : List Spelling} (hrow : IsRow row)
    (h : (pieces row).any (·.interpolated) = true) : isBlank (spell row) = false := by
  rw [Bool.eq_false_iff]
  intro hblank
  have hall := isBlank_of_mem_row (isUtf8_of_mem hrow) hblank
  obtain ⟨n, ps, rfl, -⟩ := hrow
  obtain ⟨p, hp, hi⟩ := List.any_eq_true.1 h
  obtain ⟨s, hs, rfl⟩ := List.mem_map.1 hp
  obtain ⟨m, ht⟩ := (isFaithful_of_mem_ofPieces ps s hs).placeholder hi
  simpa [isBlank_of_isText ht] using hall s hs

/-- The lines with an interpolation that rows show. -/
def shownLines (rows : List (List Spelling)) : List (List Part) :=
  (rows.map pieces).filter fun ps => ps.any (·.interpolated)

end Spelling

/-- The lines of a template that hold an interpolation. -/
def Template.interpolatedLines (t : Template) : List (List Part) :=
  (t.bodyLines.map BodyLine.pieces).filter fun ps => ps.any (·.interpolated)

namespace FragmentLine
open Spelling
variable {line : FragmentLine} {row : List Spelling} {lines : List FragmentLine}
  {rows : List (List Spelling)}

/-! ## Building the lines -/

/-- A line made of a row. -/
structure Spelled (line : FragmentLine) (row : List Spelling) : Prop where
  isRow : IsRow row
  text : line.text = spell row
  placeholder : line.placeholder = row.any isDeclaration

/-- Pieces add the text of their row to a line. -/
theorem text_addPieces (source : Bytes) (n : Nat) (line : FragmentLine) (blank : Bool)
    (ps : List Part) :
    (addPieces source n line blank ps).1.text =
      line.text ++ spell (ofPieces n line.text blank ps) := by
  induction ps generalizing n line blank with
  | nil => simp [addPieces, ofPieces]
  | cons p rest ih =>
    rw [addPieces]
    cases h : p.interpolated with
    | true =>
      rw [ofPieces_interpolation h, spell_cons, ← List.append_assoc]
      exact ih _ _ _
    | false =>
      rw [ofPieces_literal h, spell_cons, ← List.append_assoc]
      exact ih _ _ _

/-- A line stands for a whole declaration when one of its pieces does. -/
theorem placeholder_addPieces (source : Bytes) (n : Nat) (line : FragmentLine) (blank : Bool)
    (ps : List Part) :
    (addPieces source n line blank ps).1.placeholder =
      (line.placeholder || (ofPieces n line.text blank ps).any isDeclaration) := by
  induction ps generalizing n line blank with
  | nil => simp [addPieces, ofPieces]
  | cons p rest ih =>
    rw [addPieces]
    cases h : p.interpolated with
    | true =>
      rw [ofPieces_interpolation h, List.any_cons, isDeclaration_choose h, ← Bool.or_assoc]
      exact ih _ _ _
    | false =>
      rw [ofPieces_literal h, List.any_cons, isDeclaration_literal h, Bool.false_or]
      exact ih _ _ _

/-- The lines of a body are made of the rows of its lines. -/
theorem exists_rows_ofBody (source : Bytes) {body : List BodyLine}
    (h : ∀ l ∈ body, ∀ p ∈ l.pieces, isUtf8 p.text = true) (n : Nat) :
    ∃ rows, List.Forall₂ Spelled (ofBody source n body).1 rows ∧
      rows.map pieces = body.map BodyLine.pieces := by
  induction body generalizing n with
  | nil => exact ⟨[], .nil, rfl⟩
  | cons l body ih =>
    rw [List.forall_mem_cons] at h
    obtain ⟨rows, hrows, hpieces⟩ := ih h.2
      (addPieces source n { origin := (Position.ofOffset source l.offset).line } true l.pieces).2
    refine ⟨ofPieces n [] true l.pieces :: rows, .cons ⟨⟨n, _, rfl, h.1⟩, ?_, ?_⟩ hrows, ?_⟩
    · rw [text_addPieces, List.nil_append]
    · rw [placeholder_addPieces, Bool.false_or]
    · rw [List.map_cons, List.map_cons, pieces_ofPieces, hpieces]

/-! ## Dropping and moving lines -/

/-- A void line holds no interpolation. -/
theorem Spelled.shownLines_of_isVoid (h : line.Spelled row) (hvoid : line.isVoid = true) :
    shownLines [row] = [] := by
  rw [isVoid, Bool.and_eq_true, h.text] at hvoid
  cases hi : (pieces row).any (·.interpolated) with
  | true =>
    have hblank := isBlank_spell h.isRow hi
    simp [hblank] at hvoid
  | false => simp [shownLines, hi]

theorem shownLines_append (rows others : List (List Spelling)) :
    shownLines (rows ++ others) = shownLines rows ++ shownLines others := by
  simp [shownLines]

theorem exists_rows_dropFirst (h : List.Forall₂ Spelled lines rows) :
    ∃ kept, List.Forall₂ Spelled (dropFirst lines) kept ∧
      shownLines kept = shownLines rows := by
  fun_cases dropFirst lines with
  | case1 => exact ⟨rows, h, rfl⟩
  | case2 line => exact ⟨rows, h, rfl⟩
  | case3 line rest _ hvoid =>
    obtain ⟨row, rows, hl, hrest, rfl⟩ := List.forall₂_cons_left_iff.1 h
    refine ⟨rows, hrest, ?_⟩
    rw [← List.singleton_append, shownLines_append, hl.shownLines_of_isVoid hvoid,
      List.nil_append]
  | case4 line rest _ hvoid => exact ⟨rows, h, rfl⟩

theorem exists_rows_dropLast (h : List.Forall₂ Spelled lines rows) :
    ∃ kept, List.Forall₂ Spelled (FragmentLine.dropLast lines) kept ∧
      shownLines kept = shownLines rows := by
  fun_cases FragmentLine.dropLast lines with
  | case1 line hlast hvoid =>
    obtain ⟨rest, rfl⟩ := List.getLast?_eq_some_iff.1 hlast
    have hrest := List.forall₂_take_append rows rest [line] h.flip
    have hline := List.forall₂_drop_append rows rest [line] h.flip
    obtain ⟨row, none, hl, hnone, heq⟩ := List.forall₂_cons_right_iff.1 hline
    rw [List.forall₂_nil_right_iff] at hnone
    refine ⟨rows.take rest.length, ?_, ?_⟩
    · rw [List.dropLast_concat]
      exact hrest.flip
    · conv_rhs => rw [← List.take_append_drop rest.length rows, heq, hnone]
      rw [shownLines_append, hl.shownLines_of_isVoid hvoid, List.append_nil]
  | case2 line hlast hvoid => exact ⟨rows, h, rfl⟩
  | case3 hlast =>
    rw [List.getLast?_eq_none_iff] at hlast
    subst hlast
    exact ⟨rows, h, rfl⟩

/-- A text that is a row at an indentation of its own. -/
def Resembles (text : Bytes) (row : List Spelling) : Prop :=
  ∃ indent lead inner tail, text = indent ++ inner ∧ spell row = lead ++ inner ++ tail ∧
    ∀ b ∈ indent ++ lead ++ tail, Byte.isIndent b = true

/-- A line that shows a row. -/
structure Shows (line : FragmentLine) (row : List Spelling) : Prop where
  isRow : IsRow row
  text : (pieces row).any (·.interpolated) = true → Resembles line.text row
  placeholder : line.placeholder = row.any isDeclaration

theorem isIndent_of_mem_take {common : Nat} (h : common ≤ line.lead) :
    ∀ b ∈ line.text.take common, Byte.isIndent b = true := by
  have hlead : line.text.take common <+: line.text.takeWhile Byte.isIndent := by
    rw [List.prefix_iff_eq_take.1 (List.takeWhile_prefix Byte.isIndent)]
    exact List.take_prefix_take_left h
  intro b hb
  exact List.mem_takeWhile_imp (hlead.subset hb)

/-- Moving a line takes away spaces and tabs only. -/
theorem Spelled.move (h : line.Spelled row) {indent : Bytes}
    (hindent : ∀ b ∈ indent, Byte.isIndent b = true) {common : Nat}
    (hcommon : isBlank line.text = false → common ≤ line.lead) :
    (line.move indent common).Shows row where
  isRow := h.isRow
  text := by
    intro hi
    have hblank : isBlank line.text = false := by rw [h.text, isBlank_spell h.isRow hi]
    obtain ⟨tail, heq, htail⟩ :=
      exists_trimRight_append Byte.isIndent (line.text.drop common)
    refine ⟨indent, line.text.take common, trimRight Byte.isIndent (line.text.drop common), tail,
      ?_, ?_, ?_⟩
    · rw [move_of_not_isBlank hblank]
    · rw [List.append_assoc, ← heq, List.take_append_drop, h.text]
    · simp only [List.forall_mem_append]
      exact ⟨⟨hindent, isIndent_of_mem_take (hcommon hblank)⟩, htail⟩
  placeholder := by rw [placeholder_move, h.placeholder]

theorem shows_reindent (h : List.Forall₂ Spelled lines rows) {indent : Bytes}
    (hindent : ∀ b ∈ indent, Byte.isIndent b = true) :
    List.Forall₂ Shows (reindent indent lines) rows := by
  have key : ∀ common, (∀ l ∈ lines, isBlank l.text = false → common ≤ l.lead) →
      List.Forall₂ Shows (lines.map (FragmentLine.move indent common)) rows := by
    intro common hcommon
    induction h with
    | nil => exact .nil
    | cons hl _ ih =>
      rw [List.forall_mem_cons] at hcommon
      exact .cons (hl.move hindent hcommon.1) (ih hcommon.2)
  exact key _ fun l hl => commonLead_le hl

/-- A wrapping line shows no piece of a template. -/
theorem shows_wrapper (source text : Bytes) (offset : Nat) :
    (wrapper source text offset).Shows [] where
  isRow := isRow_nil
  text := by simp
  placeholder := rfl

end FragmentLine

open FragmentLine Spelling

/-! ## The lines of a source -/

/-- The lines of a template show its lines with an interpolation. -/
theorem Template.LiesIn.exists_rows {source : Bytes} {t : Template} (h : t.LiesIn source)
    (hv : isUtf8 source) (counters : Counters) :
    ∃ rows, List.Forall₂ Shows (t.fragmentLines source counters).1 rows ∧
      shownLines rows = t.interpolatedLines := by
  have hvalid : ∀ l ∈ t.bodyLines, ∀ p ∈ l.pieces, isUtf8 p.text = true := by
    intro l hl p hp
    obtain ⟨stop, hlaid⟩ := h.laidIn_bodyLines hv l hl
    exact (hlaid.sits p hp).valid
  obtain ⟨rows, hrows, hpieces⟩ := exists_rows_ofBody source hvalid counters.placeholders
  obtain ⟨first, hfirst, hfirstLines⟩ := exists_rows_dropFirst hrows
  obtain ⟨body, hbody, hbodyLines⟩ := exists_rows_dropLast hfirst
  have hlines : shownLines body = t.interpolatedLines := by
    rw [hbodyLines, hfirstLines, shownLines, hpieces, Template.interpolatedLines]
  rw [Template.fragmentLines]
  cases t.tag.header counters.selectors with
  | none => exact ⟨body, shows_reindent hbody (by simp), hlines⟩
  | some header =>
    have hindent : ∀ b ∈ blockIndent, Byte.isIndent b = true := by decide +kernel
    refine ⟨[] :: body ++ [[]], ?_, ?_⟩
    · exact List.rel_append (.cons (shows_wrapper source header t.start)
        (shows_reindent hbody hindent)) (.cons (shows_wrapper source _ t.stop) .nil)
    · rw [← hlines]
      simp [shownLines]

/-- The lines of templates show their lines with an interpolation. -/
theorem Fragment.exists_rows_linesOf {source : Bytes} (hv : isUtf8 source)
    {templates : List Template} (h : ∀ t ∈ templates, t.LiesIn source) (counters : Counters) :
    ∃ rows, List.Forall₂ Shows (linesOf source counters templates) rows ∧
      shownLines rows = templates.flatMap Template.interpolatedLines := by
  induction templates generalizing counters with
  | nil => exact ⟨[], .nil, rfl⟩
  | cons t rest ih =>
    rw [List.forall_mem_cons] at h
    obtain ⟨first, hfirst, hlines⟩ := h.1.exists_rows hv counters
    obtain ⟨rows, hrows, hrest⟩ := ih h.2 (t.fragmentLines source counters).2
    refine ⟨first ++ rows, List.rel_append hfirst hrows, ?_⟩
    rw [shownLines_append, hlines, hrest, List.flatMap_cons]

end TemplateLint
