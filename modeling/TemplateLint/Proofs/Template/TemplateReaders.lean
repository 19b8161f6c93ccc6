import Mathlib
import TemplateLint.Proofs.Position
import TemplateLint.Proofs.Template.CodeReaders

/-!
# Readers of templates

The readers of templates and of interpolations call each other, as deep as a source nests them. Each
returns when both do from every place further on, so both return by induction on the calls that they
are allowed: a few more than the bytes that are left are enough. What they return is tied to the
machine: where a reader stands when it has read a construct, the machine has closed it, and a reader
that fails names the construct that the machine has on top of its stack at the end. So the readers
find what the machine finds, and fail where it fails.
-/
namespace TemplateLint.Scan.Descent
open Bytes

/-! ## Positions -/

theorem lineStarts_append (pos : Nat) (a b : Bytes) :
    lineStarts pos (a ++ b) = lineStarts pos a ++ lineStarts (pos + a.length) b := by
  induction a generalizing pos with
  | nil => rfl
  | cons c a ih =>
    have hpos : pos + (c :: a).length = pos + 1 + a.length := by rw [List.length_cons]; omega
    rw [List.cons_append, lineStarts, lineStarts, ih, hpos]
    split <;> rfl

theorem mem_lineStarts {pos start : Nat} {s : Bytes} (h : start ∈ lineStarts pos s) :
    pos < start ∧ start ≤ pos + s.length := by
  induction s generalizing pos with
  | nil => cases h
  | cons b s ih =>
    rw [List.length_cons]
    rw [lineStarts] at h
    split at h
    · rcases List.mem_cons.1 h with rfl | h
      · omega
      · have := ih h
        omega
    · have := ih h
      omega

theorem length_lineStarts (pos : Nat) (s : Bytes) :
    (lineStarts pos s).length = s.count Byte.newline := by
  induction s generalizing pos with
  | nil => rfl
  | cons b s ih =>
    rw [lineStarts]
    split_ifs with hb
    · rw [hb, List.length_cons, ih, List.count_cons_self]
    · rw [ih, List.count_cons_of_ne hb]

/-- The line that a text ends in starts behind its last newline. -/
theorem exists_lineStart (a : Bytes) :
    ∃ start, (0 :: lineStarts 0 a).getLast? = some start ∧ start ≤ a.length ∧
      Position.start.after a = ⟨a.count Byte.newline + 1, runeCount (a.drop start) + 1⟩ := by
  by_cases hnewline : Byte.newline ∈ a
  · obtain ⟨y, x, hsplit, hy⟩ := List.eq_append_cons_of_mem (List.mem_reverse.2 hnewline)
    have ha : a = x.reverse ++ Byte.newline :: y.reverse := by
      rw [← List.reverse_reverse a, hsplit]
      simp
    have hrest : Byte.newline ∉ y.reverse := by simpa using hy
    have hnone (pos : Nat) : lineStarts pos y.reverse = [] := by
      rw [← List.length_eq_zero_iff, length_lineStarts, List.count_eq_zero_of_not_mem hrest]
    refine ⟨x.reverse.length + 1, ?_, ?_, ?_⟩
    · rw [ha, lineStarts_append, lineStarts, if_pos rfl, hnone, ← List.cons_append,
        List.getLast?_concat, Nat.zero_add]
    · rw [ha, List.length_append, List.length_cons]
      omega
    · have hdrop : a.drop (x.reverse.length + 1) = y.reverse := by
        rw [ha, List.drop_length_add_append]
        rfl
      rw [hdrop, ha, Position.after_append_newline, Position.after_of_not_mem _ hrest,
        Position.line_after, List.count_append, List.count_cons_self,
        List.count_eq_zero_of_not_mem hrest]
      simp only [Position.start, Position.mk.injEq]
      omega
  · have hnone : lineStarts 0 a = [] := by
      rw [← List.length_eq_zero_iff, length_lineStarts, List.count_eq_zero_of_not_mem hnewline]
    refine ⟨0, by rw [hnone]; rfl, Nat.zero_le _, ?_⟩
    rw [Position.after_of_not_mem _ hnewline, List.count_eq_zero_of_not_mem hnewline,
      List.drop_zero, Nat.add_comm]
    rfl

theorem locate_eq {source : Bytes} {offset : Nat} (h : offset ≤ source.length) :
    locate source offset = pure (Position.ofOffset source offset) := by
  obtain ⟨start, hlast, hstart, hposition⟩ := exists_lineStart (source.take offset)
  rw [List.length_take_of_le h] at hstart
  have hstarts : 0 :: lineStarts 0 source =
      (0 :: lineStarts 0 (source.take offset)) ++ lineStarts offset (source.drop offset) := by
    conv_lhs => rw [← List.take_append_drop offset source]
    rw [lineStarts_append, List.length_take_of_le h, Nat.zero_add, List.cons_append]
  -- the lines that start up to the offset come first, all others start behind it
  have hline : (0 :: lineStarts 0 source).findIdx (offset < ·) =
      (source.take offset).count Byte.newline + 1 := by
    have hfirst : (0 :: lineStarts 0 (source.take offset)).findIdx (offset < ·) =
        (0 :: lineStarts 0 (source.take offset)).length := by
      rw [List.findIdx_eq_length]
      intro x hx
      rcases List.mem_cons.1 hx with rfl | hx
      · simp
      · have := mem_lineStarts hx
        rw [List.length_take_of_le h] at this
        simpa using this.2
    have hrest : (lineStarts offset (source.drop offset)).findIdx (offset < ·) = 0 := by
      cases hcases : lineStarts offset (source.drop offset) with
      | nil => rfl
      | cons x xs =>
        have := mem_lineStarts (hcases ▸ List.mem_cons_self : x ∈ lineStarts offset _)
        rw [List.findIdx_cons, decide_eq_true this.1]
        rfl
    rw [hstarts, List.findIdx_append, hfirst, if_neg (Nat.lt_irrefl _), hrest, Nat.zero_add,
      List.length_cons, length_lineStarts]
  have helement : (0 :: lineStarts 0 source)[(source.take offset).count Byte.newline]? =
      some start := by
    rw [hstarts, List.getElem?_append_left (by rw [List.length_cons, length_lineStarts]; omega),
      ← hlast, List.getLast?_eq_getElem?, List.length_cons, length_lineStarts, Nat.add_sub_cancel]
  rw [locate, hline]
  simp only
  rw [elementAt_eq helement, pure_bind, slice_eq hstart h, pure_bind, Position.ofOffset, hposition]

/-! ## What the machine says -/

/-- The innermost construct that an outcome leaves open. -/
def LeavesOpen (o : List Frame × List Template) (u : Unclosed) : Prop :=
  o.1.head?.map Frame.unclosed = some u

/-- The failure for a construct of a source. -/
def Failure.ofUnclosed (source : Bytes) (u : Unclosed) : Failure :=
  ⟨u, Position.ofOffset source u.offset⟩

/-- The templates that are found once a template has been read. -/
def Untagged.onto (t : Untagged) (found : List Template) : Option Tag → List Template
  | some tag => ⟨tag, t.start, t.stop, t.parts⟩ :: found
  | none => found

section Machine
variable {source : Bytes} {pos : Nat} {b : UInt8}

theorem textSince_upTo (h : pos ≤ source.length) (mode : Mode) (stack : List Frame)
    (found : List Template) (start : Nat) :
    (State.upTo source pos mode stack found).textSince start = (source.take pos).drop start := by
  have hsource : (State.upTo source pos mode stack found).source = source.take pos :=
    List.reverse_reverse _
  rw [State.textSince_eq (by rw [hsource, List.length_take_of_le h]; rfl), hsource]

/-- A backtick of code. -/
theorem outcome_openTemplate (h : source[pos]? = some Byte.backtick) (regex : Bool)
    (stack : List Frame) (found : List Template) :
    outcome source pos (.code regex) stack found = outcome source (pos + 1) .text
      (.template pos (if stack.isEmpty then Tag.behind? (source.take pos).reverse else none) []
        (pos + 1) :: stack) found :=
  outcome_read h _ _ _ rfl

/-- A backtick that closes a template. -/
theorem outcome_closeTemplate (h : source[pos]? = some Byte.backtick) (start textStart : Nat)
    (tag : Option Tag) (parts : List Part) (outer : List Frame) (found : List Template) :
    outcome source pos .text (.template start tag parts.reverse textStart :: outer) found =
      outcome source (pos + 1) (.code false) outer (Untagged.onto ⟨start, pos,
        parts ++ [⟨false, (source.take pos).drop textStart, textStart⟩]⟩ found tag) := by
  have htext := textSince_upTo (lt_of_getElem? h).le .text
    (.template start tag parts.reverse textStart :: outer) found textStart
  have hparts (p : Part) : parts ++ [p] = (p :: parts.reverse).reverse := by
    rw [List.reverse_cons, List.reverse_reverse]
  rw [hparts, ← htext]
  cases tag <;> exact outcome_read h _ _ _ rfl

/-- A dollar sign and a brace that start an interpolation. -/
theorem outcome_startInterpolation (h : source[pos]? = some Byte.dollar)
    (hnext : source[pos + 1]? = some Byte.openBrace) (start textStart : Nat) (tag : Option Tag)
    (parts : List Part) (outer : List Frame) (found : List Template) :
    outcome source pos .text (.template start tag parts.reverse textStart :: outer) found =
      outcome source (pos + 2) (.code true) (.interpolation pos 1 :: .template start tag
        (⟨false, (source.take pos).drop textStart, textStart⟩ :: parts.reverse) pos :: outer)
        found := by
  have htext := textSince_upTo (lt_of_getElem? h).le .text
    (.template start tag parts.reverse textStart :: outer) found textStart
  have hread : (State.upTo source pos .text (.template start tag parts.reverse textStart :: outer)
      found).read Byte.dollar source[pos + 1]? = State.startInterpolation (State.upTo source pos
        .text (.template start tag parts.reverse textStart :: outer) found) Byte.dollar := by
    rw [hnext]
    rfl
  rw [outcome_read h _ _ _ hread, ← htext]
  exact outcome_onward rfl _ _ _ _

/-- A byte of literal text that means nothing else. -/
theorem outcome_text (h : source[pos]? = some b) (hbackslash : b ≠ Byte.backslash)
    (hbacktick : b ≠ Byte.backtick)
    (hdollar : ¬ (b = Byte.dollar ∧ source[pos + 1]? = some Byte.openBrace)) (stack : List Frame)
    (found : List Template) :
    outcome source pos .text stack found = outcome source (pos + 1) .text stack found := by
  refine outcome_move h ?_
  change State.readText _ b _ = _
  rw [State.readText, if_neg hbacktick, textMode, if_neg hbackslash,
    if_neg (by simpa using hdollar)]

/-- A backslash of literal text takes the next byte. -/
theorem outcome_escape (h : source[pos]? = some Byte.backslash) (stack : List Frame)
    (found : List Template) :
    outcome source pos .text stack found = outcome source (pos + 2) .text stack found := by
  have hmove : outcome source pos .text stack found =
      outcome source (pos + 1) .textEscape stack found := outcome_move h rfl
  rw [hmove]
  exact outcome_onward rfl _ _ _ _

theorem outcome_openBrace (h : source[pos]? = some Byte.openBrace) (regex : Bool)
    (start depth : Nat) (outer : List Frame) (found : List Template) :
    outcome source pos (.code regex) (.interpolation start depth :: outer) found =
      outcome source (pos + 1) (.code true) (.interpolation start (depth + 1) :: outer) found :=
  outcome_read h _ _ _ rfl

theorem outcome_closeBrace (h : source[pos]? = some Byte.closeBrace) (regex : Bool)
    (start depth : Nat) (outer : List Frame) (found : List Template) :
    outcome source pos (.code regex) (.interpolation start (depth + 2) :: outer) found =
      outcome source (pos + 1) (.code true) (.interpolation start (depth + 1) :: outer) found :=
  outcome_read h _ _ _ rfl

/-- A brace that closes an interpolation. -/
theorem outcome_endInterpolation (h : source[pos]? = some Byte.closeBrace) (regex : Bool)
    (start opened textStart : Nat) (tag : Option Tag) (parts : List Part) (outer : List Frame)
    (found : List Template) :
    outcome source pos (.code regex)
        (.interpolation start 1 :: .template opened tag parts textStart :: outer) found =
      outcome source (pos + 1) .text (.template opened tag
        (⟨true, (source.take (pos + 1)).drop start, start⟩ :: parts) (pos + 1) :: outer) found := by
  have htext : (State.move (State.upTo source pos (.code regex)
      (.interpolation start 1 :: .template opened tag parts textStart :: outer) found)
      Byte.closeBrace .text).textSince start = (source.take (pos + 1)).drop start := by
    have hsource : (State.move (State.upTo source pos (.code regex)
        (.interpolation start 1 :: .template opened tag parts textStart :: outer) found)
        Byte.closeBrace .text).source = source.take (pos + 1) := by
      rw [State.source_move, List.take_add_one, h]
      exact congrArg (· ++ [Byte.closeBrace]) (List.reverse_reverse _)
    rw [State.textSince_eq (by rw [hsource, List.length_take_of_le (lt_of_getElem? h)]; rfl),
      hsource]
  rw [← htext]
  exact outcome_read h _ _ _ rfl

end Machine

/-! ## Templates and interpolations -/

/-- What the reader of a template may return when it stands in the literal text. It is past the
closing backtick, and the machine has found the template there. Or it is at the end of the source,
with a construct that the machine has on top of its stack there. -/
inductive TextReturns (source : Bytes) (start : Nat) (parts : List Part) (textStart : Nat)
    (c : Cursor) : Cursor × Except Failure Untagged → Prop
  | closed (c' : Cursor) (t : Untagged) (forward : c.pos < c'.pos)
      (bounded : c'.pos ≤ source.length)
      (agrees : ∀ tag outer found,
        outcome source c.pos .text (.template start tag parts.reverse textStart :: outer) found =
          outcome source c'.pos (.code c'.regex) outer (t.onto found tag)) :
      TextReturns source start parts textStart c (c', .ok t)
  | failed (c' : Cursor) (u : Unclosed) (ended : source.length ≤ c'.pos)
      (bounded : c'.pos ≤ source.length + 1)
      (agrees : ∀ tag outer found, LeavesOpen
        (outcome source c.pos .text (.template start tag parts.reverse textStart :: outer) found)
        u) :
      TextReturns source start parts textStart c (c', .error (.ofUnclosed source u))

/-- What the reader of an interpolation may return when `depth` braces are open in it. -/
inductive ExpressionReturns (source : Bytes) (depth : Nat) (c : Cursor) :
    Cursor × Ending → Prop
  | closed (c' : Cursor) (forward : c.pos < c'.pos) (bounded : c'.pos ≤ source.length)
      (agrees : ∀ start opened tag parts textStart outer found,
        outcome source c.pos (.code c.regex)
            (.interpolation start depth :: .template opened tag parts textStart :: outer) found =
          outcome source c'.pos .text (.template opened tag
            (⟨true, (source.take c'.pos).drop start, start⟩ :: parts) c'.pos :: outer) found) :
      ExpressionReturns source depth c (c', .closed)
  | unterminated (c' : Cursor) (ended : source.length ≤ c'.pos)
      (bounded : c'.pos ≤ source.length + 1)
      (agrees : ∀ start outer found, LeavesOpen
        (outcome source c.pos (.code c.regex) (.interpolation start depth :: outer) found)
        (.interpolation start)) :
      ExpressionReturns source depth c (c', .unterminated)
  | failed (c' : Cursor) (u : Unclosed) (ended : source.length ≤ c'.pos)
      (bounded : c'.pos ≤ source.length + 1)
      (agrees : ∀ start outer found, LeavesOpen
        (outcome source c.pos (.code c.regex) (.interpolation start depth :: outer) found) u) :
      ExpressionReturns source depth c (c', .failed (.ofUnclosed source u))

section Readers
variable {source : Bytes} {calls start textStart textStart' depth depth' : Nat}
  {parts parts' : List Part} {c d : Cursor}

/-- A template may be read from further on, when the machine goes there. -/
theorem TextReturns.of_outcome {r : Cursor × Except Failure Untagged}
    (h : TextReturns source start parts' textStart' d r) (hpos : c.pos < d.pos)
    (hmachine : ∀ tag outer found,
      outcome source c.pos .text (.template start tag parts.reverse textStart :: outer) found =
        outcome source d.pos .text (.template start tag parts'.reverse textStart' :: outer) found) :
    TextReturns source start parts textStart c r := by
  cases h with
  | closed c' t forward bounded agrees =>
    refine .closed c' t (by omega) bounded fun tag outer found => ?_
    rw [hmachine, agrees]
  | failed c' u ended bounded agrees =>
    refine .failed c' u ended bounded fun tag outer found => ?_
    rw [hmachine]
    exact agrees tag outer found

theorem ExpressionReturns.of_outcome {r : Cursor × Ending}
    (h : ExpressionReturns source depth' d r) (hpos : c.pos < d.pos)
    (hmachine : ∀ start outer found,
      outcome source c.pos (.code c.regex) (.interpolation start depth :: outer) found =
        outcome source d.pos (.code d.regex) (.interpolation start depth' :: outer) found) :
    ExpressionReturns source depth c r := by
  cases h with
  | closed c' forward bounded agrees =>
    refine .closed c' (by omega) bounded fun start opened tag parts textStart outer found => ?_
    rw [hmachine, agrees]
  | unterminated c' ended bounded agrees =>
    refine .unterminated c' ended bounded fun start outer found => ?_
    rw [hmachine]
    exact agrees start outer found
  | failed c' u ended bounded agrees =>
    refine .failed c' u ended bounded fun start outer found => ?_
    rw [hmachine]
    exact agrees start outer found

/-- The reader of templates returns from an offset on. -/
def TextReaderReturns (source : Bytes) (calls pos : Nat) : Prop :=
  ∀ regex start parts textStart, start ≤ source.length → textStart ≤ pos →
    ∃ r, textEnd source calls start parts textStart ⟨pos, regex⟩ = pure r ∧
      TextReturns source start parts textStart ⟨pos, regex⟩ r

/-- The reader of interpolations returns from an offset on. -/
def ExpressionReaderReturns (source : Bytes) (calls pos : Nat) : Prop :=
  ∀ regex depth, ∃ r, expressionEnd source calls (depth + 1) ⟨pos, regex⟩ = pure r ∧
    ExpressionReturns source (depth + 1) ⟨pos, regex⟩ r

variable {pos : Nat}

/-- The reader of templates returns when both readers do further on. -/
theorem textReaderReturns_of (hpos : pos ≤ source.length + 1)
    (htext : ∀ next, pos < next → next ≤ source.length + 1 → TextReaderReturns source calls next)
    (hexpression : ∀ next, pos < next → next ≤ source.length + 1 →
      ExpressionReaderReturns source calls next) :
    TextReaderReturns source (calls + 1) pos := by
  intro regex start parts textStart hstart htextStart
  rw [textEnd]
  simp only
  split_ifs with hlt
  · obtain ⟨b, hb⟩ := exists_getElem? hlt
    simp only [elementAt_eq hb, holdsAt_eq, slice_eq htextStart hlt.le, pure_bind]
    split_ifs with hescape hcloses hopens
    · obtain ⟨r, hr, hreturns⟩ := htext (pos + 2) (by omega) (by omega) regex start parts
        textStart hstart (by omega)
      exact ⟨r, hr, hreturns.of_outcome (by simp) fun _ _ _ => outcome_escape (hescape ▸ hb) _ _⟩
    · exact ⟨_, rfl, .closed _ _ (by simp) hlt fun _ _ _ =>
        outcome_closeTemplate (hcloses ▸ hb) _ _ _ _ _ _⟩
    · simp only [Bool.and_eq_true, decide_eq_true_eq] at hopens
      obtain ⟨hdollar, hbrace⟩ := hopens
      have hnext := lt_of_getElem? hbrace
      have hstarts := outcome_startInterpolation (hdollar ▸ hb) hbrace start textStart
      obtain ⟨⟨c', ending⟩, hr, hreturns⟩ := hexpression (pos + 2) (by omega) (by omega) true 0
      rw [hr, pure_bind]
      cases hreturns with
      | closed _ forward bounded agrees =>
        -- the text before the interpolation and the interpolation are two more parts
        have hforward : pos + 2 < c'.pos := forward
        obtain ⟨r, hr', hrest⟩ := htext c'.pos (by omega) (by omega) c'.regex start
          (parts ++ [⟨false, (source.take pos).drop textStart, textStart⟩,
            ⟨true, (source.take c'.pos).drop pos, pos⟩]) c'.pos hstart (Nat.le_refl _)
        simp only [slice_eq (by omega : pos ≤ c'.pos) bounded, pure_bind]
        refine ⟨r, hr', hrest.of_outcome (by simp only; omega) fun tag outer found => ?_⟩
        rw [hstarts, agrees]
        simp
      | unterminated _ ended bounded agrees =>
        simp only [locate_eq hlt.le, pure_bind]
        refine ⟨_, rfl, .failed c' (.interpolation pos) ended bounded ?_⟩
        intro tag outer found
        rw [hstarts]
        exact agrees _ _ _
      | failed _ u ended bounded agrees =>
        refine ⟨_, rfl, .failed c' u ended bounded fun tag outer found => ?_⟩
        rw [hstarts]
        exact agrees _ _ _
    · obtain ⟨r, hr, hreturns⟩ := htext (pos + 1) (by omega) (by omega) regex start parts
        textStart hstart (by omega)
      refine ⟨r, hr, hreturns.of_outcome (by simp) fun _ _ _ => ?_⟩
      exact outcome_text hb hescape hcloses (by simpa using hopens) _ _
  · rw [locate_eq hstart, pure_bind]
    refine ⟨_, rfl, .failed _ (.template start) (by simpa using hlt) hpos fun tag outer found => ?_⟩
    rw [outcome_end (by simpa using hlt)]
    rfl

/-- The reader of interpolations returns when both readers do further on. -/
theorem expressionReaderReturns_of (hpos : pos ≤ source.length + 1)
    (hcalls : source.length + 1 < pos + calls)
    (htext : ∀ next, pos < next → next ≤ source.length + 1 → TextReaderReturns source calls next)
    (hexpression : ∀ next, pos < next → next ≤ source.length + 1 →
      ExpressionReaderReturns source calls next) :
    ExpressionReaderReturns source (calls + 1) pos := by
  intro regex depth
  rw [expressionEnd]
  simp only
  by_cases hlt : pos < source.length
  · obtain ⟨b, hb⟩ := exists_getElem? hlt
    simp only [if_pos hlt, elementAt_eq hb, pure_bind]
    split_ifs with hbacktick hopen hclose hlast
    · have hstarts (start outer found) := outcome_openTemplate (hbacktick ▸ hb) regex
        (.interpolation start (depth + 1) :: outer) found
      obtain ⟨⟨c', result⟩, hr, hreturns⟩ := htext (pos + 1) (by omega) (by omega) regex pos []
        (pos + 1) hlt.le (Nat.le_refl _)
      rw [hr, pure_bind]
      cases hreturns with
      | closed _ t forward bounded agrees =>
        -- inside an interpolation a template has no tag, so it is not among those found
        have hforward : pos + 1 < c'.pos := forward
        obtain ⟨r, hr', hrest⟩ := hexpression c'.pos (by omega) (by omega) c'.regex depth
        refine ⟨r, hr', hrest.of_outcome (by simp only; omega) fun start outer found => ?_⟩
        exact (hstarts start outer found).trans (agrees _ _ _)
      | failed _ u ended bounded agrees =>
        refine ⟨_, rfl, .failed c' u ended bounded fun start outer found => ?_⟩
        rw [hstarts]
        exact agrees _ _ _
    · obtain ⟨r, hr, hreturns⟩ := hexpression (pos + 1) (by omega) (by omega) true (depth + 1)
      exact ⟨r, hr, hreturns.of_outcome (by simp) fun _ _ _ =>
        outcome_openBrace (hopen ▸ hb) _ _ _ _ _⟩
    · obtain rfl : depth = 0 := by omega
      exact ⟨_, rfl, .closed _ (by simp) hlt fun _ _ _ _ _ _ _ =>
        outcome_endInterpolation (hclose ▸ hb) _ _ _ _ _ _ _ _⟩
    · obtain ⟨n, rfl⟩ := Nat.exists_eq_succ_of_ne_zero (by omega : depth ≠ 0)
      obtain ⟨r, hr, hreturns⟩ := hexpression (pos + 1) (by omega) (by omega) true n
      exact ⟨r, hr, hreturns.of_outcome (by simp) fun _ _ _ =>
        outcome_closeBrace (hclose ▸ hb) _ _ _ _ _⟩
    · obtain ⟨c', hc', hforward, hlands⟩ := exists_skipCode (c := ⟨pos, regex⟩) hb hcalls
      obtain ⟨r, hr, hrest⟩ := hexpression c'.pos hforward hlands.bounded c'.regex depth
      rw [hc', pure_bind]
      refine ⟨r, hr, hrest.of_outcome hforward fun start outer found => ?_⟩
      rw [outcome_code hb hbacktick (.inr ⟨hopen, hclose⟩)]
      exact hlands.agrees _ _
  · rw [if_neg hlt]
    refine ⟨_, rfl, .unterminated _ (by simpa using hlt) hpos fun start outer found => ?_⟩
    rw [outcome_end (by simpa using hlt)]
    rfl

/-- **Both readers return, however deep they call each other.** -/
theorem readers_return (source : Bytes) (calls pos : Nat) (hpos : pos ≤ source.length + 1)
    (hcalls : source.length + 2 < pos + calls) :
    TextReaderReturns source calls pos ∧ ExpressionReaderReturns source calls pos := by
  induction calls generalizing pos with
  | zero => omega
  | succ calls ih =>
    have htext (next : Nat) (hnext : pos < next) (hbounded : next ≤ source.length + 1) :=
      (ih next hbounded (by omega)).1
    have hexpression (next : Nat) (hnext : pos < next) (hbounded : next ≤ source.length + 1) :=
      (ih next hbounded (by omega)).2
    exact ⟨textReaderReturns_of hpos htext hexpression,
      expressionReaderReturns_of hpos (by omega) htext hexpression⟩

/-! ## Whole sources -/

/-- What the reader of sources returns behind the templates found so far: those that the machine
finds, or the construct that it is left with. -/
inductive SourceReturns (source : Bytes) (found : List Template) (c : Cursor) :
    Except Failure (List Template) → Prop
  | closed (all : List Template)
      (agrees : outcome source c.pos (.code c.regex) [] found.reverse = ([], all.reverse)) :
      SourceReturns source found c (.ok all)
  | failed (u : Unclosed)
      (agrees : LeavesOpen (outcome source c.pos (.code c.regex) [] found.reverse) u) :
      SourceReturns source found c (.error (.ofUnclosed source u))

theorem SourceReturns.of_outcome {found found' : List Template}
    {r : Except Failure (List Template)} (h : SourceReturns source found' d r)
    (hmachine : outcome source c.pos (.code c.regex) [] found.reverse =
      outcome source d.pos (.code d.regex) [] found'.reverse) : SourceReturns source found c r := by
  cases h with
  | closed all agrees => exact .closed all (hmachine.trans agrees)
  | failed u agrees => exact .failed u (hmachine ▸ agrees)

theorem exists_templatesFrom (source : Bytes) (calls pos : Nat) (hpos : pos ≤ source.length + 1)
    (hcalls : source.length + 2 < pos + calls) (regex : Bool) (found : List Template) :
    ∃ r, templatesFrom source calls found ⟨pos, regex⟩ = pure r ∧
      SourceReturns source found ⟨pos, regex⟩ r := by
  induction calls generalizing pos regex found with
  | zero => omega
  | succ calls ih =>
    rw [templatesFrom]
    simp only
    by_cases hlt : pos < source.length
    · obtain ⟨b, hb⟩ := exists_getElem? hlt
      simp only [if_pos hlt, elementAt_eq hb, pure_bind]
      split_ifs with hbacktick
      · have hstarts := outcome_openTemplate (hbacktick ▸ hb) regex [] found.reverse
        rw [List.isEmpty_nil, if_pos rfl, Comment.behind?_reverse, Tag.before?,
          List.length_take_of_le hlt.le] at hstarts
        obtain ⟨⟨c', result⟩, hr, hreturns⟩ := (readers_return source calls (pos + 1) (by omega)
          (by omega)).1 regex pos [] (pos + 1) hlt.le (Nat.le_refl _)
        simp only [slice_eq (Nat.sub_le pos Tag.window) hlt.le, pure_bind, readTemplate, hr]
        cases hreturns with
        | closed _ t forward bounded agrees =>
          have hforward : pos + 1 < c'.pos := forward
          have hagrees := hstarts.trans (agrees _ _ _)
          simp only
          cases htag : Tag.ofText? ((source.take pos).drop (pos - Tag.window)) with
          | none =>
            rw [htag] at hagrees
            obtain ⟨r, hr', hrest⟩ := ih c'.pos (by omega) (by omega) c'.regex found
            exact ⟨r, hr', hrest.of_outcome hagrees⟩
          | some tag =>
            rw [htag] at hagrees
            obtain ⟨r, hr', hrest⟩ := ih c'.pos (by omega) (by omega) c'.regex
              (found ++ [⟨tag, t.start, t.stop, t.parts⟩])
            exact ⟨r, hr', hrest.of_outcome (by simpa [Untagged.onto] using hagrees)⟩
        | failed _ u ended bounded agrees =>
          refine ⟨_, rfl, .failed u ?_⟩
          rw [hstarts]
          exact agrees _ _ _
      · obtain ⟨c', hc', hforward, hlands⟩ := exists_skipCode (c := ⟨pos, regex⟩) hb
          (by omega : source.length + 1 < pos + calls)
        have hforward : pos < c'.pos := hforward
        obtain ⟨r, hr, hrest⟩ := ih c'.pos hlands.bounded (by omega) c'.regex found
        rw [hc', pure_bind]
        refine ⟨r, hr, hrest.of_outcome ?_⟩
        rw [outcome_code hb hbacktick (.inl rfl)]
        exact hlands.agrees _ _
    · rw [if_neg hlt]
      refine ⟨_, rfl, .closed found ?_⟩
      rw [outcome_end (by simpa using hlt)]

/-- The readers find what the machine finds. -/
theorem templates_eq (source : Bytes) (hcalls : source.length + 2 < calls) :
    templates source calls =
      pure ((Scan.templates source).mapError (Failure.ofUnclosed source)) := by
  obtain ⟨r, hr, hreturns⟩ := exists_templatesFrom source calls 0 (Nat.zero_le _) (by omega) true []
  have hrun : outcome source 0 (.code true) [] [] =
      ((State.run {} source).stack, (State.run {} source).found) := rfl
  rw [templates, hr, Scan.templates]
  cases hreturns with
  | closed all agrees =>
    obtain ⟨hstack, hfound⟩ := Prod.mk.inj (hrun.symm.trans agrees)
    simp only [hstack, hfound, List.reverse_reverse]
    rfl
  | failed u agrees =>
    have hhead : (State.run {} source).stack.head?.map Frame.unclosed = some u := agrees
    obtain ⟨frame, hframe, rfl⟩ := Option.map_eq_some_iff.1 hhead
    obtain ⟨outer, hstack⟩ := List.head?_eq_some_iff.1 hframe
    simp only [hstack]
    cases frame <;> rfl

/-! ## Progress -/

/-- An attempt returns a result as soon as it is allowed three calls more than the source has bytes,
and the same one however many more it is allowed. -/
def Settles {α : Type} (source : Bytes) (attempt : Nat → Attempt α) (r : α) : Prop :=
  ∀ calls, source.length + 2 < calls → attempt calls = pure r

theorem Settles.of_below {α : Type} {attempt : Nat → Attempt α} {r : α}
    (h : attempt (source.length + 3) = pure r)
    (hbelow : ∀ calls, Below (attempt calls) (attempt (calls + 1))) : Settles source attempt r :=
  fun _ hcalls => eq_pure_of_le hbelow hcalls h

/-- An attempt returns a cursor that stands further on, and at most one byte behind the end of the
source. -/
def Advances (source : Bytes) (pos : Nat) (attempt : Nat → Attempt Cursor) : Prop :=
  ∃ c, Settles source attempt c ∧ pos < c.pos ∧ c.pos ≤ source.length + 1

/-- All readers return from a cursor, without a fault and further on. Those that can fail are still
in the source when they do not. The reader of comments alone may stay where it is: it does not look
at the first byte of a comment, and a newline before a slash is both a start and an end to it. -/
structure Progress (source : Bytes) (c : Cursor) : Prop where
  skipString : ∀ quote, Advances source c.pos fun calls => skipString source calls quote c
  skipSlash : Advances source c.pos fun calls => skipSlash source calls c
  skipRegex : Advances source c.pos fun calls => skipRegex source calls c
  skipComment_stays : source[c.pos]? = some Byte.newline → source[c.pos + 1]? = some Byte.slash →
    Settles source (fun calls => skipComment source calls c) c
  skipComment : ¬ (source[c.pos]? = some Byte.newline ∧ source[c.pos + 1]? = some Byte.slash) →
    Advances source c.pos fun calls => skipComment source calls c
  advance : Advances source c.pos fun calls => advance source calls c
  readTemplate : ∃ c' result, Settles source (fun calls => readTemplate source calls c)
    (c', result) ∧ c.pos < c'.pos ∧ c'.pos ≤ source.length + 1 ∧
      ∀ t, result = .ok t → c'.pos ≤ source.length
  skipExpression : ∃ c' ending, Settles source (fun calls => skipExpression source calls c)
    (c', ending) ∧ c.pos < c'.pos ∧ c'.pos ≤ source.length + 1 ∧
      (ending = .closed → c'.pos ≤ source.length)

theorem progress_of_lt (hc : c.pos < source.length) : Progress source c := by
  have hcalls : source.length + 1 < c.pos + (source.length + 3) := by omega
  obtain ⟨b, hb⟩ := exists_getElem? hc
  constructor
  case skipString =>
    intro quote
    obtain ⟨c', hc', hforward, hlands⟩ := exists_skipString quote hc hcalls
    exact ⟨c', .of_below hc' fun _ => stringEnd_below .., hforward, hlands.bounded⟩
  case skipSlash =>
    obtain ⟨c', hc', hforward, hbounded, -⟩ := exists_skipSlash hb hcalls
    exact ⟨c', .of_below hc' fun _ => skipSlash_below .., hforward, hbounded⟩
  case skipRegex =>
    obtain ⟨c', hc', hforward, hlands⟩ := exists_skipRegex hc hcalls
    exact ⟨c', .of_below hc' fun _ => skipRegex_below .., hforward, hlands.bounded⟩
  case skipComment_stays =>
    intro hnewline hnext calls hcalls
    exact skipComment_newline hnewline hnext (by omega)
  case skipComment =>
    intro hmoves
    rw [hb, Option.some.injEq] at hmoves
    obtain ⟨c', hc', hlands⟩ := exists_skipComment hb (not_and.1 hmoves) hcalls
    have hforward := hlands.forward
    exact ⟨c', .of_below hc' fun _ => skipComment_below .., by omega, hlands.bounded⟩
  case advance =>
    obtain ⟨c', hc', hforward, hbounded, -⟩ := exists_advance hb hcalls
    exact ⟨c', .of_below hc' fun _ => advance_below .., hforward, by omega⟩
  case readTemplate =>
    obtain ⟨⟨c', result⟩, hr, hreturns⟩ := (readers_return source (source.length + 3) (c.pos + 1)
      (by omega) (by omega)).1 c.regex c.pos [] (c.pos + 1) hc.le (Nat.le_refl _)
    refine ⟨c', result, .of_below hr fun _ => (textEnd_expressionEnd_below ..).1 .., ?_⟩
    cases hreturns with
    | closed _ t forward bounded agrees =>
      have hforward : c.pos + 1 < c'.pos := forward
      exact ⟨by omega, by omega, fun _ _ => bounded⟩
    | failed _ u ended bounded agrees => exact ⟨by omega, bounded, by simp⟩
  case skipExpression =>
    obtain ⟨⟨c', ending⟩, hr, hreturns⟩ := (readers_return source (source.length + 3) c.pos
      (by omega) (by omega)).2 c.regex 0
    refine ⟨c', ending, .of_below hr fun _ => (textEnd_expressionEnd_below ..).2 .., ?_⟩
    cases hreturns with
    | closed _ forward bounded agrees => exact ⟨forward, by omega, fun _ => bounded⟩
    | unterminated _ ended bounded agrees => exact ⟨by omega, bounded, by simp⟩
    | failed _ u ended bounded agrees => exact ⟨by omega, bounded, by simp⟩

end Readers

/-- **Reading a source always makes progress and stays in bounds.** From every place in a source
every reader returns further on, without a fault, but for the reader of comments at a newline before
a slash. No comment starts there, so the reader of whole sources returns, and what it returns is
what the scanner finds. -/
theorem readers_progress (source : Bytes) :
    (∀ c : Cursor, c.pos < source.length → Progress source c) ∧
      Settles source (templates source)
        ((Scan.templates source).mapError (Failure.ofUnclosed source)) :=
  ⟨fun _ hc => progress_of_lt hc, fun _ hcalls => templates_eq source hcalls⟩

/-- A template whose interpolation holds a template that ends in a lone backslash. -/
def danglingSample : Bytes := Bytes.ofString "css`a$\x7b/[/]/g, `b\\"

/-- The backslash takes a byte behind the end. -/
theorem danglingSample_progress :
    3 < danglingSample.length ∧ Progress danglingSample ⟨3, false⟩ ∧
      Settles danglingSample (templates danglingSample) (.error ⟨.template 15, ⟨1, 16⟩⟩) := by
  have hlt : 3 < danglingSample.length := by decide +kernel
  have hscan : Scan.templates danglingSample = .error (.template 15) := by decide +kernel
  have hposition : Position.ofOffset danglingSample 15 = ⟨1, 16⟩ := by decide +kernel
  obtain ⟨hprogress, htemplates⟩ := readers_progress danglingSample
  refine ⟨hlt, hprogress ⟨3, false⟩ hlt, ?_⟩
  rw [hscan] at htemplates
  rw [← hposition]
  exact htemplates

/-- A newline before a slash. -/
def newlineSlash : Bytes := [Byte.newline, Byte.slash]

/-- The reader of comments does not move from a newline before a slash. -/
theorem skipComment_stays_at_newlineSlash :
    0 < newlineSlash.length ∧
    Settles newlineSlash (fun calls => skipComment newlineSlash calls ⟨0, false⟩) ⟨0, false⟩ ∧
    ¬ Advances newlineSlash 0 fun calls => skipComment newlineSlash calls ⟨0, false⟩ := by
  have hstays : Settles newlineSlash (fun calls => skipComment newlineSlash calls ⟨0, false⟩)
      ⟨0, false⟩ :=
    fun calls hcalls => skipComment_newline rfl rfl (Nat.ne_zero_of_lt hcalls)
  refine ⟨by decide, hstays, ?_⟩
  rintro ⟨c, hsettles, hforward, -⟩
  obtain rfl : c = ⟨0, false⟩ := by
    have hsame := (hsettles 5 (by decide)).symm.trans (hstays 5 (by decide))
    exact Except.ok.inj hsame
  exact absurd hforward (by decide)

end TemplateLint.Scan.Descent
