import Mathlib
import TemplateLint.Proofs.Template.Order

/-!
# Templates tile the source

A template lies between two backticks, and its parts, literals and interpolations by turns, put
together are the text between them. This module adds what the parts look like. An interpolation
starts with a dollar sign and a brace and ends in a brace. A literal holds a backtick or the start
of an interpolation only where a backslash takes the byte.

The scanner knows this byte by byte, with one byte of look-ahead. `State.Step` says in which mode
each of its actions happens, and `State.Spells` is what they keep.
-/
namespace TemplateLint

namespace Bytes

/-! ## Escapes -/

/-- How many backslashes a text ends in. -/
def backslashes (s : Bytes) : Nat := (s.reverse.takeWhile (· == Byte.backslash)).length

@[simp] theorem backslashes_nil : backslashes [] = 0 := rfl

theorem backslashes_concat_self (s : Bytes) :
    backslashes (s ++ [Byte.backslash]) = backslashes s + 1 := by
  simp [backslashes]

theorem backslashes_concat_of_ne (s : Bytes) {b : UInt8} (h : b ≠ Byte.backslash) :
    backslashes (s ++ [b]) = 0 := by
  simp [backslashes, h]

/-- The byte at an index is taken by a backslash. Backslashes pair off from the left, so the run of
them that ends before the byte has an odd length. -/
def IsEscaped (s : Bytes) (i : Nat) : Prop := Odd (backslashes (s.take i))

/-- A text that neither closes a template nor starts an interpolation. -/
def IsInert (s : Bytes) : Prop :=
  ∀ i, s[i]? = some Byte.backtick ∨
      s[i]? = some Byte.dollar ∧ s[i + 1]? = some Byte.openBrace → s.IsEscaped i

/-- A text that is inert as far as it goes, with the byte that follows it in view. -/
def IsInertBefore (next : Option UInt8) (s : Bytes) : Prop :=
  ∀ i < s.length, s[i]? = some Byte.backtick ∨
      s[i]? = some Byte.dollar ∧ (s ++ next.toList)[i + 1]? = some Byte.openBrace →
    s.IsEscaped i

theorem isInertBefore_nil (next : Option UInt8) : IsInertBefore next [] := by
  intro i hi
  exact absurd hi (Nat.not_lt_zero i)

theorem IsInertBefore.isInert {next : Option UInt8} {s : Bytes} (h : IsInertBefore next s) :
    s.IsInert := by
  intro i hi
  have hlt : i < s.length := by
    rcases hi with hi | hi
    · exact (List.getElem?_eq_some_iff.1 hi).1
    · exact (List.getElem?_eq_some_iff.1 hi.1).1
  refine h i hlt (hi.imp_right fun hi => ⟨hi.1, ?_⟩)
  rw [List.getElem?_append_left (List.getElem?_eq_some_iff.1 hi.2).1, hi.2]

/-- One more byte, which is escaped or means nothing. -/
theorem IsInertBefore.concat {b : UInt8} {next : Option UInt8} {s : Bytes}
    (h : IsInertBefore (some b) s)
    (hb : Odd (backslashes s) ∨
      b ≠ Byte.backtick ∧ ¬ (b = Byte.dollar ∧ next = some Byte.openBrace)) :
    IsInertBefore next (s ++ [b]) := by
  intro i hi hmark
  rw [List.length_append, List.length_singleton] at hi
  rw [IsEscaped, List.take_append_of_le_length (by omega)]
  rcases Nat.lt_or_eq_of_le (Nat.le_of_lt_succ hi) with hlt | rfl
  · -- the mark stands in the text that was inert before, with `b` as the byte behind it
    refine h i hlt ?_
    rw [List.getElem?_append_left hlt,
      List.getElem?_append_left (by rw [List.length_append, List.length_singleton]; omega)] at hmark
    exact hmark
  · rw [List.take_length]
    rcases hb with hodd | ⟨hbacktick, hdollar⟩
    · exact hodd
    · rw [List.getElem?_concat_length, Option.some.injEq, Option.some.injEq,
        List.getElem?_append_right (by simp)] at hmark
      refine absurd hmark ?_
      rintro (hmark | ⟨hmark, hnext⟩)
      · exact hbacktick hmark
      · refine hdollar ⟨hmark, ?_⟩
        cases next with
        | none => simp at hnext
        | some c => simpa using hnext

end Bytes

/-- A part as it is written: an interpolation between its delimiters, a literal without any that
are not escaped. -/
def Part.IsWritten (p : Part) : Prop :=
  if p.interpolated then
    [Byte.dollar, Byte.openBrace] <+: p.text ∧ p.text.getLast? = some Byte.closeBrace
  else p.text.IsInert

theorem Part.isWritten_literal {text : Bytes} (h : text.IsInert) (offset : Nat) :
    IsWritten ⟨false, text, offset⟩ := by
  simpa [IsWritten] using h

namespace Scan
open Bytes

/-! ## One byte, mode by mode -/

/-- Whether the mode is one inside the literal text of a template. -/
def Mode.inText : Mode → Bool
  | text | textEscape => true
  | _ => false

def Frame.isTemplate : Frame → Bool
  | template _ _ _ _ => true
  | interpolation _ _ => false

/-- What reading the byte `b` before `next` can do, and in which mode it does it. -/
inductive State.Step (s : State) (b : UInt8) (next : Option UInt8) : State → Prop
  | passed (mode : Mode) (hs : s.mode.inText = false) (hmode : mode.inText = false) :
    Step s b next (s.move b mode)
  | opened (hs : s.mode.inText = false) (hb : b = Byte.backtick) :
    Step s b next (s.openTemplate b)
  | deeper (hs : s.mode.inText = false) (hb : b = Byte.openBrace) : Step s b next (s.openBrace b)
  | ended (hs : s.mode.inText = false) (hb : b = Byte.closeBrace) :
    Step s b next (s.closeBrace b)
  | closed (hs : s.mode = .text) (hb : b = Byte.backtick) : Step s b next (s.closeTemplate b)
  | started (hs : s.mode = .text) (hb : b = Byte.dollar) (hnext : next = some Byte.openBrace) :
    Step s b next (s.startInterpolation b)
  | escaping (hs : s.mode = .text) (hb : b = Byte.backslash) :
    Step s b next (s.move b .textEscape)
  | kept (hs : s.mode = .text) (hbackslash : b ≠ Byte.backslash) (hbacktick : b ≠ Byte.backtick)
    (hdollar : ¬ (b = Byte.dollar ∧ next = some Byte.openBrace)) : Step s b next (s.move b .text)
  | escaped (hs : s.mode = .textEscape) : Step s b next (s.move b .text)

theorem inText_wordMode (reversed : Bytes) (next : Option UInt8) :
    (wordMode reversed next).inText = false := by
  unfold wordMode
  split <;> rfl

theorem inText_slashMode (regex : Bool) (previous next : Option UInt8) :
    (slashMode regex previous next).inText = false := by
  unfold slashMode
  split_ifs <;> rfl

theorem inText_codeMode (regex : Bool) (previous : Option UInt8) (b : UInt8)
    (next : Option UInt8) : (codeMode regex previous b next).inText = false := by
  unfold codeMode
  split_ifs
  · rfl
  · exact inText_slashMode regex previous next
  · exact inText_wordMode [b] next
  all_goals rfl

theorem inText_stringMode (quote b : UInt8) : (stringMode quote b).inText = false := by
  unfold stringMode
  split_ifs <;> rfl

theorem inText_regexMode (inClass : Bool) (b : UInt8) (next : Option UInt8) :
    (regexMode inClass b next).inText = false := by
  unfold regexMode
  split_ifs <;> rfl

namespace State

theorem step_readCode {s : State} (hs : s.mode.inText = false) (regex : Bool) (b : UInt8)
    (next : Option UInt8) : s.Step b next (s.readCode regex b next) := by
  unfold readCode
  split_ifs with hopen hdeeper hended
  · exact .opened hs hopen
  · exact .deeper hs hdeeper
  · exact .ended hs hended
  · exact .passed _ hs (inText_codeMode ..)

theorem step_readText {s : State} (hs : s.mode = .text) (b : UInt8) (next : Option UInt8) :
    s.Step b next (s.readText b next) := by
  unfold readText textMode
  split_ifs with hbacktick hbackslash hdollar
  · exact .closed hs hbacktick
  · exact .escaping hs hbackslash
  · rw [Bool.and_eq_true, decide_eq_true_eq, decide_eq_true_eq] at hdollar
    exact .started hs hdollar.1 hdollar.2
  · rw [Bool.and_eq_true, decide_eq_true_eq, decide_eq_true_eq] at hdollar
    exact .kept hs hbackslash hbacktick hdollar

theorem step_read (s : State) (b : UInt8) (next : Option UInt8) :
    s.Step b next (s.read b next) := by
  unfold read
  split
  case h_1 regex hs => exact step_readCode (by rw [hs]; rfl) regex b next
  case h_2 reversed hs => exact .passed _ (by rw [hs]; rfl) (inText_wordMode ..)
  case h_3 quote hs => exact .passed _ (by rw [hs]; rfl) (inText_stringMode ..)
  case h_5 regex hs => exact .passed _ (by rw [hs]; rfl) (by split_ifs <;> rfl)
  case h_7 regex hs => exact .passed _ (by rw [hs]; rfl) (by split_ifs <;> rfl)
  case h_9 inClass hs => exact .passed _ (by rw [hs]; rfl) (inText_regexMode ..)
  case h_11 hs => exact .passed _ (by rw [hs]; rfl) (by split_ifs <;> rfl)
  case h_12 hs => exact step_readText hs b next
  case h_13 hs => exact .escaped hs
  all_goals
    next hs => exact .passed _ (by rw [hs]; rfl) rfl

end State

/-! ## What the parts look like -/

/-- An open construct whose parts are written as they should be. Of an interpolation the opening
delimiter is in view. -/
def Frame.IsSpelled (source : Bytes) : Frame → Prop
  | template _ _ parts _ => ∀ p ∈ parts, p.IsWritten
  | interpolation start _ => [Byte.dollar, Byte.openBrace] <+: source.drop start

theorem Frame.IsSpelled.extend {source : Bytes} {frame : Frame} (h : frame.IsSpelled source)
    (more : Bytes) : frame.IsSpelled (source ++ more) := by
  cases frame with
  | template start tag parts textStart => exact h
  | interpolation start depth =>
    rw [IsSpelled, List.drop_append]
    exact h.trans (List.prefix_append _ _)

namespace State

/-- A state whose templates are written as they should be, with the next byte in view. The open
constructs are templates and interpolations by turns, and the mode says which of them is the
innermost. -/
structure Spells (s : State) (next : Option UInt8) : Prop where
  found : ∀ t ∈ s.found, ∀ p ∈ t.parts, p.IsWritten
  chain : s.stack.IsChain fun inner outer => inner.isTemplate ≠ outer.isTemplate
  inText : s.stack.head?.any Frame.isTemplate = s.mode.inText
  stack : ∀ frame ∈ s.stack, frame.IsSpelled (s.source ++ next.toList)
  text : ∀ start tag parts textStart outer,
    s.stack = .template start tag parts textStart :: outer →
      IsInertBefore next (s.source.drop textStart) ∧
        (Odd (backslashes (s.source.drop textStart)) ↔ s.mode = .textEscape)

/-- In literal text the innermost construct is a template. -/
theorem Spells.exists_template {s : State} {next : Option UInt8} (h : s.Spells next)
    (hs : s.mode.inText = true) :
    ∃ start tag parts textStart outer, s.stack = .template start tag parts textStart :: outer := by
  have hhead := h.inText
  rw [hs] at hhead
  cases hstack : s.stack with
  | nil => simp [hstack] at hhead
  | cons frame outer =>
    cases frame with
    | template start tag parts textStart => exact ⟨start, tag, parts, textStart, outer, rfl⟩
    | interpolation start depth => simp [hstack, Frame.isTemplate] at hhead

/-- Outside literal text it is none. -/
theorem Spells.ne_template {s : State} {next : Option UInt8} (h : s.Spells next)
    (hs : s.mode.inText = false) {frame : Frame} {outer : List Frame}
    (hstack : s.stack = frame :: outer) : frame.isTemplate = false := by
  have hhead := h.inText
  rwa [hs, hstack, List.head?_cons, Option.any_some] at hhead

theorem drop_source_move {s : State} (h : s.offset = s.source.length) (b : UInt8) (mode : Mode) :
    (s.move b mode).source.drop (s.move b mode).offset = [] := by
  rw [source_move, State.move, h, List.drop_eq_nil_iff, List.length_append, List.length_singleton]

/-- Reading a byte outside literal text that opens and closes nothing. -/
theorem Spells.passed {s : State} {b : UInt8} (h : s.Spells (some b)) (next : Option UInt8)
    {mode : Mode} (hs : s.mode.inText = false) (hmode : mode.inText = false) :
    (s.move b mode).Spells next where
  found := h.found
  chain := h.chain
  inText := by rw [← hs] at hmode; rw [State.move, hmode]; exact h.inText
  stack := by
    rw [source_move]
    exact fun frame hframe => (h.stack frame hframe).extend next.toList
  text := by
    intro start tag parts textStart outer hstack
    cases h.ne_template hs hstack

/-- A byte that stays in the literal text. The run of backslashes before it tells the mode it is
read in, and the run that it ends tells the mode behind it. -/
theorem Spells.moveText {s : State} {b : UInt8} (h : s.Spells (some b)) (ha : s.Agrees)
    {next : Option UInt8} {mode : Mode} (hs : s.mode.inText = true) (hmode : mode.inText = true)
    (hinert : s.mode = .textEscape ∨
      b ≠ Byte.backtick ∧ ¬ (b = Byte.dollar ∧ next = some Byte.openBrace))
    (hrun : ∀ text : Bytes, (Odd (backslashes text) ↔ s.mode = .textEscape) →
      (Odd (backslashes (text ++ [b])) ↔ mode = .textEscape)) :
    (s.move b mode).Spells next where
  found := h.found
  chain := h.chain
  inText := by rw [← hs] at hmode; rw [State.move, hmode]; exact h.inText
  stack := by
    rw [source_move]
    exact fun frame hframe => (h.stack frame hframe).extend next.toList
  text := by
    intro start tag parts textStart outer hstack
    obtain ⟨htext, hodd⟩ := h.text start tag parts textStart outer hstack
    have hreached : textStart ≤ s.source.length := by
      have hfits := ha.fits
      rw [show s.stack = _ from hstack] at hfits
      exact hfits.1.reached
    rw [source_move, List.drop_append_of_le_length hreached]
    exact ⟨htext.concat (hinert.imp_left hodd.2), hrun _ hodd⟩

theorem Spells.openTemplate {s : State} {b : UInt8} (h : s.Spells (some b)) (ha : s.Agrees)
    (next : Option UInt8) (hs : s.mode.inText = false) : (s.openTemplate b).Spells next where
  found := h.found
  chain := by
    refine List.IsChain.cons h.chain ?_
    intro frame hframe
    cases hstack : s.stack with
    | nil => simp [hstack] at hframe
    | cons top outer =>
      rw [hstack, List.head?_cons, Option.mem_some_iff] at hframe
      rw [← hframe, h.ne_template hs hstack]
      simp [Frame.isTemplate]
  inText := rfl
  stack := by
    refine List.forall_mem_cons.2 ⟨by simp [Frame.IsSpelled], fun frame hframe => ?_⟩
    exact source_move s b .text ▸ (h.stack frame hframe).extend next.toList
  text := by
    intro start tag parts textStart outer hstack
    obtain ⟨hframe, -⟩ := List.cons.inj hstack
    cases hframe
    have hdrop : (s.openTemplate b).source.drop (s.offset + 1) = [] :=
      drop_source_move ha.offset_eq b .text
    rw [hdrop]
    exact ⟨isInertBefore_nil next, by simp [State.openTemplate, State.move]⟩

/-- The innermost construct can be replaced by one of its kind. -/
theorem isChain_replace {frame : Frame} {outer : List Frame}
    (h : (frame :: outer).IsChain fun inner outer => inner.isTemplate ≠ outer.isTemplate)
    (new : Frame) (hnew : new.isTemplate = frame.isTemplate) :
    (new :: outer).IsChain fun inner outer => inner.isTemplate ≠ outer.isTemplate := by
  cases outer with
  | nil => exact List.isChain_singleton _
  | cons next outer =>
    rw [List.isChain_cons_cons] at h ⊢
    rwa [hnew]

/-- Only the depth of the innermost interpolation changes. -/
theorem Spells.withDepth {s : State} {next : Option UInt8} (h : s.Spells next) {start depth : Nat}
    {outer : List Frame} (hstack : s.stack = .interpolation start depth :: outer) (new : Nat) :
    Spells { s with stack := .interpolation start new :: outer } next := by
  have hchain := h.chain
  have hinText := h.inText
  have hframes := h.stack
  rw [hstack] at hchain hinText hframes
  rw [List.forall_mem_cons] at hframes
  refine ⟨h.found, isChain_replace hchain _ rfl, hinText,
    List.forall_mem_cons.2 ⟨hframes.1, hframes.2⟩, ?_⟩
  intro start tag parts textStart rest hrest
  cases (List.cons.inj hrest).1

/-- The literal at the end of what was read is complete. -/
theorem Spells.isWritten_literal {s : State} {next : Option UInt8} (h : s.Spells next)
    (ha : s.Agrees) {start textStart : Nat} {tag : Option Tag} {parts : List Part}
    {outer : List Frame} (hstack : s.stack = .template start tag parts textStart :: outer) :
    ∀ p ∈ (⟨false, s.textSince textStart, textStart⟩ :: parts : List Part), p.IsWritten := by
  have hparts : Frame.IsSpelled (s.source ++ next.toList) (.template start tag parts textStart) :=
    h.stack _ (hstack ▸ List.mem_cons_self)
  refine List.forall_mem_cons.2 ⟨?_, hparts⟩
  rw [textSince_eq ha.offset_eq]
  exact Part.isWritten_literal (h.text _ _ _ _ _ hstack).1.isInert textStart

theorem Spells.closeTemplate {s : State} {b : UInt8} (h : s.Spells (some b)) (ha : s.Agrees)
    (next : Option UInt8) (hs : s.mode = .text) : (s.closeTemplate b).Spells next := by
  obtain ⟨start, tag, parts, textStart, outer, hstack⟩ := h.exists_template (by rw [hs]; rfl)
  have hparts := h.isWritten_literal ha hstack
  have hchain := h.chain
  have hframes := h.stack
  rw [hstack] at hchain hframes
  rw [List.forall_mem_cons] at hframes
  -- the construct around a template is an interpolation
  have houter : outer.head?.any Frame.isTemplate = false := by
    cases outer with
    | nil => rfl
    | cons frame outer =>
      have hne := (List.isChain_cons_cons.1 hchain).1
      simpa [Frame.isTemplate] using hne
  simp only [State.closeTemplate, hstack]
  refine ⟨?_, hchain.of_cons, houter, ?_, ?_⟩
  · intro t ht
    cases tag with
    | none => exact h.found t ht
    | some tag =>
      rcases List.mem_cons.1 ht with rfl | ht
      · exact fun p hp => hparts p (List.mem_reverse.1 hp)
      · exact h.found t ht
  · intro frame hframe
    exact source_move s b (.code false) ▸ (hframes.2 frame hframe).extend next.toList
  · rintro start tag parts textStart rest (rfl : outer = _)
    cases houter

theorem Spells.startInterpolation {s : State} {b : UInt8} (h : s.Spells (some b)) (ha : s.Agrees)
    {next : Option UInt8} (hs : s.mode = .text) (hb : b = Byte.dollar)
    (hnext : next = some Byte.openBrace) : (s.startInterpolation b).Spells next := by
  obtain ⟨start, tag, parts, textStart, outer, hstack⟩ := h.exists_template (by rw [hs]; rfl)
  have hparts := h.isWritten_literal ha hstack
  have hchain := h.chain
  have hframes := h.stack
  rw [hstack] at hchain hframes
  rw [List.forall_mem_cons] at hframes
  simp only [State.startInterpolation, hstack]
  refine ⟨h.found, List.isChain_cons_cons.2 ⟨by simp [Frame.isTemplate],
    isChain_replace hchain _ rfl⟩, rfl, ?_, ?_⟩
  · refine List.forall_mem_cons.2 ⟨?_, List.forall_mem_cons.2 ⟨hparts, fun frame hframe => ?_⟩⟩
    · have hdrop : ((s.move b .interpolationOpen).source ++ next.toList).drop s.offset =
          [Byte.dollar, Byte.openBrace] := by
        rw [source_move, List.append_assoc, ha.offset_eq, List.drop_left, hb, hnext]
        rfl
      exact ⟨[], by rw [List.append_nil]; exact hdrop.symm⟩
    · exact source_move s b .interpolationOpen ▸ (hframes.2 frame hframe).extend next.toList
  · rintro start tag parts textStart rest hrest
    cases (List.cons.inj hrest).1

theorem Spells.openBrace {s : State} {b : UInt8} (h : s.Spells (some b)) (next : Option UInt8)
    (hs : s.mode.inText = false) : (s.openBrace b).Spells next := by
  have hpassed : (s.move b (.code true)).Spells next := h.passed next hs rfl
  unfold State.openBrace
  split
  · next start depth outer hstack => exact hpassed.withDepth hstack (depth + 1)
  · exact hpassed

/-- The interpolation that a closing brace ends is written with its delimiters. -/
theorem isWritten_of_closed {source : Bytes} {start : Nat}
    (h : [Byte.dollar, Byte.openBrace] <+: (source ++ [Byte.closeBrace]).drop start) :
    Part.IsWritten ⟨true, (source ++ [Byte.closeBrace]).drop start, start⟩ := by
  have hlength := h.length_le
  rw [List.length_drop] at hlength
  refine ⟨h, ?_⟩
  rw [List.getLast?_drop, if_neg, List.getLast?_concat]
  simp only [List.length_cons, List.length_nil] at hlength
  omega

theorem Spells.closeBrace {s : State} {b : UInt8} (h : s.Spells (some b)) (ha : s.Agrees)
    (next : Option UInt8) (hs : s.mode.inText = false) (hb : b = Byte.closeBrace) :
    (s.closeBrace b).Spells next := by
  have hpassed : (s.move b (.code true)).Spells next := h.passed next hs rfl
  unfold State.closeBrace
  split
  · next start depth outer hstack => exact hpassed.withDepth hstack (depth + 1)
  · next start depth opened tag parts textStart outer _ hstack =>
    have hchain := h.chain
    have hframes := h.stack
    rw [hstack] at hchain hframes
    rw [List.forall_mem_cons, List.forall_mem_cons] at hframes
    have moved := (ha.move b .text).offset_eq
    have hpart : Part.IsWritten ⟨true, (s.move b .text).textSince start, start⟩ := by
      rw [textSince_eq moved, source_move, hb]
      exact isWritten_of_closed (hb ▸ hframes.1)
    refine ⟨h.found, isChain_replace hchain.of_cons _ rfl, rfl, ?_, ?_⟩
    · refine List.forall_mem_cons.2 ⟨List.forall_mem_cons.2 ⟨hpart, hframes.2.1⟩, ?_⟩
      intro frame hframe
      exact source_move s b .text ▸ (hframes.2.2 frame hframe).extend next.toList
    · rintro start tag parts textStart rest hrest
      obtain ⟨hframe, -⟩ := List.cons.inj hrest
      cases hframe
      have htext : IsInertBefore next ((s.move b .text).source.drop (s.move b .text).offset) ∧
          (Odd (backslashes ((s.move b .text).source.drop (s.move b .text).offset)) ↔
            (s.move b .text).mode = .textEscape) := by
        rw [drop_source_move ha.offset_eq]
        exact ⟨isInertBefore_nil next, by simp [State.move]⟩
      exact htext
  · exact hpassed

/-- Before the first byte nothing is written. -/
theorem Spells.initial {next : Option UInt8} : Spells {} next :=
  ⟨by simp, .nil, rfl, by simp, by simp⟩

/-- Reading a byte keeps what the parts look like. -/
theorem Spells.of_step {s t : State} {b : UInt8} {next : Option UInt8} (h : s.Spells (some b))
    (ha : s.Agrees) (hstep : s.Step b next t) : t.Spells next := by
  cases hstep with
  | passed mode hs hmode => exact h.passed next hs hmode
  | opened hs _ => exact h.openTemplate ha next hs
  | deeper hs _ => exact h.openBrace next hs
  | ended hs hb => exact h.closeBrace ha next hs hb
  | closed hs _ => exact h.closeTemplate ha next hs
  | started hs hb hnext => exact h.startInterpolation ha hs hb hnext
  | escaping hs hb =>
    refine h.moveText ha (by rw [hs]; rfl) rfl (.inr (by simp [hb, Byte.backslash,
      Byte.backtick, Byte.dollar])) ?_
    intro text hodd
    rw [hb, backslashes_concat_self, Nat.odd_add_one, hodd, hs]
    simp
  | kept hs hbackslash hbacktick hdollar =>
    refine h.moveText ha (by rw [hs]; rfl) rfl (.inr ⟨hbacktick, hdollar⟩) ?_
    intro text _
    simp [backslashes_concat_of_ne text hbackslash]
  | escaped hs =>
    refine h.moveText ha (by rw [hs]; rfl) rfl (.inl hs) ?_
    intro text hodd
    by_cases hb : b = Byte.backslash
    · rw [hb, backslashes_concat_self, Nat.odd_add_one, hodd, hs]
      simp
    · simp [backslashes_concat_of_ne text hb]

/-- Reading a whole text keeps what the parts look like. -/
theorem Spells.run {s : State} {text : Bytes} (h : s.Spells text.head?) (ha : s.Agrees) :
    (s.run text).Spells none := by
  induction text generalizing s with
  | nil => exact h
  | cons b rest ih =>
    exact ih (h.of_step ha (s.step_read b rest.head?)) (ha.of_reading (s.reading_read b rest.head?))

end State

/-- The parts of the templates that are found are written as they should be. -/
theorem isWritten_of_mem_templates {source : Bytes} {found : List Template}
    (h : templates source = .ok found) {t : Template} (ht : t ∈ found) :
    ∀ p ∈ t.parts, p.IsWritten := by
  have hspells : (State.run {} source).Spells none :=
    State.Spells.initial.run .initial
  simp only [templates] at h
  split at h
  · cases h
    exact hspells.found t (List.mem_reverse.1 ht)
  · cases h
  · cases h

end Scan

/-! ## The tiling -/

namespace Abut
variable {source : Bytes} {a b : Nat} {parts : List Part}

/-- Abutting parts put together are the source between their ends. -/
theorem flatMap_text (h : Abut source a parts b) :
    parts.flatMap Part.text = (source.drop a).take (b - a) := by
  induction parts generalizing a with
  | nil =>
    rw [Abut] at h
    simp [h]
  | cons p ps ih =>
    have hle := h.2.2.le
    have hsplit : b - a = p.text.length + (b - (a + p.text.length)) := by omega
    rw [List.flatMap_cons, ih h.2.2, hsplit, List.take_add, List.drop_drop,
      ← List.prefix_iff_eq_take.1 h.2.1]

theorem text_eq (h : Abut source a parts b) {p : Part} (hp : p ∈ parts) :
    p.text = (source.drop p.offset).take p.text.length := by
  induction parts generalizing a with
  | nil => cases hp
  | cons q ps ih =>
    rcases List.mem_cons.1 hp with rfl | hp
    · rw [h.1]
      exact List.prefix_iff_eq_take.1 h.2.1
    · exact ih h.2.2 hp

end Abut

namespace Alternate

/-- Of parts by turns, those with an even index are of the first kind. -/
theorem interpolated_getElem? {i j : Bool} {parts : List Part} (h : Alternate i parts j) {n : Nat}
    {p : Part} (hp : parts[n]? = some p) : p.interpolated = (i != decide (Odd n)) := by
  induction parts generalizing i n with
  | nil => simp at hp
  | cons q ps ih =>
    cases n with
    | zero =>
      rw [List.getElem?_cons_zero, Option.some.injEq] at hp
      simp [← hp, h.1]
    | succ n =>
      rw [ih h.2 (by simpa using hp)]
      by_cases hn : Odd n
      · simp [Nat.odd_add_one, hn]
      · simp [Nat.odd_add_one, hn]

/-- The number of parts by turns is odd when the next one would be of the other kind. -/
theorem odd_length_iff {i j : Bool} {parts : List Part} (h : Alternate i parts j) :
    Odd parts.length ↔ i ≠ j := by
  induction parts generalizing i with
  | nil =>
    rw [Alternate] at h
    simp [h]
  | cons q ps ih =>
    rw [List.length_cons, Nat.odd_add_one, ih h.2]
    cases i <;> cases j <;> decide

end Alternate

/-- A template that covers the source from one backtick to another. Its parts are literals and
interpolations by turns, and each is the text at its place. -/
structure Template.Covers (source : Bytes) (t : Template) : Prop where
  opening : source[t.start]? = some Byte.backtick
  closing : source[t.stop]? = some Byte.backtick
  /-- There is an odd number of parts, and those with an odd index are the interpolations. -/
  odd_length : Odd t.parts.length
  alternate : ∀ (i : Nat) (p : Part), t.parts[i]? = some p → (p.interpolated = true ↔ Odd i)
  text_eq : ∀ p ∈ t.parts, p.text = (source.drop p.offset).take p.text.length
  flatMap_text : t.parts.flatMap Part.text =
    (source.drop (t.start + 1)).take (t.stop - (t.start + 1))
  written : ∀ p ∈ t.parts, p.IsWritten

theorem Template.LiesIn.covers {source : Bytes} {t : Template} (h : t.LiesIn source)
    (hwritten : ∀ p ∈ t.parts, p.IsWritten) : t.Covers source where
  opening := h.opening
  closing := h.closing
  odd_length := h.alternate.odd_length_iff.2 (by decide)
  alternate := by
    intro i p hp
    rw [h.alternate.interpolated_getElem? hp]
    simp
  text_eq := fun p hp => h.abut.text_eq hp
  flatMap_text := h.abut.flatMap_text
  written := hwritten

/-- **The templates of a source tile it.** They follow each other without overlap, and each covers
the source between its backticks. -/
theorem Scan.templates_tile_source {source : Bytes} {found : List Template}
    (h : templates source = .ok found) :
    (found.Pairwise fun a b => a.stop < b.start) ∧
      ∀ t ∈ found, t.start < t.stop ∧ t.Covers source := by
  refine ⟨pairwise_templates h, fun t ht => ?_⟩
  have hlies := liesIn_of_mem_templates h ht
  exact ⟨hlies.start_lt_stop, hlies.covers (isWritten_of_mem_templates h ht)⟩

/-- Two templates, the first with an escaped backtick, a template inside an interpolation and an
escaped dollar sign, the second with interpolations only. -/
def interleavedSample : Bytes :=
  Bytes.ofString "css`a\\`b $\x7bf(`x`)\x7d\\$\x7bc`, keyframes`$\x7b1\x7d$\x7b2\x7d`"

/-- The inner template is no template of its own, and literals may be empty. -/
theorem Scan.interleavedSample_tiled :
    ∃ found, templates interleavedSample = .ok found ∧
      found.map (fun t => (t.start, t.stop, t.parts.length)) = [(3, 22, 3), (34, 43, 5)] ∧
      (found.Pairwise fun a b => a.stop < b.start) ∧
      ∀ t ∈ found, t.start < t.stop ∧ t.Covers interleavedSample := by
  have h : templates interleavedSample = .ok
      [⟨.styled, 3, 22, [⟨false, Bytes.ofString "a\\`b ", 4⟩,
        ⟨true, Bytes.ofString "$\x7bf(`x`)\x7d", 9⟩, ⟨false, Bytes.ofString "\\$\x7bc", 18⟩]⟩,
      ⟨.keyframes, 34, 43, [⟨false, [], 35⟩, ⟨true, Bytes.ofString "$\x7b1\x7d", 35⟩,
        ⟨false, [], 39⟩, ⟨true, Bytes.ofString "$\x7b2\x7d", 39⟩, ⟨false, [], 43⟩]⟩] := by
    decide +kernel
  exact ⟨_, h, rfl, templates_tile_source h⟩

end TemplateLint
