import Mathlib
import TemplateLint.Proofs.Template.Prefix

/-!
# Comments

The scanner steps over a comment and remembers nothing of it but the bytes it has passed. Two scans
that differ in the body of one comment therefore go on in lockstep: they are in the same mode, with
the same constructs open, all of them shifted by the difference of the two bodies. The bytes passed
come back in one place only. The tag of a template is read off the bytes before it, comments
included, so a comment can change which templates are tagged and how. When it does not, it changes
nothing but columns.
-/
namespace TemplateLint
open Bytes

namespace Scan

/-! ## Scans in lockstep -/

/-- A construct that is open in one scan and its counterpart in another, where what stands at `n`
stands at `m`. They agree on tags when `tagged` holds. -/
inductive Frame.Twin (n m : Nat) (tagged : Prop) : Frame → Frame → Prop
  | template {start textStart : Nat} {tag tag' : Option Tag} (parts : List Part)
      (hstart : n ≤ start) (htext : n ≤ textStart) (htag : tagged → tag' = tag) :
      Twin n m tagged (.template start tag parts textStart)
        (.template (start - n + m) tag' (parts.map (Part.shift n m)) (textStart - n + m))
  | interpolation {start : Nat} (depth : Nat) (hstart : n ≤ start) :
      Twin n m tagged (.interpolation start depth) (.interpolation (start - n + m) depth)

/-- Constructs that are open in lockstep are of the same kinds. -/
theorem Frame.Twin.cases {n m : Nat} {tagged : Prop} {stack stack' : List Frame}
    (h : List.Forall₂ (Frame.Twin n m tagged) stack stack') :
    (stack = [] ∧ stack' = []) ∨
    (∃ start textStart tag tag' parts outer outer',
      stack = .template start tag parts textStart :: outer ∧
      stack' = .template (start - n + m) tag' (parts.map (Part.shift n m)) (textStart - n + m) ::
        outer' ∧
      n ≤ start ∧ n ≤ textStart ∧ (tagged → tag' = tag) ∧
      List.Forall₂ (Frame.Twin n m tagged) outer outer') ∨
    (∃ start depth outer outer', stack = .interpolation start depth :: outer ∧
      stack' = .interpolation (start - n + m) depth :: outer' ∧ n ≤ start ∧
      List.Forall₂ (Frame.Twin n m tagged) outer outer') := by
  cases h with
  | nil => exact .inl ⟨rfl, rfl⟩
  | cons hframe houter =>
    cases hframe with
    | template parts hstart htext htag =>
      exact .inr (.inl ⟨_, _, _, _, parts, _, _, rfl, rfl, hstart, htext, htag, houter⟩)
    | interpolation depth hstart => exact .inr (.inr ⟨_, depth, _, _, rfl, rfl, hstart, houter⟩)

/-- Two scans that have passed different texts, given in reverse, and the same bytes behind them.
The templates `base` were found before that. -/
structure State.Twins (p p' : Bytes) (base : List Template) (tagged : Prop) (s s' : State) :
    Prop where
  passed : ∃ behind, s.passed = behind ++ p ∧ s'.passed = behind ++ p' ∧
    s.offset = p.length + behind.length ∧ s'.offset = p'.length + behind.length
  mode : s'.mode = s.mode
  /-- In code the last byte counts. -/
  head : ∀ regex, s.mode = .code regex → s'.passed.head? = s.passed.head?
  stack : List.Forall₂ (Frame.Twin p.length p'.length tagged) s.stack s'.stack
  found : tagged → ∃ new, s.found = new ++ base ∧
    s'.found = new.map (Template.shift p.length p'.length) ++ base ∧ ∀ t ∈ new, p.length ≤ t.start

namespace State
variable {p p' : Bytes} {base : List Template} {tagged : Prop} {s s' : State}

namespace Twins

theorem le_offset (h : Twins p p' base tagged s s') : p.length ≤ s.offset := by
  obtain ⟨behind, -, -, hoffset, -⟩ := h.passed
  omega

theorem offset_eq (h : Twins p p' base tagged s s') :
    s'.offset = s.offset - p.length + p'.length := by
  obtain ⟨behind, -, -, hoffset, hoffset'⟩ := h.passed
  omega

/-- Texts behind the difference are the same. -/
theorem textSince_eq (h : Twins p p' base tagged s s') {start : Nat} (hstart : p.length ≤ start) :
    s'.textSince (start - p.length + p'.length) = s.textSince start := by
  obtain ⟨behind, hpassed, hpassed', hoffset, hoffset'⟩ := h.passed
  have hcount : s.offset - start ≤ behind.length := by omega
  have hcount' : s'.offset - (start - p.length + p'.length) = s.offset - start := by omega
  rw [textSince, textSince, hcount', hpassed, hpassed', List.take_append_of_le_length hcount,
    List.take_append_of_le_length hcount]

/-- Two scans move on together. -/
theorem of_move (h : Twins p p' base tagged s s') (b : UInt8) (mode : Mode)
    {stack stack' : List Frame} {found found' : List Template}
    (hstack : List.Forall₂ (Frame.Twin p.length p'.length tagged) stack stack')
    (hfound : tagged → ∃ new, found = new ++ base ∧
      found' = new.map (Template.shift p.length p'.length) ++ base ∧
      ∀ t ∈ new, p.length ≤ t.start) :
    Twins p p' base tagged { s.move b mode with stack, found }
      { s'.move b mode with stack := stack', found := found' } where
  passed := by
    obtain ⟨behind, hpassed, hpassed', hoffset, hoffset'⟩ := h.passed
    refine ⟨b :: behind, ?_, ?_, ?_, ?_⟩ <;> simp [State.move, *] <;> omega
  mode := rfl
  head := fun _ _ => rfl
  stack := hstack
  found := hfound

theorem move (h : Twins p p' base tagged s s') (b : UInt8) (mode : Mode) :
    Twins p p' base tagged (s.move b mode) (s'.move b mode) :=
  h.of_move b mode h.stack h.found

theorem openTemplate (h : Twins p p' base tagged s s') (b : UInt8)
    (htag : tagged → s.stack = [] → Tag.behind? s'.passed = Tag.behind? s.passed) :
    Twins p p' base tagged (s.openTemplate b) (s'.openTemplate b) := by
  have hle := h.le_offset
  have hbehind : s'.offset + 1 = s.offset + 1 - p.length + p'.length := by
    have := h.offset_eq
    omega
  have hempty : s'.stack = [] ↔ s.stack = [] := by
    rw [← List.length_eq_zero_iff, ← h.stack.length_eq, List.length_eq_zero_iff]
  refine h.of_move b .text (.cons ?_ h.stack) h.found
  rw [hbehind, h.offset_eq]
  refine .template [] hle (by omega) fun htagged => ?_
  by_cases hs : s.stack = []
  · simp [hs, hempty.2 hs, htag htagged hs]
  · simp [hs, mt hempty.1 hs]

theorem closeTemplate (h : Twins p p' base tagged s s') (b : UInt8) :
    Twins p p' base tagged (s.closeTemplate b) (s'.closeTemplate b) := by
  obtain ⟨hs, hs'⟩ |
    ⟨start, textStart, tag, tag', parts, outer, outer', hs, hs', hstart, htext, htag, houter⟩ |
    ⟨start, depth, outer, outer', hs, hs', -, -⟩ := Frame.Twin.cases h.stack
  · simp only [State.closeTemplate, hs, hs']
    exact h.move b _
  · simp only [State.closeTemplate, hs, hs']
    refine h.of_move b _ houter fun htagged => ?_
    obtain ⟨new, hfound, hfound', hnew⟩ := h.found htagged
    rw [htag htagged]
    cases tag with
    | none => exact ⟨new, hfound, hfound', hnew⟩
    | some tag =>
      refine ⟨⟨tag, start, s.offset, (⟨false, s.textSince textStart, textStart⟩ ::
        parts).reverse⟩ :: new, by simp [hfound], ?_, List.forall_mem_cons.2 ⟨hstart, hnew⟩⟩
      simp [hfound', Template.shift, Part.shift, h.textSince_eq htext, h.offset_eq]
  · simp only [State.closeTemplate, hs, hs']
    exact h.move b _

theorem startInterpolation (h : Twins p p' base tagged s s') (b : UInt8) :
    Twins p p' base tagged (s.startInterpolation b) (s'.startInterpolation b) := by
  obtain ⟨hs, hs'⟩ |
    ⟨start, textStart, tag, tag', parts, outer, outer', hs, hs', hstart, htext, htag, houter⟩ |
    ⟨start, depth, outer, outer', hs, hs', -, -⟩ := Frame.Twin.cases h.stack
  · simp only [State.startInterpolation, hs, hs']
    exact h.move b _
  · simp only [State.startInterpolation, hs, hs', h.textSince_eq htext, h.offset_eq]
    exact h.of_move b _ (.cons (.interpolation 1 h.le_offset)
      (.cons (.template (⟨false, s.textSince textStart, textStart⟩ :: parts) hstart h.le_offset
        htag) houter)) h.found
  · simp only [State.startInterpolation, hs, hs']
    exact h.move b _

theorem openBrace (h : Twins p p' base tagged s s') (b : UInt8) :
    Twins p p' base tagged (s.openBrace b) (s'.openBrace b) := by
  obtain ⟨hs, hs'⟩ | ⟨start, textStart, tag, tag', parts, outer, outer', hs, hs', -⟩ |
    ⟨start, depth, outer, outer', hs, hs', hstart, houter⟩ := Frame.Twin.cases h.stack
  · simp only [State.openBrace, hs, hs']
    exact h.move b _
  · simp only [State.openBrace, hs, hs']
    exact h.move b _
  · simp only [State.openBrace, hs, hs']
    exact h.of_move b _ (.cons (.interpolation (depth + 1) hstart) houter) h.found

/-- An interpolation is ended in both scans. -/
theorem endInterpolation (h : Twins p p' base tagged s s') (b : UInt8) {start opened : Nat}
    {tag tag' : Option Tag} {parts : List Part} {outer outer' : List Frame}
    (hstart : p.length ≤ start) (hopened : p.length ≤ opened) (htag : tagged → tag' = tag)
    (houter : List.Forall₂ (Frame.Twin p.length p'.length tagged) outer outer') :
    Twins p p' base tagged
      { s.move b .text with
        stack := .template opened tag (⟨true, (s.move b .text).textSince start, start⟩ :: parts)
          (s.move b .text).offset :: outer }
      { s'.move b .text with
        stack := .template (opened - p.length + p'.length) tag'
          (⟨true, (s'.move b .text).textSince (start - p.length + p'.length),
            start - p.length + p'.length⟩ :: parts.map (Part.shift p.length p'.length))
          (s'.move b .text).offset :: outer' } := by
  have hmoved := h.move b .text
  rw [hmoved.textSince_eq hstart, hmoved.offset_eq]
  exact h.of_move b .text (.cons (.template (⟨true, (s.move b .text).textSince start, start⟩ ::
    parts) hopened hmoved.le_offset htag) houter) h.found

theorem closeBrace (h : Twins p p' base tagged s s') (b : UInt8) :
    Twins p p' base tagged (s.closeBrace b) (s'.closeBrace b) := by
  obtain ⟨hs, hs'⟩ | ⟨start, textStart, tag, tag', parts, outer, outer', hs, hs', -⟩ |
    ⟨start, depth, outer, outer', hs, hs', hstart, houter⟩ := Frame.Twin.cases h.stack
  · simp only [State.closeBrace, hs, hs']
    exact h.move b _
  · simp only [State.closeBrace, hs, hs']
    exact h.move b _
  · by_cases hdepth : 2 ≤ depth
    · obtain ⟨depth, rfl⟩ := Nat.exists_eq_add_of_le' hdepth
      simp only [State.closeBrace, hs, hs']
      exact h.of_move b _ (.cons (.interpolation (depth + 1) hstart) houter) h.found
    · have hshallow : depth = 0 ∨ depth = 1 := by omega
      obtain ⟨rfl, rfl⟩ |
        ⟨opened, textStart, tag, tag', parts, outer, outer', rfl, rfl, hopened, -, htag, houter⟩ |
        ⟨inner, inside, outer, outer', rfl, rfl, -, -⟩ := Frame.Twin.cases houter
      · rcases hshallow with rfl | rfl <;> simp only [State.closeBrace, hs, hs'] <;>
          exact h.move b _
      · rcases hshallow with rfl | rfl <;> simp only [State.closeBrace, hs, hs'] <;>
          exact h.endInterpolation b hstart hopened htag houter
      · rcases hshallow with rfl | rfl <;> simp only [State.closeBrace, hs, hs'] <;>
          exact h.move b _

/-- **Two scans stay in lockstep over a byte**, as long as a template that it opens outside all
others gets the same tag. -/
theorem read (h : Twins p p' base tagged s s') (b : UInt8) (next : Option UInt8)
    (htag : tagged → s.stack = [] → (∃ regex, s.mode = .code regex) → b = Byte.backtick →
      Tag.behind? s'.passed = Tag.behind? s.passed) :
    Twins p p' base tagged (s.read b next) (s'.read b next) := by
  unfold State.read
  rw [h.mode]
  cases hmode : s.mode with
  | code regex =>
    simp only [State.readCode, h.head regex hmode]
    split_ifs with hb
    · exact h.openTemplate b fun htagged hs => htag htagged hs ⟨regex, hmode⟩ hb
    · exact h.openBrace b
    · exact h.closeBrace b
    · exact h.move b _
  | text =>
    simp only [State.readText]
    split_ifs
    · exact h.closeTemplate b
    · split
      · exact h.startInterpolation b
      · exact h.move b _
  | word | string | stringEscape | lineComment | commentOpen | comment | commentClose | regex |
    regexEscape | regexFlags | textEscape | interpolationOpen => exact h.move b _

end Twins

theorem passed_read (s : State) (b : UInt8) (next : Option UInt8) :
    (s.read b next).passed = b :: s.passed := by
  have hsource := source_of_reading (s.reading_read b next)
  simpa [source] using congrArg List.reverse hsource

/-- **Two scans stay in lockstep over a text**, as long as the templates that it opens outside all
others get the same tags. -/
theorem Twins.run (h : Twins p p' base tagged s s') {text : Bytes}
    (htag : tagged → ∀ gap rest, text = gap ++ Byte.backtick :: rest →
      (s.runBefore (some Byte.backtick) gap).stack = [] →
      (∃ regex, (s.runBefore (some Byte.backtick) gap).mode = .code regex) →
      Tag.behind? (gap.reverse ++ s'.passed) = Tag.behind? (gap.reverse ++ s.passed)) :
    Twins p p' base tagged (s.run text) (s'.run text) := by
  induction text generalizing s s' with
  | nil => exact h
  | cons b rest ih =>
    refine ih (h.read b rest.head? ?_) ?_
    · rintro htagged hstack hmode rfl
      exact htag htagged [] rest rfl hstack hmode
    · rintro htagged gap behind rfl hstack hmode
      have hhead : (gap ++ Byte.backtick :: behind).head? = gap.head?.or (some Byte.backtick) := by
        rw [List.head?_append, List.head?_cons]
      rw [hhead] at hstack hmode
      have htags := htag htagged (b :: gap) behind rfl hstack hmode
      simpa [passed_read] using htags

theorem runBefore_append (next : Option UInt8) (s : State) (a b : Bytes) :
    s.runBefore next (a ++ b) = (s.runBefore (b.head?.or next) a).runBefore next b := by
  induction a generalizing s with
  | nil => rfl
  | cons c a ih =>
    rw [List.cons_append, runBefore, ih, runBefore, List.head?_append, Option.or_assoc]

/-- The scan of a text that something follows agrees with the text. -/
theorem agrees_runBefore (next : Option UInt8) (text : Bytes) :
    (runBefore next {} text).Agrees ∧ (runBefore next {} text).source = text := by
  have hread : ∀ s : State, s.Agrees → (s.runBefore next text).Agrees ∧
      (s.runBefore next text).source = s.source ++ text := by
    induction text with
    | nil => exact fun s h => ⟨h, by simp [runBefore]⟩
    | cons b rest ih =>
      intro s h
      have hreading := s.reading_read b (rest.head?.or next)
      obtain ⟨hagrees, hsource⟩ := ih _ (h.of_reading hreading)
      refine ⟨hagrees, ?_⟩
      rw [runBefore, hsource, source_of_reading hreading, List.append_assoc, List.singleton_append]
  exact hread {} .initial

end State
end Scan

/-! ## Stepping over a comment -/

/-- The kinds of comments. The last one is never closed. -/
inductive Comment where
  | line
  | block
  | unclosed
  deriving DecidableEq

namespace Comment
open Scan

/-- A comment with its delimiters. -/
def text : Comment → Bytes → Bytes
  | line, body => Byte.slash :: Byte.slash :: body
  | block, body => Byte.slash :: Byte.star :: (body ++ [Byte.star, Byte.slash])
  | unclosed, body => Byte.slash :: Byte.star :: body

/-- A body that fills a comment of a kind up to the text behind it. -/
def IsBody (after body : Bytes) : Comment → Prop
  | line => Byte.newline ∉ body ∧ (after = [] ∨ after.head? = some Byte.newline)
  | block => ¬[Byte.star, Byte.slash] <:+: body
  | unclosed => ¬[Byte.star, Byte.slash] <:+: body ∧ after = []

instance (after body : Bytes) (kind : Comment) : Decidable (kind.IsBody after body) :=
  match kind with
  | line => inferInstanceAs (Decidable (_ ∧ _))
  | block => inferInstanceAs (Decidable (¬_))
  | unclosed => inferInstanceAs (Decidable (_ ∧ _))

/-- The mode behind a comment in code. -/
def mode (regex : Bool) : Comment → Mode
  | line => .lineComment regex
  | block => .code regex
  | unclosed => .comment regex

theorem read_slash {s : State} {regex : Bool} (hmode : s.mode = .code regex)
    (next : Option UInt8) :
    s.read Byte.slash next = s.move Byte.slash (slashMode regex s.passed.head? next) := by
  simp only [State.read, hmode]
  rw [State.readCode, if_neg (by decide), if_neg (by decide), if_neg (by decide), codeMode,
    if_neg (by decide), if_pos rfl]

theorem runBefore_line {s : State} {regex : Bool} (hmode : s.mode = .lineComment regex)
    {body : Bytes} (h : Byte.newline ∉ body) (next : Option UInt8) :
    s.runBefore next body = s.skip body := by
  induction body generalizing s with
  | nil => rfl
  | cons b rest ih =>
    rw [List.mem_cons, not_or] at h
    have hread : s.read b (rest.head?.or next) = s.skip [b] := by
      simp [State.read, hmode, Ne.symm h.1, State.move, State.skip]
    rw [State.runBefore, hread, ih (by exact hmode) h.2]
    simp [State.skip, Nat.add_assoc, Nat.add_comm 1]

theorem runBefore_block {s : State} {regex : Bool} (hmode : s.mode = .comment regex)
    {body : Bytes} (h : ¬[Byte.star, Byte.slash] <:+: body) {next : Option UInt8}
    (hnext : next ≠ some Byte.slash) : s.runBefore next body = s.skip body := by
  induction body generalizing s with
  | nil => rfl
  | cons b rest ih =>
    have hopen : ¬(b = Byte.star ∧ rest.head?.or next = some Byte.slash) := by
      rintro ⟨rfl, hslash⟩
      cases rest with
      | nil => exact hnext hslash
      | cons c rest =>
        cases hslash
        exact h (List.prefix_append [Byte.star, Byte.slash] rest).isInfix
    have hread : s.read b (rest.head?.or next) = s.skip [b] := by
      simp only [State.read, hmode, Bool.and_eq_true, decide_eq_true_eq, if_neg hopen]
      simp [State.move, State.skip, hmode]
    have hrest : ¬[Byte.star, Byte.slash] <:+: rest := fun hin => h (List.infix_cons hin)
    rw [State.runBefore, hread, ih (by exact hmode) hrest]
    simp [State.skip, Nat.add_assoc, Nat.add_comm 1]

/-- The state behind the delimiter that opens a block comment. -/
def opened (s : State) (regex : Bool) : State :=
  (s.move Byte.slash (.commentOpen regex)).move Byte.star (.comment regex)

theorem read_opening {s : State} {regex : Bool} (hmode : s.mode = .code regex)
    (next : Option UInt8) :
    (s.read Byte.slash (some Byte.star)).read Byte.star next = opened s regex := by
  have hslash : s.read Byte.slash (some Byte.star) = s.move Byte.slash (.commentOpen regex) :=
    read_slash hmode _
  rw [hslash]
  rfl

/-- The state behind a comment in code. -/
def behind (kind : Comment) (regex : Bool) (s : State) (body : Bytes) : State :=
  { s.skip (kind.text body) with mode := kind.mode regex }

/-- **The scanner steps over a comment.** -/
theorem runBefore_text {kind : Comment} {after body : Bytes} (h : kind.IsBody after body)
    {s : State} {regex : Bool} (hmode : s.mode = .code regex) :
    s.runBefore after.head? (kind.text body) = kind.behind regex s body := by
  rw [behind]
  cases kind with
  | line =>
    have hopened : s.read Byte.slash (some Byte.slash) =
        s.move Byte.slash (.lineComment regex) := read_slash hmode _
    rw [text, State.runBefore, List.head?_cons, Option.some_or, hopened,
      runBefore_line rfl (by simpa using ⟨by decide, h.1⟩)]
    simp [State.skip, State.move, mode, Nat.add_assoc, Nat.add_comm 1]
  | block =>
    have hnext : some Byte.star ≠ some Byte.slash := by decide
    rw [text, State.runBefore, State.runBefore, List.head?_cons, Option.some_or,
      read_opening hmode, State.runBefore_append, List.head?_cons, Option.some_or,
      runBefore_block rfl h hnext]
    simp [State.runBefore, State.read, State.skip, State.move, opened, mode, Nat.add_assoc,
      Nat.add_comm 2]
  | unclosed =>
    have hnext : after.head? ≠ some Byte.slash := by simp [h.2]
    rw [text, State.runBefore, State.runBefore, List.head?_cons, Option.some_or,
      read_opening hmode, runBefore_block rfl h.1 hnext]
    simp [State.skip, State.move, opened, mode, Nat.add_assoc, Nat.add_comm 2]

theorem head?_text (kind : Comment) (body rest : Bytes) :
    (kind.text body ++ rest).head? = some Byte.slash := by
  cases kind <;> rfl

theorem count_text (kind : Comment) (body : Bytes) :
    (kind.text body).count Byte.newline = body.count Byte.newline := by
  cases kind <;> simp [text, Byte.newline, Byte.slash, Byte.star]

end Comment

/-! ## What a comment can change -/

namespace Scan

/-- The scanner comes to the byte `b` behind a text in code outside all templates. -/
def InCodeBefore (b : UInt8) (text : Bytes) : Prop :=
  (State.runBefore (some b) {} text).stack = [] ∧
    ∃ regex, (State.runBefore (some b) {} text).mode = .code regex

instance (b : UInt8) (text : Bytes) : Decidable (InCodeBefore b text) :=
  inferInstanceAs (Decidable (_ ∧ _))

end Scan

namespace Comment
open Scan

/-- The templates that open outside all others close behind a comment have the same tags whichever
text the comment has. -/
def KeepsTags (before text text' after : Bytes) : Prop :=
  ∀ i < Tag.window, after[i]? = some Byte.backtick →
    InCodeBefore Byte.backtick (before ++ text ++ after.take i) →
    Tag.before? (before ++ text' ++ after.take i) = Tag.before? (before ++ text ++ after.take i)

instance (before text text' after : Bytes) : Decidable (KeepsTags before text text' after) :=
  inferInstanceAs (Decidable (∀ i < _, _))

theorem behind?_reverse (text : Bytes) : Tag.behind? text.reverse = Tag.before? text := by
  rw [Tag.behind?, Tag.before?, List.take_reverse, List.reverse_reverse]

/-- No template is tagged by what stands further away. -/
theorem behind?_far {gap : Bytes} (h : Tag.window ≤ gap.length) (p p' : Bytes) :
    Tag.behind? (gap.reverse ++ p') = Tag.behind? (gap.reverse ++ p) := by
  have hle : Tag.window ≤ gap.reverse.length := by rwa [List.length_reverse]
  rw [Tag.behind?, Tag.behind?, List.take_append_of_le_length hle,
    List.take_append_of_le_length hle]

section
variable {kind : Comment} {before body body' after : Bytes}

/-- The scan of a source with a comment in it goes on behind the comment. -/
theorem run_source (h : kind.IsBody after body) {regex : Bool}
    (hmode : (State.runBefore (some Byte.slash) {} before).mode = .code regex) :
    State.run {} (before ++ kind.text body ++ after) =
      (kind.behind regex (State.runBefore (some Byte.slash) {} before) body).run after := by
  rw [List.append_assoc, State.run_append, head?_text, State.run_append, runBefore_text h hmode]

theorem passed_runBefore (next : Option UInt8) (text : Bytes) :
    (State.runBefore next {} text).passed = text.reverse := by
  have hsource := congrArg List.reverse (State.agrees_runBefore next text).2
  rwa [State.source, List.reverse_reverse] at hsource

theorem offset_runBefore (next : Option UInt8) (text : Bytes) :
    (State.runBefore next {} text).offset = text.length := by
  obtain ⟨hagrees, hsource⟩ := State.agrees_runBefore next text
  rw [hagrees.offset_eq, hsource]

/-- Behind a comment in code outside all templates two scans differ in what they have passed. -/
theorem twins_behind (regex : Bool) (tagged : Prop)
    (hstack : (State.runBefore (some Byte.slash) {} before).stack = []) :
    State.Twins (before ++ kind.text body).reverse (before ++ kind.text body').reverse
      (State.runBefore (some Byte.slash) {} before).found tagged
      (kind.behind regex (State.runBefore (some Byte.slash) {} before) body)
      (kind.behind regex (State.runBefore (some Byte.slash) {} before) body') where
  passed := by
    refine ⟨[], ?_, ?_, ?_, ?_⟩ <;>
      simp [behind, State.skip, passed_runBefore, offset_runBefore, Nat.add_comm]
  mode := rfl
  head := by
    intro regex hcode
    cases kind with
    | line => cases hcode
    | block => simp [behind, State.skip, text]
    | unclosed => cases hcode
  stack := by
    rw [behind, behind, State.skip, State.skip, hstack]
    exact .nil
  found := fun _ => ⟨[], rfl, rfl, by simp⟩

/-- **Two scans that differ in the body of a comment stay in lockstep.** -/
theorem twins (h : kind.IsBody after body) (h' : kind.IsBody after body')
    (hcode : InCodeBefore Byte.slash before) :
    State.Twins (before ++ kind.text body).reverse (before ++ kind.text body').reverse
      (State.runBefore (some Byte.slash) {} before).found
      (KeepsTags before (kind.text body) (kind.text body') after)
      (State.run {} (before ++ kind.text body ++ after))
      (State.run {} (before ++ kind.text body' ++ after)) := by
  obtain ⟨hstack, regex, hmode⟩ := hcode
  rw [run_source h hmode, run_source h' hmode]
  refine (twins_behind regex _ hstack).run ?_
  rintro hkeeps gap rest rfl hgap hgapmode
  have hbehind (body : Bytes) : gap.reverse ++ (kind.behind regex
      (State.runBefore (some Byte.slash) {} before) body).passed =
        (before ++ kind.text body ++ gap).reverse := by
    simp [behind, State.skip, passed_runBefore]
  by_cases hfar : Tag.window ≤ gap.length
  · exact behind?_far hfar _ _
  · rw [hbehind, hbehind, behind?_reverse, behind?_reverse]
    have hreached : State.runBefore (some Byte.backtick) {} (before ++ kind.text body ++ gap) =
        (kind.behind regex (State.runBefore (some Byte.slash) {} before) body).runBefore
          (some Byte.backtick) gap := by
      rw [List.append_assoc, State.runBefore_append, head?_text, Option.some_or,
        State.runBefore_append, ← runBefore_text h hmode, List.head?_append, List.head?_cons]
    have hsame := hkeeps gap.length (by omega) (by simp)
    rw [List.take_left, InCodeBefore, hreached] at hsame
    exact hsame ⟨hgap, hgapmode⟩

/-! ## Places behind a comment -/

/-- Templates in front of a comment stand where they stood. -/
theorem stands_before {t : Template} (h : t.LiesIn before) (rest rest' : Bytes) :
    t.Stands false (before ++ rest) (before ++ rest') t where
  lies := h.extend rest
  shifted := by
    have hstop := (List.getElem?_eq_some_iff.1 h.closing).1
    refine ⟨0, 0, Nat.zero_le _, t.shift_zero.symm, fun o _ ho => ⟨?_, by simp⟩⟩
    rw [Nat.sub_zero, Nat.add_zero, Position.ofOffset_append (by omega),
      Position.ofOffset_append (by omega)]

/-- What stands behind texts with the same number of newlines is on the same lines. -/
theorem samePlace_behind {a a' : Bytes} (h : a'.count Byte.newline = a.count Byte.newline)
    (after : Bytes) {o : Nat} (ho : a.length ≤ o) :
    SamePlace false (a ++ after) a.length (a' ++ after) a'.length o where
  line := by
    obtain ⟨k, rfl⟩ := Nat.exists_eq_add_of_le ho
    rw [Nat.add_sub_cancel_left, Nat.add_comm k, Position.line_ofOffset, Position.line_ofOffset,
      List.take_length_add_append, List.take_length_add_append, List.count_append,
      List.count_append, h]
  column := by simp

end
end Comment

namespace FragmentLine
variable {columns : Bool}

theorem numbered_seen (lines : List FragmentLine) :
    Fragment.numbered (lines.map (seen columns)) =
      (Fragment.numbered lines).map fun entry => (entry.1, entry.2.seen columns) := by
  simp only [Fragment.numbered, List.zipIdx_map, List.map_map]
  rfl

end FragmentLine

namespace Fragment
open Scan Comment

/-- What is seen of lines without their columns makes up the text, the placeholder lines and the
source lines of a fragment. -/
theorem ofLines_seen (lines : List FragmentLine) :
    (ofLines (lines.map (FragmentLine.seen false))).css = (ofLines lines).css ∧
      (ofLines (lines.map (FragmentLine.seen false))).placeholderLines =
        (ofLines lines).placeholderLines ∧
      (ofLines (lines.map (FragmentLine.seen false))).origins = (ofLines lines).origins := by
  refine ⟨?_, ?_, ?_⟩
  · simp only [ofLines, List.flatMap_map]
    rfl
  · simp only [ofLines, FragmentLine.numbered_seen, List.filterMap_map]
    rfl
  · simp only [ofLines, FragmentLine.numbered_seen, List.map_map]
    rfl

theorem extract_of_not_imports {source id moduleName : Bytes} (hv : isUtf8 source = true)
    (himports : ModuleImport.imports source moduleName = false) :
    extract source id moduleName = .ok {} := by
  rw [extract, if_neg (by simp [hv]), if_pos (by simp [himports])]

/-- Extraction fails on a source exactly when a construct is left open in it. -/
theorem exists_extract_iff {source id moduleName : Bytes} (hv : isUtf8 source = true)
    (himports : ModuleImport.imports source moduleName = true) :
    (∃ f, extract source id moduleName = .ok f) ↔ (State.run {} source).stack = [] := by
  rw [extract, if_neg (by simp [hv]), if_neg (by simp [himports])]
  cases hstack : (State.run {} source).stack with
  | nil => simp [templates, hstack]
  | cons frame outer => cases frame <;> simp [templates, hstack]

section
variable {kind : Comment} {before body body' after : Bytes}

/-- The templates of two sources that differ in the body of a comment stand at the same places. -/
theorem stands_comment (hcode : InCodeBefore Byte.slash before) (h : kind.IsBody after body)
    (h' : kind.IsBody after body') (hcount : body'.count Byte.newline = body.count Byte.newline)
    (hkeeps : KeepsTags before (kind.text body) (kind.text body') after) {ts ts' : List Template}
    (hts : templates (before ++ kind.text body ++ after) = .ok ts)
    (hts' : templates (before ++ kind.text body' ++ after) = .ok ts') :
    List.Forall₂ (Template.Stands false (before ++ kind.text body ++ after)
      (before ++ kind.text body' ++ after)) ts ts' := by
  obtain ⟨new, hfound, hfound', hnew⟩ := (twins h h' hcode).found hkeeps
  have hbase := (State.agrees_runBefore (some Byte.slash) before).1.found
  rw [(State.agrees_runBefore (some Byte.slash) before).2] at hbase
  have hlies : ∀ t ∈ ts, t.LiesIn (before ++ kind.text body ++ after) :=
    fun t ht => liesIn_of_mem_templates hts ht
  rw [found_of_templates hts, hfound, List.reverse_append] at hlies ⊢
  rw [found_of_templates hts', hfound', List.reverse_append, ← List.map_reverse]
  refine List.rel_append ?_ ?_
  · refine List.forall₂_same.2 fun t ht => ?_
    rw [List.append_assoc, List.append_assoc]
    exact stands_before (hbase t (List.mem_reverse.1 ht)) _ _
  · refine List.forall₂_map_right_iff.2 (List.forall₂_same.2 fun t ht => ?_)
    have hstart := hnew t (List.mem_reverse.1 ht)
    refine ⟨hlies t (List.mem_append_right _ ht), _, _, hstart, rfl, fun o ho _ => ?_⟩
    rw [List.length_reverse] at hstart
    rw [List.length_reverse, List.length_reverse]
    refine samePlace_behind ?_ after (by omega)
    rw [List.count_append, List.count_append, count_text, count_text, hcount]

/-- **A comment shows in nothing but tags.** Whether extraction succeeds does not depend on the body
of a comment in code outside all templates. What is extracted does not depend on it either, up to
columns, when the number of newlines stays the same and so do the tags of the templates close behind
the comment. -/
theorem comment_shows_in_tags_only {id moduleName : Bytes}
    (hcode : InCodeBefore Byte.slash before) (h : kind.IsBody after body)
    (h' : kind.IsBody after body') (hcount : body'.count Byte.newline = body.count Byte.newline)
    (hv : isUtf8 (before ++ kind.text body ++ after) = true)
    (hv' : isUtf8 (before ++ kind.text body' ++ after) = true)
    (himports : ModuleImport.imports (before ++ kind.text body' ++ after) moduleName =
      ModuleImport.imports (before ++ kind.text body ++ after) moduleName) :
    ((∃ f, extract (before ++ kind.text body' ++ after) id moduleName = .ok f) ↔
        ∃ f, extract (before ++ kind.text body ++ after) id moduleName = .ok f) ∧
      (KeepsTags before (kind.text body) (kind.text body') after → ∀ f f',
        extract (before ++ kind.text body ++ after) id moduleName = .ok f →
        extract (before ++ kind.text body' ++ after) id moduleName = .ok f' →
        f'.css = f.css ∧ f'.placeholderLines = f.placeholderLines ∧ f'.origins = f.origins) := by
  cases hmodule : ModuleImport.imports (before ++ kind.text body ++ after) moduleName with
  | false =>
    rw [hmodule] at himports
    refine ⟨⟨fun _ => ⟨{}, extract_of_not_imports hv hmodule⟩,
      fun _ => ⟨{}, extract_of_not_imports hv' himports⟩⟩, ?_⟩
    intro _ f f' hf hf'
    rw [eq_empty_of_extract hf hmodule, eq_empty_of_extract hf' himports]
    exact ⟨rfl, rfl, rfl⟩
  | true =>
    rw [hmodule] at himports
    constructor
    · have hlength := (twins h h' hcode).stack.length_eq
      rw [exists_extract_iff hv' himports, exists_extract_iff hv hmodule,
        ← List.length_eq_zero_iff, ← hlength, List.length_eq_zero_iff]
    · intro hkeeps f f' hf hf'
      obtain ⟨ts, hts, rfl⟩ := eq_ofLines_of_extract hf hmodule
      obtain ⟨ts', hts', rfl⟩ := eq_ofLines_of_extract hf' himports
      have hseen := seen_linesOf (stands_comment hcode h h' hcount hkeeps hts hts') {}
      obtain ⟨hcss, hlines, horigins⟩ := ofLines_seen
        (linesOf (before ++ kind.text body ++ after) {} ts)
      obtain ⟨hcss', hlines', horigins'⟩ := ofLines_seen
        (linesOf (before ++ kind.text body' ++ after) {} ts')
      rw [hseen] at hcss' hlines' horigins'
      exact ⟨hcss'.symm.trans hcss, hlines'.symm.trans hlines, horigins'.symm.trans horigins⟩

end

/-- The text before a comment and the text behind it, with a template in each. -/
def betweenSample : Bytes × Bytes :=
  (Bytes.ofString "import styled from 'styled-components'\nconst A = styled.a`b: c`\n",
    Bytes.ofString " const B = styled.b`\n  $\x7bmixin\x7d\n  e: f;\n`\n")

/-- Two bodies, one with a quote, backticks and the start of an interpolation. -/
def bodySamples : Bytes × Bytes :=
  (Bytes.ofString "\n it's `d` $\x7b\n", Bytes.ofString "*\n\n/")

/-- The fragment of both templates, with the column where the second one starts. -/
def betweenFragment (column : Int) : Fragment where
  css := Bytes.ofString ".selector0 \x7b\n  b: c\n\x7d\n.selector1 \x7b\n" ++
    Bytes.ofString "  -styled-mixin0: dummyValue;\n  e: f;\n\x7d\n"
  placeholderLines := [5]
  origins := [(1, 2), (2, 2), (3, 2), (4, 5), (5, 6), (6, 7), (7, 8)]
  anchors := [(1, [⟨12, 19⟩]), (2, [⟨3, 20⟩]), (3, [⟨1, 24⟩]), (4, [⟨12, column⟩]),
    (5, [⟨1, 1⟩, ⟨3, 3⟩]), (6, [⟨1, 1⟩]), (7, [⟨1, 1⟩])]

/-- The two bodies show in a column, and in nothing else. -/
theorem betweenSample_comment_unseen :
    ∃ f f', extract (betweenSample.1 ++ Comment.block.text bodySamples.1 ++ betweenSample.2) []
        defaultModule = .ok f ∧
      extract (betweenSample.1 ++ Comment.block.text bodySamples.2 ++ betweenSample.2) []
        defaultModule = .ok f' ∧
      f.placeholderLines = [5] ∧ f.origins.map Prod.snd = [2, 2, 2, 5, 6, 7, 8] ∧
      f'.anchors ≠ f.anchors ∧ f'.css = f.css ∧ f'.placeholderLines = f.placeholderLines ∧
      f'.origins = f.origins := by
  have hcode : InCodeBefore Byte.slash betweenSample.1 := by decide +kernel
  have h : Comment.block.IsBody betweenSample.2 bodySamples.1 := by decide +kernel
  have h' : Comment.block.IsBody betweenSample.2 bodySamples.2 := by decide +kernel
  have hkeeps : KeepsTags betweenSample.1 (Comment.block.text bodySamples.1)
      (Comment.block.text bodySamples.2) betweenSample.2 := by decide +kernel
  have hf : extract (betweenSample.1 ++ Comment.block.text bodySamples.1 ++ betweenSample.2) []
      defaultModule = .ok (betweenFragment 22) := by decide +kernel
  have hf' : extract (betweenSample.1 ++ Comment.block.text bodySamples.2 ++ betweenSample.2) []
      defaultModule = .ok (betweenFragment 23) := by decide +kernel
  refine ⟨_, _, hf, hf', rfl, rfl, by decide, ?_⟩
  exact (comment_shows_in_tags_only hcode h h' (by decide) (by decide +kernel)
    (by decide +kernel) (by decide +kernel)).2 hkeeps _ _ hf hf'

/-- A source with a template behind a line comment. -/
def hintSample (body : Bytes) : Bytes :=
  Bytes.ofString "import styled from 'styled-components'\n" ++ Comment.line.text body ++
    Bytes.ofString "\n`color: red;`\n"

/-- A comment that reads like a tag makes a template of rules out of the text behind it. -/
theorem hintSample_comment_seen :
    InCodeBefore Byte.slash (Bytes.ofString "import styled from 'styled-components'\n") ∧
      (∀ body ∈ [Bytes.ofString " styled.div", Bytes.ofString " x"],
        Comment.line.IsBody (Bytes.ofString "\n`color: red;`\n") body ∧
        body.count Byte.newline = 0 ∧ isUtf8 (hintSample body) = true ∧
        ModuleImport.imports (hintSample body) defaultModule = true) ∧
      (extract (hintSample (Bytes.ofString " styled.div")) [] defaultModule).map Fragment.css =
        .ok (Bytes.ofString ".selector0 \x7b\n  color: red;\n\x7d\n") ∧
      (extract (hintSample (Bytes.ofString " x")) [] defaultModule).map Fragment.css = .ok [] := by
  decide +kernel

end Fragment
end TemplateLint
