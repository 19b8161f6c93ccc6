import Mathlib
import TemplateLint.Proofs.Template.Tiling

/-!
# The construct left open

Which constructs of a source are open can be told without the stack of the scanner. The scan meets
delimiters, `State.log` lists them in their order, and every closing one takes away the innermost
opening that is left, as brackets do. The stack of the scanner mirrors the openings that are left,
except that it counts the braces of an interpolation and forgets those outside all templates. So a
scan that fails names the construct that is still open at the end of the source while all those
opened behind it have been closed.
-/
namespace TemplateLint.Scan

/-! ## Delimiters -/

/-- A delimiter as a scan meets it. A construct is named by its kind and by its offset. -/
inductive Delimiter where
  /-- A backtick or a dollar sign that opens a construct. -/
  | opening (u : Unclosed)
  /-- A brace of code, other than the one that belongs to the dollar sign. -/
  | openBrace
  | closeBrace
  /-- A backtick that closes a template. -/
  | closeBacktick
  deriving DecidableEq

namespace Delimiter

/-- What has been opened and not yet closed. -/
inductive Opening where
  | construct (u : Unclosed)
  | brace
  deriving DecidableEq

/-- The openings that are left behind a delimiter, innermost first. A closing delimiter takes away
the innermost one, provided that it closes that kind. -/
def onto : Delimiter → List Opening → List Opening
  | opening u, left => .construct u :: left
  | openBrace, left => .brace :: left
  | closeBrace, .brace :: outer => outer
  | closeBrace, .construct (.interpolation _) :: outer => outer
  | closeBacktick, .construct (.template _) :: outer => outer
  | _, left => left

/-- The openings that are left behind delimiters. -/
def allOnto (log : List Delimiter) (left : List Opening) : List Opening :=
  log.foldl (fun left d => d.onto left) left

/-- The construct that a delimiter opens. -/
def opened? : Delimiter → Option Unclosed
  | opening u => some u
  | _ => none

/-- The construct that has been opened. -/
def Opening.construct? : Opening → Option Unclosed
  | construct u => some u
  | brace => none

@[simp] theorem opened?_eq_some_iff {d : Delimiter} {u : Unclosed} :
    d.opened? = some u ↔ d = .opening u := by
  cases d <;> simp [opened?]

/-- A delimiter adds what it opens, or takes openings away. -/
theorem onto_eq_or_sublist (d : Delimiter) (left : List Opening) :
    (∃ o, d.onto left = o :: left ∧ o.construct? = d.opened?) ∨
      (d.onto left).Sublist left ∧ d.opened? = none := by
  fun_cases onto d left with
  | case1 u left => exact .inl ⟨.construct u, rfl, rfl⟩
  | case2 left => exact .inl ⟨.brace, rfl, rfl⟩
  | case3 outer => exact .inr ⟨List.sublist_cons_self _ _, rfl⟩
  | case4 start outer => exact .inr ⟨List.sublist_cons_self _ _, rfl⟩
  | case5 start outer => exact .inr ⟨List.sublist_cons_self _ _, rfl⟩
  | case6 d left hopening _ _ _ _ =>
    refine .inr ⟨List.Sublist.refl _, ?_⟩
    cases d with
    | opening u => exact absurd rfl (hopening u)
    | _ => rfl

/-- The constructs that are left were opened in the order that they stand in, outermost first. -/
theorem sublist_allOnto (log : List Delimiter) :
    ((allOnto log []).filterMap Opening.construct?).Sublist (log.filterMap opened?).reverse := by
  induction log using List.reverseRecOn with
  | nil => exact List.Sublist.refl _
  | append_singleton log d ih =>
    have hlast : allOnto (log ++ [d]) [] = d.onto (allOnto log []) := by
      rw [allOnto, List.foldl_append]
      rfl
    rw [hlast, List.filterMap_append, List.reverse_append]
    obtain ⟨o, ho, hopened⟩ | ⟨hsub, hopened⟩ := d.onto_eq_or_sublist (allOnto log [])
    · rw [ho, ← List.singleton_append, List.filterMap_append]
      refine List.Sublist.append ?_ ih
      cases hd : d.opened? <;> simp [hopened, hd]
    · simpa [hopened] using (hsub.filterMap _).trans ih

end Delimiter
open Delimiter

namespace State

/-- The delimiter that a byte is in code. -/
def codeDelimiter? (s : State) (b : UInt8) : Option Delimiter :=
  if b = Byte.backtick then some (.opening (.template s.offset))
  else if b = Byte.openBrace then some .openBrace
  else if b = Byte.closeBrace then some .closeBrace
  else none

/-- The delimiter that a byte is in literal text. -/
def textDelimiter? (s : State) (b : UInt8) (next : Option UInt8) : Option Delimiter :=
  if b = Byte.backtick then some .closeBacktick
  else if b = Byte.dollar ∧ next = some Byte.openBrace then
    some (.opening (.interpolation s.offset))
  else none

/-- The delimiter that the byte `b` before `next` is. Strings, comments, regular expressions and
escapes hold none. -/
def delimiter? (s : State) (b : UInt8) (next : Option UInt8) : Option Delimiter :=
  match s.mode with
  | .code _ => s.codeDelimiter? b
  | .text => s.textDelimiter? b next
  | _ => none

/-- The delimiters of a text, in their order. -/
def log (s : State) : Bytes → List Delimiter
  | [] => []
  | b :: rest => (s.delimiter? b rest.head?).toList ++ (s.read b rest.head?).log rest

/-! ## Constructs are opened one behind the other -/

theorem offset_of_reading {s t : State} {b : UInt8} (hr : s.Reading b t) :
    t.offset = s.offset + 1 := by
  cases hr with
  | moved _ => rfl
  | opened _ => rfl
  | closed _ => unfold closeTemplate; split <;> rfl
  | started _ => unfold startInterpolation; split <;> rfl
  | deeper _ => unfold openBrace; split <;> rfl
  | ended _ => unfold closeBrace; split <;> rfl

theorem offset_read (s : State) (b : UInt8) (next : Option UInt8) :
    (s.read b next).offset = s.offset + 1 :=
  offset_of_reading (s.reading_read b next)

/-- A delimiter opens a construct where it stands. -/
theorem offset_of_delimiter? {s : State} {b : UInt8} {next : Option UInt8} {u : Unclosed}
    (h : s.delimiter? b next = some (.opening u)) : u.offset = s.offset := by
  unfold delimiter? codeDelimiter? textDelimiter? at h
  split at h
  · split_ifs at h <;> cases h
    rfl
  · split_ifs at h <;> cases h
    rfl
  · cases h

theorem le_offset_of_mem_log {s : State} {text : Bytes} {u : Unclosed}
    (h : .opening u ∈ s.log text) : s.offset ≤ u.offset := by
  induction text generalizing s with
  | nil => cases h
  | cons b rest ih =>
    rw [log, List.mem_append, Option.mem_toList] at h
    rcases h with h | h
    · exact Nat.le_of_eq (offset_of_delimiter? h).symm
    · have hle := ih h
      rw [offset_read] at hle
      omega

/-- The offsets of the constructs rise along a scan. -/
theorem pairwise_log (s : State) (text : Bytes) :
    ((s.log text).filterMap opened?).Pairwise fun u v => u.offset < v.offset := by
  induction text generalizing s with
  | nil => exact .nil
  | cons b rest ih =>
    rw [log, List.filterMap_append, List.pairwise_append]
    refine ⟨?_, ih _, ?_⟩
    · cases s.delimiter? b rest.head? with
      | none => exact .nil
      | some d => cases hd : d.opened? <;> simp [hd]
    · intro u hu v hv
      simp only [List.mem_filterMap, Option.mem_toList, opened?_eq_some_iff] at hu hv
      obtain ⟨_, hu, rfl⟩ := hu
      obtain ⟨_, hv, rfl⟩ := hv
      have hle := le_offset_of_mem_log hv
      rw [offset_read] at hle
      rw [offset_of_delimiter? hu]
      exact hle

end State

/-! ## The stack mirrors what is left open -/

/-- The constructs on a stack and the openings that are left. An interpolation stands on its
template and counts one brace more than those that are open in it, its own. Braces outside all
templates are not on the stack. -/
inductive Mirrors : List Frame → List Opening → Prop
  | code (n : Nat) : Mirrors [] (List.replicate n .brace)
  | template {start textStart : Nat} {tag : Option Tag} {parts : List Part} {outer : List Frame}
      {left : List Opening} (h : Mirrors outer left) :
      Mirrors (.template start tag parts textStart :: outer)
        (.construct (.template start) :: left)
  | interpolation {start opened textStart : Nat} {tag : Option Tag} {parts : List Part}
      {outer : List Frame} {left : List Opening} (n : Nat)
      (h : Mirrors (.template opened tag parts textStart :: outer) left) :
      Mirrors (.interpolation start (n + 1) :: .template opened tag parts textStart :: outer)
        (List.replicate n .brace ++ .construct (.interpolation start) :: left)

/-- The construct that stands on a stack. -/
def Frame.unclosed : Frame → Unclosed
  | template start _ _ _ => .template start
  | interpolation start _ => .interpolation start

namespace Mirrors

/-- The parts of the innermost template do not matter. -/
theorem withParts {start textStart : Nat} {tag : Option Tag} {parts : List Part}
    {outer : List Frame} {left : List Opening}
    (h : Mirrors (.template start tag parts textStart :: outer) left) (parts' : List Part)
    (textStart' : Nat) : Mirrors (.template start tag parts' textStart' :: outer) left := by
  cases h with
  | template h => exact .template h

variable {s : State} {b : UInt8} {left : List Opening}

theorem openBrace (h : Mirrors s.stack left) (hs : s.stack.head?.any Frame.isTemplate = false) :
    Mirrors (s.openBrace b).stack (Delimiter.openBrace.onto left) := by
  generalize hstack : s.stack = stack at h hs
  cases h with
  | code n =>
    simp only [State.openBrace, hstack]
    simpa [State.move, hstack, onto, List.replicate_succ] using Mirrors.code (n + 1)
  | template h => cases hs
  | interpolation n h =>
    simp only [State.openBrace, hstack]
    exact .interpolation (n + 1) h

/-- A brace of code closes a brace, or else the interpolation. -/
theorem closeBrace (h : Mirrors s.stack left) (hs : s.stack.head?.any Frame.isTemplate = false) :
    Mirrors (s.closeBrace b).stack (Delimiter.closeBrace.onto left) := by
  generalize hstack : s.stack = stack at h hs
  cases h with
  | code n =>
    simp only [State.closeBrace, hstack]
    cases n with
    | zero => simpa [State.move, hstack, onto] using Mirrors.code 0
    | succ n => simpa [State.move, hstack, List.replicate_succ, onto] using Mirrors.code n
  | template h => cases hs
  | interpolation n h =>
    cases n with
    | zero =>
      simp only [State.closeBrace, hstack]
      exact h.withParts _ _
    | succ n =>
      simp only [State.closeBrace, hstack]
      exact .interpolation n h

theorem closeTemplate (h : Mirrors s.stack left) (hs : s.stack.head?.any Frame.isTemplate = true) :
    Mirrors (s.closeTemplate b).stack (Delimiter.closeBacktick.onto left) := by
  generalize hstack : s.stack = stack at h hs
  cases h with
  | code n => cases hs
  | template h =>
    simp only [State.closeTemplate, hstack]
    exact h
  | interpolation n h => cases hs

theorem startInterpolation (h : Mirrors s.stack left)
    (hs : s.stack.head?.any Frame.isTemplate = true) :
    Mirrors (s.startInterpolation b).stack
      ((Delimiter.opening (.interpolation s.offset)).onto left) := by
  generalize hstack : s.stack = stack at h hs
  cases h with
  | code n => cases hs
  | template h =>
    simp only [State.startInterpolation, hstack]
    exact .interpolation 0 (.template h)
  | interpolation n h => cases hs

theorem readCode (h : Mirrors s.stack left) (hs : s.stack.head?.any Frame.isTemplate = false)
    (regex : Bool) (next : Option UInt8) :
    Mirrors (s.readCode regex b next).stack (allOnto (s.codeDelimiter? b).toList left) := by
  unfold State.readCode State.codeDelimiter?
  split_ifs
  · exact .template h
  · exact h.openBrace hs
  · exact h.closeBrace hs
  · exact h

theorem readText (h : Mirrors s.stack left) (hs : s.stack.head?.any Frame.isTemplate = true)
    (next : Option UInt8) :
    Mirrors (s.readText b next).stack (allOnto (s.textDelimiter? b next).toList left) := by
  unfold State.readText State.textDelimiter? textMode
  simp only [Bool.and_eq_true, decide_eq_true_eq]
  split_ifs with hbacktick hbackslash hdollar hdollar
  · exact h.closeTemplate hs
  · rw [hbackslash] at hdollar
    cases hdollar.1
  · exact h
  · exact h.startInterpolation hs
  · exact h

/-- What reading one byte does to the stack, its delimiter does to the openings. -/
theorem read {next : Option UInt8} (h : Mirrors s.stack left) (hs : s.Spells (some b)) :
    Mirrors (s.read b next).stack (allOnto (s.delimiter? b next).toList left) := by
  have hhead := hs.inText
  unfold State.read State.delimiter?
  cases hmode : s.mode with
  | code regex => exact h.readCode (by rw [hhead, hmode]; rfl) regex next
  | text => exact h.readText (by rw [hhead, hmode]; rfl) next
  | _ => exact h

/-- What a scan does to the stack, its delimiters do to the openings. -/
theorem run {text : Bytes} (h : Mirrors s.stack left) (hs : s.Spells text.head?)
    (ha : s.Agrees) : Mirrors (s.run text).stack (allOnto (s.log text) left) := by
  induction text generalizing s left with
  | nil => exact h
  | cons b rest ih =>
    have hrest := ih (h.read hs) (hs.of_step ha (s.step_read b rest.head?))
      (ha.of_reading (s.reading_read b rest.head?))
    rw [State.log, allOnto, List.foldl_append]
    exact hrest

/-- Only braces are open inside the innermost construct. -/
theorem exists_innermost {frame : Frame} {outer : List Frame}
    (h : Mirrors (frame :: outer) left) :
    ∃ n rest, left = List.replicate n .brace ++ .construct frame.unclosed :: rest := by
  cases h with
  | template h => exact ⟨0, _, rfl⟩
  | interpolation n h => exact ⟨n, _, rfl⟩

end Mirrors

/-! ## The construct that a failed scan names -/

/-- The delimiters of a source, as a scan from its start meets them. -/
def delimiters (source : Bytes) : List Delimiter := State.log {} source

/-- What is open at the end of a source, innermost first. -/
def leftOpen (source : Bytes) : List Opening := allOnto (delimiters source) []

/-- A construct that is still open at the end of a source, while every construct opened behind it
has been closed. -/
def Unclosed.IsInnermost (source : Bytes) (u : Unclosed) : Prop :=
  .construct u ∈ leftOpen source ∧
    ∃ before behind, delimiters source = before ++ .opening u :: behind ∧
      ∀ v, .opening v ∈ behind → .construct v ∉ leftOpen source

/-- A construct stands in a source with the delimiter that opens it. -/
def Unclosed.StandsIn (source : Bytes) : Unclosed → Prop
  | template start => source[start]? = some Byte.backtick
  | interpolation start =>
    source[start]? = some Byte.dollar ∧ source[start + 1]? = some Byte.openBrace

/-- The constructs that are left open, from the innermost outwards, were opened one before the
other. -/
theorem pairwise_leftOpen (source : Bytes) :
    ((leftOpen source).filterMap Opening.construct?).Pairwise fun u v => v.offset < u.offset :=
  (List.pairwise_reverse.2 (State.pairwise_log {} source)).sublist
    (sublist_allOnto (delimiters source))

theorem opening_mem_of_mem_leftOpen {source : Bytes} {u : Unclosed}
    (h : .construct u ∈ leftOpen source) : .opening u ∈ delimiters source := by
  have hmem : u ∈ (leftOpen source).filterMap Opening.construct? :=
    List.mem_filterMap.2 ⟨_, h, rfl⟩
  have hopened := (sublist_allOnto (delimiters source)).subset hmem
  simpa using hopened

/-- The first construct that is left is the innermost one. -/
theorem isInnermost_of_leftOpen {source : Bytes} {u : Unclosed} {n : Nat} {rest : List Opening}
    (h : leftOpen source = List.replicate n .brace ++ .construct u :: rest) :
    u.IsInnermost source := by
  have hleft : .construct u ∈ leftOpen source := by simp [h]
  obtain ⟨before, behind, hsplit⟩ := List.append_of_mem (opening_mem_of_mem_leftOpen hleft)
  refine ⟨hleft, before, behind, hsplit, fun v hv hopen => ?_⟩
  -- what is opened behind `u` starts behind it, and what else is left starts before it
  have hlater : u.offset < v.offset := by
    have hrise := State.pairwise_log {} source
    rw [← delimiters, hsplit, List.filterMap_append, List.pairwise_append] at hrise
    exact (List.pairwise_cons.1 hrise.2.1).1 v (List.mem_filterMap.2 ⟨_, hv, rfl⟩)
  have hfall := pairwise_leftOpen source
  have hmem : v ∈ (leftOpen source).filterMap Opening.construct? :=
    List.mem_filterMap.2 ⟨_, hopen, rfl⟩
  have hconstructs : (leftOpen source).filterMap Opening.construct? =
      u :: rest.filterMap Opening.construct? := by
    simp [h, Opening.construct?, List.filterMap_replicate]
  rw [hconstructs] at hfall hmem
  rcases List.mem_cons.1 hmem with rfl | hmem
  · exact Nat.lt_irrefl _ hlater
  · exact Nat.lt_asymm hlater ((List.pairwise_cons.1 hfall).1 v hmem)

/-- A scan fails with the construct on top of its stack. -/
theorem exists_stack_of_error {source : Bytes} {u : Unclosed} (h : templates source = .error u) :
    ∃ frame outer, (State.run {} source).stack = frame :: outer ∧ frame.unclosed = u := by
  simp only [templates] at h
  split at h
  · cases h
  · next hstack =>
    cases h
    exact ⟨_, _, hstack, rfl⟩
  · next hstack =>
    cases h
    exact ⟨_, _, hstack, rfl⟩

theorem isInnermost_of_error {source : Bytes} {u : Unclosed} (h : templates source = .error u) :
    u.IsInnermost source := by
  obtain ⟨frame, outer, hstack, rfl⟩ := exists_stack_of_error h
  have hmirrors : Mirrors (State.run {} source).stack (leftOpen source) :=
    Mirrors.run (s := {}) (.code 0) .initial .initial
  rw [hstack] at hmirrors
  obtain ⟨n, rest, hleft⟩ := hmirrors.exists_innermost
  exact isInnermost_of_leftOpen hleft

theorem standsIn_of_error {source : Bytes} {u : Unclosed} (h : templates source = .error u) :
    u.StandsIn source := by
  obtain ⟨frame, outer, hstack, rfl⟩ := exists_stack_of_error h
  have hread : (State.run {} source).source = source := State.source_run {} source
  cases frame with
  | template start tag parts textStart =>
    have hagrees : (State.run {} source).Agrees :=
      State.Agrees.initial.run source
    have hfits := hagrees.fits
    rw [hread, hstack] at hfits
    exact hfits.1.opening
  | interpolation start depth =>
    have hspells : (State.run {} source).Spells none :=
      State.Spells.initial.run .initial
    have hframe : Frame.IsSpelled _ _ := hspells.stack _ (hstack ▸ List.mem_cons_self)
    rw [hread, Option.toList_none, List.append_nil] at hframe
    obtain ⟨rest, hrest⟩ : [Byte.dollar, Byte.openBrace] <+: source.drop start := hframe
    have hget : ∀ i, source[start + i]? = ([Byte.dollar, Byte.openBrace] ++ rest)[i]? := by
      intro i
      rw [hrest, List.getElem?_drop]
    exact ⟨hget 0, hget 1⟩

end TemplateLint.Scan
