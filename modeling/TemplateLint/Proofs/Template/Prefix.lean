import Mathlib
import TemplateLint.Proofs.Template.Literal
import TemplateLint.Proofs.Template.Shift
import TemplateLint.Proofs.Template.WellFormed

/-!
# Sources that go on

What is extracted from a source stays when the source goes on. The import that made it worth
scanning is still there. The scanner looks ahead by one byte only, and what that byte decides is
the mode, never a template that is found. So the templates found so far are the first ones that are
found in the longer source, they stand at the same places, and their lines are the first lines of
the longer fragment.
-/
namespace TemplateLint
open Bytes

/-! ## Imports -/

namespace ModuleImport

/-- What is imported is mentioned. -/
theorem length_le_of_importsFrom {needle reversed s : Bytes}
    (h : importsFrom needle reversed 0 s = true) : needle.length ≤ s.length := by
  induction s generalizing reversed with
  | nil => cases h
  | cons b s ih =>
    rw [importsFrom] at h
    split at h
    · next hstarts =>
      rw [List.isPrefixOf_iff_prefix] at hstarts
      exact hstarts.length_le
    · exact Nat.le_succ_of_le (ih h)

/-- An import is found again when the source goes on. -/
theorem importsFrom_append {needle reversed s : Bytes} {skip : Nat}
    (h : importsFrom needle reversed skip s = true) (t : Bytes) :
    importsFrom needle reversed skip (s ++ t) = true := by
  induction s generalizing reversed skip with
  | nil => cases skip <;> cases h
  | cons b s ih =>
    cases skip with
    | succ skip => exact ih h
    | zero =>
      rw [List.cons_append, importsFrom]
      rw [importsFrom] at h
      split at h
      · next hstarts =>
        rw [List.isPrefixOf_iff_prefix] at hstarts
        have hlonger := hstarts.trans (List.prefix_append _ t)
        rw [if_pos (by simpa using hlonger), Bool.or_eq_true]
        exact (Bool.or_eq_true _ _ ▸ h).imp_right ih
      · next hstarts =>
        -- a mention across the end of the source would leave no room for the import
        have hroom := length_le_of_importsFrom h
        rw [if_neg]
        · exact ih h
        · intro hlonger
          rw [List.isPrefixOf_iff_prefix] at hlonger hstarts
          exact hstarts (List.prefix_of_prefix_length_le hlonger (List.prefix_append (b :: s) t)
            (Nat.le_succ_of_le hroom))

theorem imports_append {s name : Bytes} (h : imports s name = true) (t : Bytes) :
    imports (s ++ t) name = true := by
  simp only [imports, Bool.and_eq_true, Bool.or_eq_true] at h ⊢
  exact h.imp_right fun h => h.imp (importsFrom_append · t) (importsFrom_append · t)

end ModuleImport

/-! ## Templates -/

namespace Scan
namespace State

theorem found_startInterpolation (s : State) (b : UInt8) :
    (s.startInterpolation b).found = s.found := by
  unfold startInterpolation
  split <;> rfl

theorem found_readText (s : State) {b : UInt8} (hb : b ≠ Byte.backtick) (next : Option UInt8) :
    (s.readText b next).found = s.found := by
  rw [readText, if_neg hb]
  split
  · exact s.found_startInterpolation b
  · rfl

/-- What is found behind a byte does not depend on the byte that follows. -/
theorem found_read (s : State) (b : UInt8) (next next' : Option UInt8) :
    (s.read b next).found = (s.read b next').found := by
  unfold read
  split
  case h_1 => unfold readCode; split_ifs <;> rfl
  case h_12 =>
    by_cases hb : b = Byte.backtick
    · rw [readText, if_pos hb, readText, if_pos hb]
    · rw [s.found_readText hb, s.found_readText hb]
  all_goals rfl

theorem runBefore_concat (next : Option UInt8) (s : State) (text : Bytes) (b : UInt8) :
    s.runBefore next (text ++ [b]) = (s.runBefore (some b) text).read b next := by
  induction text generalizing s with
  | nil => rfl
  | cons c text ih =>
    rw [List.cons_append, runBefore, ih, runBefore, List.head?_append]
    simp

theorem found_runBefore (s : State) (text : Bytes) (next next' : Option UInt8) :
    (s.runBefore next text).found = (s.runBefore next' text).found := by
  rcases List.eq_nil_or_concat text with rfl | ⟨text, b, rfl⟩
  · rfl
  · rw [List.concat_eq_append, runBefore_concat, runBefore_concat]
    exact found_read _ b next next'

/-- Reading a byte finds at most one more template. -/
theorem found_of_reading {s t : State} {b : UInt8} (hr : s.Reading b t) : s.found <:+ t.found := by
  cases hr with
  | moved mode => exact List.suffix_refl _
  | opened hb => exact List.suffix_refl _
  | closed hb =>
    unfold closeTemplate
    split
    · next start tag parts textStart outer hstack =>
      cases tag with
      | none => exact List.suffix_refl _
      | some tag => exact List.suffix_cons _ _
    · exact List.suffix_refl _
  | started hb => rw [s.found_startInterpolation b]
  | deeper hb =>
    unfold openBrace
    split <;> exact List.suffix_refl _
  | ended hb =>
    unfold closeBrace
    split <;> exact List.suffix_refl _

theorem found_run (s : State) (text : Bytes) : s.found <:+ (s.run text).found := by
  induction text generalizing s with
  | nil => exact List.suffix_refl _
  | cons b rest ih => exact (found_of_reading (s.reading_read b rest.head?)).trans (ih _)

end State

theorem found_of_templates {source : Bytes} {found : List Template}
    (h : templates source = .ok found) : found = (State.run {} source).found.reverse := by
  simp only [templates] at h
  split at h
  · cases h
    rfl
  · cases h
  · cases h

/-- The templates of a source are the first ones of a source that goes on. -/
theorem templates_append {s t : Bytes} {found found' : List Template}
    (h : templates s = .ok found) (h' : templates (s ++ t) = .ok found') : found <+: found' := by
  have hends : (State.run {} s).found = (State.runBefore t.head? {} s).found := by
    have hrun := State.run_append {} s []
    rw [List.append_nil] at hrun
    rw [hrun]
    exact State.found_runBefore {} s none t.head?
  rw [found_of_templates h, found_of_templates h', List.reverse_prefix, hends, State.run_append]
  exact State.found_run _ t

end Scan

/-! ## Lines -/

theorem Position.ofOffset_append {s : Bytes} {o : Nat} (h : o ≤ s.length) (t : Bytes) :
    ofOffset (s ++ t) o = ofOffset s o := by
  rw [ofOffset, List.take_append_of_le_length h, ofOffset]

/-- A template stands where it stood when the source goes on. -/
theorem Template.LiesIn.stands_append {s : Bytes} {u : Template} (h : u.LiesIn s) (t : Bytes) :
    u.Stands true s (s ++ t) u where
  lies := h
  shifted := by
    have hstop := (List.getElem?_eq_some_iff.1 h.closing).1
    refine ⟨0, 0, Nat.zero_le _, u.shift_zero.symm, fun o _ ho => ?_⟩
    have hsame := Position.ofOffset_append (by omega : o ≤ s.length) t
    exact ⟨congrArg Position.line hsame, fun _ => congrArg Position.column hsame⟩

namespace Fragment

theorem linesOf_append (source : Bytes) (counters : Counters) (ts us : List Template) :
    linesOf source counters ts <+: linesOf source counters (ts ++ us) := by
  induction ts generalizing counters with
  | nil => exact List.nil_prefix
  | cons t ts ih =>
    rw [List.cons_append, linesOf, linesOf, List.prefix_append_right_inj]
    exact ih _

/-- The lines of templates are the first lines of these and further templates in a source that goes
on. -/
theorem linesOf_mono {s : Bytes} {ts ts' : List Template} (hlies : ∀ u ∈ ts, u.LiesIn s)
    (h : ts <+: ts') (t : Bytes) : linesOf s {} ts <+: linesOf (s ++ t) {} ts' := by
  have hstands : List.Forall₂ (Template.Stands true s (s ++ t)) ts ts :=
    List.forall₂_same.2 fun u hu => (hlies u hu).stands_append t
  have hsame : linesOf (s ++ t) {} ts = linesOf s {} ts := by
    simpa only [FragmentLine.map_seen_true] using seen_linesOf hstands {}
  obtain ⟨us, rfl⟩ := h
  rw [← hsame]
  exact linesOf_append (s ++ t) {} ts us

/-! ## Fragments -/

/-- A number of a line of the fragment. -/
def hasLine (f : Fragment) (n : Int) : Bool :=
  decide (1 ≤ n ∧ n ≤ f.css.count Byte.newline)

/-- A fragment whose lines are the first lines of another. On these lines the maps of both are the
same. -/
structure Begins (f g : Fragment) : Prop where
  css : f.css <+: g.css
  origins : g.origins.filter (fun entry => f.hasLine entry.1) = f.origins
  anchors : g.anchors.filter (fun entry => f.hasLine entry.1) = f.anchors
  placeholderLines : g.placeholderLines.filter f.hasLine = f.placeholderLines

/-- The numbers of the first lines are small, those of all others are not. -/
theorem filterMap_numbered_append {α : Type} {value : Int × FragmentLine → Option α}
    (number : α → Int) (hnumber : ∀ entry v, value entry = some v → number v = entry.1)
    {ls : List FragmentLine} (hsingle : ∀ l ∈ ls, Byte.newline ∉ l.text)
    (more : List FragmentLine) :
    ((numbered (ls ++ more)).filterMap value).filter (fun v => (ofLines ls).hasLine (number v)) =
      (numbered ls).filterMap value := by
  have hcount := count_css hsingle
  rw [numbered, List.zipIdx_append, List.map_append, ← numbered, List.filterMap_append,
    List.filter_append]
  have hfirst : ∀ v ∈ (numbered ls).filterMap value, (ofLines ls).hasLine (number v) = true := by
    intro v hv
    obtain ⟨⟨n, l⟩, hmem, hvalue⟩ := List.mem_filterMap.1 hv
    have hline := (exists_line_iff hsingle n).1 (by
      obtain ⟨i, rfl, hl⟩ := mem_numbered.1 hmem
      exact ⟨i, l, rfl, hl⟩)
    rw [hnumber _ _ hvalue]
    exact decide_eq_true hline
  rw [List.filter_eq_self.2 hfirst, List.append_right_eq_self, List.filter_eq_nil_iff]
  intro v hv
  obtain ⟨⟨n, l⟩, hmem, hvalue⟩ := List.mem_filterMap.1 hv
  obtain ⟨⟨l', i⟩, hmem, heq⟩ := List.mem_map.1 hmem
  cases heq
  have hi := List.le_snd_of_mem_zipIdx hmem
  rw [hnumber _ _ hvalue, hasLine, hcount]
  simp only [decide_eq_true_eq]
  omega

/-- The fragment of the first lines is the first lines of the fragment. -/
theorem begins_ofLines {ls ls' : List FragmentLine} (hsingle : ∀ l ∈ ls, Byte.newline ∉ l.text)
    (h : ls <+: ls') : (ofLines ls).Begins (ofLines ls') := by
  obtain ⟨more, rfl⟩ := h
  refine ⟨?_, ?_, ?_, ?_⟩
  · simp only [ofLines, List.flatMap_append]
    exact List.prefix_append _ _
  · rw [origins_ofLines, origins_ofLines]
    refine filterMap_numbered_append Prod.fst ?_ hsingle more
    intro entry v hv
    obtain ⟨-, -, rfl⟩ := Option.map_eq_some_iff.1 hv
    rfl
  · rw [anchors_ofLines, anchors_ofLines]
    refine filterMap_numbered_append Prod.fst ?_ hsingle more
    intro entry v hv
    obtain ⟨-, -, rfl⟩ := Option.map_eq_some_iff.1 hv
    rfl
  · refine filterMap_numbered_append id ?_ hsingle more
    intro entry v hv
    simp only [Option.ite_none_right_eq_some, Option.some.injEq] at hv
    exact hv.2.symm

/-- The fragment of a source that imports the module is that of the templates found in it. -/
theorem eq_ofLines_of_extract {source id moduleName : Bytes} {f : Fragment}
    (h : extract source id moduleName = .ok f)
    (himports : ModuleImport.imports source moduleName = true) :
    ∃ templates, Scan.templates source = .ok templates ∧
      f = ofLines (linesOf source {} templates) := by
  rw [extract, if_neg (by simp [isUtf8_of_extract h]), if_neg (by simp [himports])] at h
  split at h
  · cases h
  · next templates htemplates =>
    cases h
    exact ⟨templates, htemplates, rfl⟩

/-- **Extraction is stable under going on.** When a source that imports the module goes on, what was
extracted from it is the beginning of what is extracted, and the maps say the same about it. -/
theorem extract_append_begins {s t id id' moduleName : Bytes} {f g : Fragment}
    (himports : ModuleImport.imports s moduleName = true)
    (hf : extract s id moduleName = .ok f) (hg : extract (s ++ t) id' moduleName = .ok g) :
    f.Begins g := by
  obtain ⟨ts, hts, rfl⟩ := eq_ofLines_of_extract hf himports
  obtain ⟨ts', hts', rfl⟩ :=
    eq_ofLines_of_extract hg (ModuleImport.imports_append himports t)
  have hlies : ∀ u ∈ ts, u.LiesIn s := fun u hu => Scan.liesIn_of_mem_templates hts hu
  obtain ⟨blocks, hplaced, -⟩ := exists_blocks_linesOf (isUtf8_of_extract hf) hlies {}
  exact begins_ofLines (single_of_placed hplaced)
    (linesOf_mono hlies (Scan.templates_append hts hts') t)

/-- A source that breaks off inside a word, and how it goes on. -/
def brokenSample : Bytes × Bytes :=
  (Bytes.ofString "import styled from 'styled-components'\n" ++
      Bytes.ofString "const A = styled.a`\n  $\x7bmixin\x7d\n  b: c;\n`\nretur",
    Bytes.ofString "n /`/\nconst B = styled.b`d: e`\n")

/-- The lines of the second template come behind those of the first. -/
theorem brokenSample_begins :
    ∃ f g, extract brokenSample.1 [] defaultModule = .ok f ∧
      extract (brokenSample.1 ++ brokenSample.2) [] defaultModule = .ok g ∧
      f.placeholderLines = [2] ∧ f.origins.length = 4 ∧ g.origins.length = 7 ∧ f.Begins g := by
  have himports : ModuleImport.imports brokenSample.1 defaultModule = true := by decide +kernel
  have hf : extract brokenSample.1 [] defaultModule = .ok {
      css := Bytes.ofString ".selector0 \x7b\n  -styled-mixin0: dummyValue;\n  b: c;\n\x7d\n"
      placeholderLines := [2]
      origins := [(1, 2), (2, 3), (3, 4), (4, 5)]
      anchors := [(1, [⟨12, 19⟩]), (2, [⟨1, 1⟩, ⟨3, 3⟩]), (3, [⟨1, 1⟩]), (4, [⟨1, 1⟩])] } := by
    decide +kernel
  have hg : extract (brokenSample.1 ++ brokenSample.2) [] defaultModule = .ok {
      css := Bytes.ofString ".selector0 \x7b\n  -styled-mixin0: dummyValue;\n  b: c;\n\x7d\n" ++
        Bytes.ofString ".selector1 \x7b\n  d: e\n\x7d\n"
      placeholderLines := [2]
      origins := [(1, 2), (2, 3), (3, 4), (4, 5), (5, 7), (6, 7), (7, 7)]
      anchors := [(1, [⟨12, 19⟩]), (2, [⟨1, 1⟩, ⟨3, 3⟩]), (3, [⟨1, 1⟩]), (4, [⟨1, 1⟩]),
        (5, [⟨12, 19⟩]), (6, [⟨3, 20⟩]), (7, [⟨1, 24⟩])] } := by
    decide +kernel
  exact ⟨_, _, hf, hg, rfl, rfl, rfl, extract_append_begins himports hf hg⟩

end Fragment
end TemplateLint
