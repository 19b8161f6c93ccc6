import Mathlib
import TemplateLint.Proofs.Session.Stale
import TemplateLint.Proofs.Template.WellFormed

/-!
# Findings stay in the source

Every line of a fragment that the linter can find something on has a source line and anchors. So no
finding is reported at a place of the fragment: its line is a line of the source and its column is
counted from one. What keeps a source from being read is reported at a place of the source as well.
There is a verdict on every source, unless the linter breaks down over its fragment; over a short
fragment it does not.
-/
namespace TemplateLint
open Bytes Stylesheet

/-- A finding at a line of a source and at a column. -/
structure Finding.IsIn (source : Bytes) (f : Finding) : Prop where
  one_le_line : 1 ≤ f.line
  line_le : f.line ≤ (lines source).length
  one_le_column : 1 ≤ f.column

namespace Fragment
variable {source id moduleName : Bytes}

/-- A finding is moved to a line of the source. -/
theorem isIn_relocate {f : Fragment} (hx : extract source id moduleName = .ok f)
    {linter : Linter} {raw : Finding} (hraw : raw ∈ linter.findings f.css) (e : Entry) :
    ((e.addFragment f).relocate raw).IsIn source := by
  have hmaps := mapped_of_extract hx
  obtain ⟨origin, anchors, horigin, hanchors⟩ := exists_maps_of_mem_findings hx hraw
  obtain ⟨i, hi, rfl⟩ := exists_issue_of_mem_findings hraw
  have hcolumn : 1 ≤ (linter.finding i).column := by
    have hone := one_le_column_of_mem_issues hi
    simp only [Linter.finding]
    omega
  have hl : ((e.addFragment f).relocate (linter.finding i)).line = origin := by
    simp [Entry.relocate, Entry.addFragment, LineMap.get?_merge _ hmaps.origins, horigin]
  have hc : ((e.addFragment f).relocate (linter.finding i)).column =
      Anchor.sourceColumn (linter.finding i).column anchors := by
    simp [Entry.relocate, Entry.addFragment, LineMap.get?_merge _ hmaps.anchors, hanchors]
  obtain ⟨ls, rfl, hsingle, hpinned, hascends⟩ := exists_lines_extract hx
  have hbounds := (wellFormed_ofLines hsingle hpinned hascends).origins_bounds _ origin horigin
  refine ⟨?_, ?_, ?_⟩
  · rw [hl]
    exact hbounds.1
  · rw [hl]
    exact hbounds.2
  · rw [hc]
    exact Anchor.one_le_sourceColumn hcolumn anchors

/-- What keeps a source from being read is named at an offset of it. -/
theorem exists_offset_of_malformed {cause : Cause}
    (hx : extract source id moduleName = .error cause) {m : Malformed}
    (hm : cause.malformed? = some m) :
    ∃ o, m.line = (Position.ofOffset source o).line ∧
      m.column = (Position.ofOffset source o).column := by
  rw [extract] at hx
  split at hx
  · cases hx
    cases hm
  split at hx
  · cases hx
  split at hx
  · next u _ =>
    cases hx
    cases hm
    exact ⟨u.offset, rfl, rfl⟩
  · cases hx

end Fragment

theorem Malformed.isIn_of_mem_findings {m : Malformed} {source : Bytes} {o : Nat}
    (hline : m.line = (Position.ofOffset source o).line)
    (hcolumn : m.column = (Position.ofOffset source o).column) {path : Bytes} {f : Finding}
    (hf : f ∈ (m.verdict path).findings) : f.IsIn source := by
  have hle := Position.line_ofOffset_le source o
  have hone := Position.line_ofOffset source o
  have hcol := Position.one_le_column_ofOffset source o
  rw [Malformed.verdict, List.mem_singleton] at hf
  subst hf
  refine ⟨?_, ?_, ?_⟩
  · simp only [hline]
    omega
  · simp only [hline]
    omega
  · simp only [hcolumn]
    omega

namespace Setting
variable {s : Setting}

/-- Every finding that is reported about a source is in it. -/
theorem isIn_of_mem_findings (hdir : Path.isAbsolute s.directory = true) {linter : Linter}
    {source path : Bytes} {j : Journal} {f : Finding}
    (hf : f ∈ (s.lintSource linter.lint source path j).1.verdict.findings) : f.IsIn source := by
  rw [lintSource] at hf
  cases hx : s.extractor source (s.identify path j).1 with
  | ok fragment =>
    rw [verdict_of_ok hdir hx] at hf
    obtain ⟨raw, hraw, rfl⟩ := List.mem_map.1 hf
    exact Fragment.isIn_relocate hx (List.mem_of_mem_filter hraw) _
  | error cause =>
    cases hm : cause.malformed? with
    | some m =>
      rw [verdict_of_malformed hdir hx hm] at hf
      obtain ⟨o, hline, hcolumn⟩ := Fragment.exists_offset_of_malformed hx hm
      exact m.isIn_of_mem_findings hline hcolumn hf
    | none =>
      rw [verdict_of_other hdir hx hm] at hf
      change f ∈ linter.findings [] at hf
      rw [findings_nil] at hf
      cases hf

/-- A failure that is reported at once becomes the verdict. -/
theorem verdict_of_error? (hdir : Path.isAbsolute s.directory = true) {linter : Linter}
    {source path : Bytes} {j : Journal} {cause : Cause}
    (h : (s.lintSource linter.lint source path j).1.preparation.error? = some cause) :
    ∃ m, cause.malformed? = some m ∧
      (s.lintSource linter.lint source path j).1.verdict = m.verdict path := by
  have hprepared : (s.lintSource linter.lint source path j).1.preparation =
      ⟨(s.identify path j).1, s.extractor source (s.identify path j).1⟩ := rfl
  rw [hprepared, Preparation.error?] at h
  cases hx : s.extractor source (s.identify path j).1 with
  | ok fragment =>
    rw [hx] at h
    cases h
  | error other =>
    rw [hx] at h
    simp only [Option.ite_none_right_eq_some, Option.some.injEq, Option.isSome_iff_exists] at h
    obtain ⟨⟨m, hm⟩, rfl⟩ := h
    exact ⟨m, hm, verdict_of_malformed hdir hx hm⟩

/-- A source with a short fragment is linted. -/
theorem exists_tryLintSource_eq_ok {linter : Linter} {source path : Bytes} {j : Journal}
    (h : ∀ fragment, s.extractor source (s.identify path j).1 = .ok fragment →
      fragment.css.length * linter.width ≤ Machine.longestText) :
    ∃ r, s.tryLintSource linter source path j = .ok r := by
  cases htry : s.tryLintSource linter source path j with
  | ok r => exact ⟨r, rfl⟩
  | error b =>
    obtain ⟨fragment, hx, hbeyond⟩ := exists_tryLintSource_eq_error_iff.1 ⟨b, htry⟩
    have hsome := Stylesheet.isSome_breakdown?_iff.2 hbeyond
    rw [Stylesheet.breakdown?_eq_none (h fragment hx)] at hsome
    cases hsome

/-- **No place of a fragment is reported.** The linter finds something only on lines of a fragment
that have a source line and anchors. So every finding about a source, a malformed one included, is
at a line of the source and at a column, and no failure is left without a verdict. There is no
verdict exactly when a line of the fragment wants more spaces than a text can hold. -/
theorem findings_stay_in_source (hdir : Path.isAbsolute s.directory = true) (linter : Linter)
    (source path : Bytes) (j : Journal) :
    (∀ id fragment, s.extractor source id = .ok fragment →
      ∀ raw ∈ (linter.lint fragment.css).findings,
        (fragment.origins.get? raw.line).isSome = true ∧
          (fragment.anchors.get? raw.line).isSome = true) ∧
    (∀ run j', s.tryLintSource linter source path j = .ok (run, j') →
      (∀ f ∈ run.verdict.findings, f.IsIn source) ∧
      ∀ cause, run.preparation.error? = some cause →
        ∃ m, cause.malformed? = some m ∧ run.verdict = m.verdict path) ∧
    ((∃ b, s.tryLintSource linter source path j = .error b) ↔
      ∃ fragment, s.extractor source (s.identify path j).1 = .ok fragment ∧
        ∃ start ∈ Walk.starts {} (tokenize fragment.css), start.IsBeyond linter.width) ∧
    ((∀ fragment, s.extractor source (s.identify path j).1 = .ok fragment →
        fragment.css.length * linter.width ≤ Machine.longestText) →
      ∃ run j', s.tryLintSource linter source path j = .ok (run, j')) := by
  refine ⟨?_, ?_, exists_tryLintSource_eq_error_iff, ?_⟩
  · intro id fragment hx raw hraw
    obtain ⟨origin, anchors, horigin, hanchors⟩ := Fragment.exists_maps_of_mem_findings hx hraw
    simp [horigin, hanchors]
  · intro run j' htry
    obtain rfl : run = (s.lintSource linter.lint source path j).1 :=
      congrArg Prod.fst (eq_of_tryLintSource htry)
    exact ⟨fun f hf => isIn_of_mem_findings hdir hf, fun cause => verdict_of_error? hdir⟩
  · intro hshort
    obtain ⟨⟨run, j'⟩, htry⟩ := exists_tryLintSource_eq_ok hshort
    exact ⟨run, j', htry⟩

end Setting

/-- A source whose template is left open. -/
def unclosedSample : Bytes :=
  Bytes.ofString "import styled from 'styled-components'\n" ++
    Bytes.ofString "const A = styled.div`\n  color: red;\n"

/-- The place of the template that is left open. -/
def unclosedPlace : Malformed where
  file := Bytes.ofString "/a.js"
  line := 2
  column := 21
  reason := Bytes.ofString "Unclosed template literal"

/-- The template of the sample is reported where it starts, on the second of four lines. -/
theorem unclosedSample_stays_in_source :
    Path.isAbsolute (Setting.create [Byte.slash] []).directory = true ∧
    (lines unclosedSample).length = 4 ∧
    ∃ run j', (Setting.create [Byte.slash] []).tryLintSource {} unclosedSample
        (Bytes.ofString "a.js") {} = .ok (run, j') ∧
      run.verdict = unclosedPlace.verdict (Bytes.ofString "a.js") ∧
      ∀ f ∈ run.verdict.findings, f.IsIn unclosedSample := by
  have hdir : Path.isAbsolute (Setting.create [Byte.slash] []).directory = true := by decide
  have hx : (Setting.create [Byte.slash] []).extractor unclosedSample (Bytes.ofString "/a.js") =
      .error (.malformed unclosedPlace) := by
    decide +kernel
  have herror : ((Setting.create [Byte.slash] []).lintSource ({} : Linter).lint unclosedSample
      (Bytes.ofString "a.js") {}).1.preparation.error? = some (.malformed unclosedPlace) := by
    decide +kernel
  obtain ⟨-, hbounds, -, hreturns⟩ := Setting.findings_stay_in_source hdir {} unclosedSample
    (Bytes.ofString "a.js") {}
  -- without a fragment there is none that is too long
  obtain ⟨run, j', htry⟩ := hreturns fun fragment hfragment => by
    cases hx.symm.trans hfragment
  obtain ⟨hin, hverdict⟩ := hbounds run j' htry
  obtain rfl : run = _ := congrArg Prod.fst (Setting.eq_of_tryLintSource htry)
  obtain ⟨m, hm, hv⟩ := hverdict _ herror
  cases hm
  exact ⟨hdir, by decide +kernel, _, j', htry, hv, hin⟩

/-- There is not a verdict on every source: over a block inside a block the linter with wide steps
breaks down, although it does not look at indentation. -/
theorem wideSample_breaks_down :
    isUtf8 wideSample = true ∧ Linter.ofConfig wideConfig = .ok wideLinter ∧
    ∃ b, (Setting.create [Byte.slash] []).tryLintSource wideLinter wideSample
      (Bytes.ofString "a.js") {} = .error b :=
  ⟨by decide +kernel, by decide +kernel, _, tryLintSource_wideSample⟩

end TemplateLint
