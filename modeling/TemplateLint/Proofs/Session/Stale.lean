import Mathlib
import TemplateLint.Proofs.Session.Lint

/-!
# What earlier passes can do to a verdict

A pass brings its own source line and its own anchors for every line that a finding can be on, and
its outcome replaces the failure of the attempt before. Only the placeholder lines of earlier
passes stay. So a session that has seen the input before gives the verdict of a fresh one that
knows these lines as well: it leaves out findings about indentation and changes no other.
-/
namespace TemplateLint
open Bytes Stylesheet

/-! ## The journal after a history -/

namespace Setting

/-- Lint sources one after the other with one journal. -/
def lintSources (s : Setting) (linter : StylesheetLinter) :
    List (Bytes × Bytes) → Journal → List LintRun × Journal
  | [], j => ([], j)
  | (path, source) :: rest, j =>
    let (run, j) := s.lintSource linter source path j
    let (runs, j) := lintSources s linter rest j
    (run :: runs, j)

variable {s : Setting}

theorem entry_lintSource (linter : StylesheetLinter) (source path : Bytes) (j : Journal)
    (k : Bytes) :
    (s.lintSource linter source path j).2.entry k =
      (j.entry k).addAttempts (Preparation.attemptsFor k
        [(s.lintSource linter source path j).1.preparation]) := by
  rw [lintSource, lintWith, entry_prepare, Preparation.attemptsFor_singleton]
  split <;> rfl

/-- A history leaves behind what its attempts leave behind, for every identifier on its own. -/
theorem entry_lintSources (linter : StylesheetLinter) (history : List (Bytes × Bytes))
    (j : Journal) (k : Bytes) :
    (s.lintSources linter history j).2.entry k =
      (j.entry k).addAttempts (Preparation.attemptsFor k
        ((s.lintSources linter history j).1.map LintRun.preparation)) := by
  induction history generalizing j with
  | nil => rfl
  | cons input history ih =>
    obtain ⟨path, source⟩ := input
    have hstep := ih (s.lintSource linter source path j).2
    rw [entry_lintSource, ← Entry.addAttempts_append, ← Preparation.attemptsFor_append] at hstep
    exact hstep

/-- The lines that held placeholders when a history passed over the input with an identifier. -/
def staleLines (s : Setting) (linter : StylesheetLinter) (history : List (Bytes × Bytes))
    (id : Bytes) : List Int :=
  (Entry.passes (Preparation.attemptsFor id
    ((s.lintSources linter history {}).1.map LintRun.preparation))).flatMap
      Fragment.placeholderLines

theorem placeholderLines_lintSources (linter : StylesheetLinter)
    (history : List (Bytes × Bytes)) (id : Bytes) :
    ((s.lintSources linter history {}).2.entry id).placeholderLines =
      s.staleLines linter history id := by
  rw [entry_lintSources, Entry.placeholderLines_addAttempts]
  rfl

theorem identify_of_ne_nil {path : Bytes} (h : path ≠ []) (j : Journal) :
    (s.identify path j).1 = Path.absolute s.directory path := by
  rw [identify, if_neg (by simpa using h)]

end Setting

/-! ## Correcting by two entries that agree -/

namespace Entry

/-- Two entries correct findings alike when they agree on every one of them. -/
theorem correctFindings_congr {e e' : Entry} {findings : List Finding}
    (hcaused : ∀ f ∈ findings, e.isCausedByPlaceholder f = e'.isCausedByPlaceholder f)
    (hplace : ∀ f ∈ findings, e.relocate f = e'.relocate f) :
    e.correctFindings findings = e'.correctFindings findings := by
  have hfilter : (findings.filter fun f => !e.isCausedByPlaceholder f) =
      findings.filter fun f => !e'.isCausedByPlaceholder f :=
    List.filter_congr fun f hf => by rw [hcaused f hf]
  rw [correctFindings, correctFindings, hfilter]
  exact List.map_congr_left fun f hf => hplace f (List.mem_of_mem_filter hf)

/-- A pass with a line decides where findings on that line go. -/
theorem relocate_addFragment {f : Fragment} (hmaps : f.Mapped) {raw : Finding}
    (h : ∃ origin anchors, f.origins.get? raw.line = some origin ∧
      f.anchors.get? raw.line = some anchors) (e e' : Entry) :
    (e.addFragment f).relocate raw = (e'.addFragment f).relocate raw := by
  obtain ⟨origin, anchors, horigin, hanchors⟩ := h
  simp [relocate, addFragment, LineMap.get?_merge _ hmaps.origins,
    LineMap.get?_merge _ hmaps.anchors, horigin, hanchors]

end Entry

/-- Every line with a finding has a source line and anchors. -/
theorem Fragment.exists_maps_of_mem_findings {source id moduleName : Bytes} {f : Fragment}
    (hx : extract source id moduleName = .ok f) {linter : Linter} {raw : Finding}
    (hraw : raw ∈ linter.findings f.css) :
    ∃ origin anchors, f.origins.get? raw.line = some origin ∧
      f.anchors.get? raw.line = some anchors := by
  obtain ⟨templates, blocks, lines, -, rfl, hplaced, hkeeps⟩ :=
    exists_keeps_of_mem_findings hx hraw
  obtain ⟨i, hi, rfl⟩ := exists_issue_of_mem_findings hraw
  obtain ⟨column, r, hr⟩ := (runeAt?_of_mem_issues hkeeps.isUtf8_css hi).1
  exact exists_maps_of_runeAt? hplaced hr

/-! ## Verdicts after a history -/

/-- A fragment that knows of more lines with placeholders. -/
def Fragment.withLines (lines : List Int) (f : Fragment) : Fragment :=
  { f with placeholderLines := lines ++ f.placeholderLines }

/-- Of what was recorded before a pass only the placeholder lines matter. -/
theorem Entry.correct_addFragment {source id moduleName : Bytes} {f : Fragment}
    (hx : Fragment.extract source id moduleName = .ok f) (linter : Linter) (path : Bytes)
    (e : Entry) :
    (e.addFragment f).correct { linter.lint f.css with source := path } =
      (({} : Entry).addFragment (f.withLines e.placeholderLines)).correct
        { linter.lint f.css with source := path } := by
  have hfindings : (e.addFragment f).correctFindings (linter.findings f.css) =
      (({} : Entry).addFragment (f.withLines e.placeholderLines)).correctFindings
        (linter.findings f.css) := by
    refine correctFindings_congr (fun raw _ => rfl) fun raw hraw => ?_
    exact relocate_addFragment (Fragment.mapped_of_extract hx)
      (Fragment.exists_maps_of_mem_findings hx hraw) e {}
  have hlint : (linter.lint f.css).findings = linter.findings f.css := rfl
  simp only [Entry.correct, Entry.addFragment, hlint] at hfindings ⊢
  rw [hfindings]

/-- The findings about indentation on some lines. -/
def Finding.isIndentationOn (lines : List Int) (f : Finding) : Bool :=
  f.rule == placeholderRule && lines.contains f.line

/-- A verdict that says the same as another but for findings about indentation. They are dropped on
the given lines of the fragment, and the verdict is no longer errored if no error is left. -/
structure Verdict.IsThinned (v full : Verdict) (raw : List Finding) (lines : List Int) :
    Prop where
  source : v.source = full.source
  failures : v.failures = full.failures
  findings : ∃ (kept : List Finding) (move : Finding → Finding), kept.Sublist raw ∧
    full.findings = kept.map move ∧
    v.findings = (kept.filter fun f => !f.isIndentationOn lines).map move
  errored : v.errored = full.errored ∨ v.errored = false ∧ v.findings.any Finding.isError = false

theorem Verdict.isThinned_self {v : Verdict} {lines : List Int}
    (h : ∀ f ∈ v.findings, f.rule ≠ placeholderRule) : v.IsThinned v v.findings lines where
  source := rfl
  failures := rfl
  findings := by
    have hkept : (v.findings.filter fun f => !f.isIndentationOn lines) = v.findings := by
      refine List.filter_eq_self.2 fun f hf => ?_
      simp [Finding.isIndentationOn, h f hf]
    exact ⟨v.findings, id, List.Sublist.refl _, by simp, by simp [hkept]⟩
  errored := .inl rfl

/-- More placeholder lines drop more findings about indentation. -/
theorem Entry.correctFindings_withLines (f : Fragment) (lines : List Int)
    (findings : List Finding) :
    (({} : Entry).addFragment (f.withLines lines)).correctFindings findings =
      ((findings.filter fun g => !(({} : Entry).addFragment f).isCausedByPlaceholder g).filter
        fun g => !g.isIndentationOn lines).map (({} : Entry).addFragment f).relocate := by
  rw [List.filter_filter]
  refine congrArg (List.map _) (List.filter_congr fun g _ => ?_)
  simp only [isCausedByPlaceholder, Finding.isIndentationOn, addFragment, Fragment.withLines]
  cases g.rule == placeholderRule <;> simp

/-- More placeholder lines thin the verdict on a pass. -/
theorem Entry.isThinned_correct (f : Fragment) (lines : List Int) (raw : Verdict) :
    ((({} : Entry).addFragment (f.withLines lines)).correct raw).IsThinned
      ((({} : Entry).addFragment f).correct raw) raw.findings lines := by
  have hfindings := correctFindings_withLines f lines raw.findings
  have hsub : (({} : Entry).addFragment (f.withLines lines)).correctFindings raw.findings ⊆
      (({} : Entry).addFragment f).correctFindings raw.findings := by
    rw [hfindings]
    exact List.map_subset _ List.filter_sublist.subset
  refine ⟨rfl, rfl, ⟨_, _, List.filter_sublist, rfl, hfindings⟩, ?_⟩
  -- as long as an error is left, neither verdict is cleared
  cases hany : ((({} : Entry).addFragment (f.withLines lines)).correctFindings raw.findings).any
      Finding.isError with
  | false =>
    refine .inr ⟨?_, hany⟩
    change (raw.errored && _) = false
    rw [hany, Bool.and_false]
  | true =>
    obtain ⟨g, hg, hg'⟩ := List.any_eq_true.1 hany
    have hfull : ((({} : Entry).addFragment f).correctFindings raw.findings).any
        Finding.isError = true := List.any_eq_true.2 ⟨g, hsub hg, hg'⟩
    left
    change (raw.errored && _) = (raw.errored && _)
    rw [hany, hfull]

namespace Setting
variable {s : Setting}

/-- Linting with a journal gives the verdict of a fresh session that knows the placeholder lines of
the journal. -/
theorem verdict_lintSource (hdir : Path.isAbsolute s.directory = true) (linter : Linter)
    (source : Bytes) {path : Bytes} (hpath : path ≠ []) (j : Journal) :
    (s.lintSource linter.lint source path j).1.verdict =
      (s.lintWith linter.lint (fun id => (s.extractor source id).map
        (·.withLines (j.entry (Path.absolute s.directory path)).placeholderLines)) path
          {}).1.verdict := by
  have hid := identify_of_ne_nil (s := s) hpath
  cases hx : s.extractor source (Path.absolute s.directory path) with
  | ok f =>
    rw [lintSource, verdict_of_ok hdir (by rw [hid, hx]), hid,
      verdict_of_ok hdir (by rw [hid, hx]; rfl), hid]
    exact Entry.correct_addFragment hx linter path _
  | error cause =>
    cases hm : cause.malformed? with
    | some m =>
      rw [lintSource, verdict_of_malformed hdir (by rw [hid, hx]) hm,
        verdict_of_malformed hdir (by rw [hid, hx]; rfl) hm]
    | none =>
      rw [lintSource, verdict_of_other hdir (by rw [hid, hx]) hm,
        verdict_of_other hdir (by rw [hid, hx]; rfl) hm]

/-- The placeholder lines of a journal thin the verdict of a fresh session. -/
theorem isThinned_lintSource (hdir : Path.isAbsolute s.directory = true) (linter : Linter)
    (source : Bytes) {path : Bytes} (hpath : path ≠ []) (j : Journal) :
    (s.lintSource linter.lint source path j).1.verdict.IsThinned
      (s.lintSource linter.lint source path {}).1.verdict
      (s.lintSource linter.lint source path {}).1.raw.findings
      (j.entry (Path.absolute s.directory path)).placeholderLines := by
  have hid := identify_of_ne_nil (s := s) hpath
  have hraw : (s.lintSource linter.lint source path {}).1.raw = rawVerdict linter.lint path
      ⟨(s.identify path {}).1, s.extractor source (s.identify path {}).1⟩ := rfl
  rw [hraw, hid]
  cases hx : s.extractor source (Path.absolute s.directory path) with
  | ok f =>
    have hlast : (s.lintSource linter.lint source path j).1.verdict = _ :=
      (verdict_lintSource hdir linter source hpath j).trans
        (verdict_of_ok hdir (by rw [hid, hx]; rfl))
    have hfull : (s.lintSource linter.lint source path {}).1.verdict = _ :=
      verdict_of_ok hdir (by rw [hid, hx])
    rw [hlast, hfull]
    exact Entry.isThinned_correct f _ _
  | error cause =>
    -- a failed attempt is judged without the journal
    cases hm : cause.malformed? with
    | some m =>
      have hverdict : ∀ j, (s.lintSource linter.lint source path j).1.verdict = m.verdict path :=
        fun j => verdict_of_malformed hdir (by rw [hid, hx]) hm
      have hrules : ∀ f ∈ (m.verdict path).findings, f.rule ≠ placeholderRule := by
        intro f hf
        rw [List.mem_singleton.1 hf]
        exact malformedRule_ne_name .indentation
      rw [hverdict, hverdict]
      simpa [rawVerdict, Preparation.error?, hm] using Verdict.isThinned_self hrules
    | none =>
      have hverdict : ∀ j, (s.lintSource linter.lint source path j).1.verdict = _ :=
        fun j => verdict_of_other hdir (by rw [hid, hx]) hm
      have hrules : ∀ f ∈ linter.findings [], f.rule ≠ placeholderRule := by
        simp [findings_nil]
      rw [hverdict, hverdict]
      simpa [rawVerdict, Preparation.error?, Preparation.css, hm] using
        Verdict.isThinned_self hrules

/-- The run over a source after a history of runs with one journal. -/
def lintAfter (s : Setting) (linter : StylesheetLinter) (history : List (Bytes × Bytes))
    (source path : Bytes) : LintRun :=
  (s.lintSource linter source path (s.lintSources linter history {}).2).1

/-- **Earlier passes only suppress.** After any history a source with a path gets the verdict of a
fresh session whose extraction is extended by the placeholder lines of the earlier passes over that
input. So the verdict differs from the one without a history by findings about indentation on those
lines at most. -/
theorem history_only_suppresses (hdir : Path.isAbsolute s.directory = true) (linter : Linter)
    (history : List (Bytes × Bytes)) (source : Bytes) {path : Bytes} (hpath : path ≠ []) :
    (s.lintAfter linter.lint history source path).verdict =
        (s.lintWith linter.lint (fun id => (s.extractor source id).map
          (·.withLines (s.staleLines linter.lint history id))) path {}).1.verdict ∧
      (s.lintAfter linter.lint history source path).verdict.IsThinned
        (s.lintAfter linter.lint [] source path).verdict
        (s.lintAfter linter.lint [] source path).raw.findings
        (s.staleLines linter.lint history
          (s.lintAfter linter.lint history source path).preparation.id) := by
  have hid := identify_of_ne_nil (s := s) hpath
  have hstale := placeholderLines_lintSources (s := s) linter.lint history
    (Path.absolute s.directory path)
  constructor
  · have hverdict := verdict_lintSource hdir linter source hpath
      (s.lintSources linter.lint history {}).2
    rw [hstale] at hverdict
    rw [lintAfter, hverdict, verdict_lintWith hdir, verdict_lintWith hdir, hid]
  · have hthinned := isThinned_lintSource hdir linter source hpath
      (s.lintSources linter.lint history {}).2
    rw [hstale, ← hid (s.lintSources linter.lint history {}).2] at hthinned
    exact hthinned

end Setting

/-- A history that leaves a placeholder behind on the second line of `/a.js`. -/
def mixinHistory : List (Bytes × Bytes) :=
  [(Bytes.ofString "a.js", Bytes.ofString "import styled from 'styled-components'\n" ++
    Bytes.ofString "const A = styled.div`\n  $\x7bmixin\x7d;\n`\n")]

/-- A template with a declaration that is indented too far, on the same line. -/
def indentedSample : Bytes :=
  Bytes.ofString "import styled from 'styled-components'\n" ++
    Bytes.ofString "const A = styled.div`\n    color: red;\n  top: 0;\n`\n"

/-- The finding about the sample is suppressed by the history under the same path, and is left alone
under another. -/
theorem mixinHistory_suppresses_indentation :
    ((Setting.create [Byte.slash] []).lintAfter ({} : Linter).lint mixinHistory indentedSample
        (Bytes.ofString "a.js")).verdict.findings = [] ∧
      ((Setting.create [Byte.slash] []).lintAfter ({} : Linter).lint mixinHistory indentedSample
        (Bytes.ofString "b.js")).verdict.findings ≠ [] ∧
      ((Setting.create [Byte.slash] []).lintAfter ({} : Linter).lint mixinHistory indentedSample
        (Bytes.ofString "a.js")).verdict =
        ((Setting.create [Byte.slash] []).lintWith ({} : Linter).lint
          (fun id => ((Setting.create [Byte.slash] []).extractor indentedSample id).map
            (·.withLines ((Setting.create [Byte.slash] []).staleLines ({} : Linter).lint
              mixinHistory id))) (Bytes.ofString "a.js") {}).1.verdict ∧
      ((Setting.create [Byte.slash] []).lintAfter ({} : Linter).lint mixinHistory indentedSample
        (Bytes.ofString "a.js")).verdict.IsThinned
        ((Setting.create [Byte.slash] []).lintAfter ({} : Linter).lint [] indentedSample
          (Bytes.ofString "a.js")).verdict
        ((Setting.create [Byte.slash] []).lintAfter ({} : Linter).lint [] indentedSample
          (Bytes.ofString "a.js")).raw.findings
        ((Setting.create [Byte.slash] []).staleLines ({} : Linter).lint mixinHistory
          (Bytes.ofString "/a.js")) :=
  ⟨by decide +kernel, by decide +kernel,
    Setting.history_only_suppresses (by decide) {} mixinHistory indentedSample (by decide)⟩

end TemplateLint
