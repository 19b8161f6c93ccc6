import Mathlib
import TemplateLint.Proofs.Files.Tree
import TemplateLint.Proofs.List
import TemplateLint.Proofs.Session.Stale
import TemplateLint.Session.Files

/-!
# Files are linted one by one

All files of a run share one journal, and a file may be named more than once and in several ways.
Paths with one identifier have one file, unless they go up behind a link. So whatever the journal
holds for a file when it is linted comes from passes over the same source. These left nothing but
the placeholder lines of the fragment that the file has anyway, and every file gets the verdict of a
fresh session.
-/
namespace TemplateLint
open Stylesheet

/-! ## A journal that has seen the same source -/

/-- Placeholder lines that a fragment has anyway drop no more findings. -/
theorem Entry.correct_withLines {f : Fragment} {lines : List Int}
    (h : ∀ line ∈ lines, line ∈ f.placeholderLines) (raw : Verdict) :
    (({} : Entry).addFragment (f.withLines lines)).correct raw =
      (({} : Entry).addFragment f).correct raw := by
  have hcontains : ∀ line, (lines ++ f.placeholderLines).contains line =
      f.placeholderLines.contains line := by
    intro line
    rw [Bool.eq_iff_iff, List.contains_iff_mem, List.contains_iff_mem, List.mem_append,
      or_iff_right_of_imp (h line)]
  have hfindings : (({} : Entry).addFragment (f.withLines lines)).correctFindings raw.findings =
      (({} : Entry).addFragment f).correctFindings raw.findings := by
    refine correctFindings_congr (fun g _ => ?_) fun g _ => rfl
    simp only [isCausedByPlaceholder, addFragment, Fragment.withLines, List.nil_append, hcontains]
  simp only [Entry.correct, Entry.addFragment] at hfindings ⊢
  rw [hfindings]

namespace Setting
variable {s : Setting}

/-- A journal that holds no placeholder line for an input but those of the input's own fragment. -/
def HoldsOwn (s : Setting) (j : Journal) (path source : Bytes) : Prop :=
  ∀ line ∈ (j.entry (Path.absolute s.directory path)).placeholderLines,
    ∃ f, s.extractor source (Path.absolute s.directory path) = .ok f ∧ line ∈ f.placeholderLines

/-- What the journal holds of the same source does not show. -/
theorem lintSource_of_holdsOwn (hdir : Path.isAbsolute s.directory = true) (linter : Linter)
    {source path : Bytes} (hpath : path ≠ []) {j : Journal} (h : s.HoldsOwn j path source) :
    (s.lintSource linter.lint source path j).1 = (s.lintSource linter.lint source path {}).1 := by
  have hid := identify_of_ne_nil (s := s) hpath
  have hverdict : (s.lintSource linter.lint source path j).1.verdict =
      (s.lintSource linter.lint source path {}).1.verdict := by
    rw [verdict_lintSource hdir linter source hpath, lintSource, verdict_lintWith hdir,
      verdict_lintWith hdir, hid]
    cases hx : s.extractor source (Path.absolute s.directory path) with
    | error cause => rfl
    | ok f =>
      refine Entry.correct_withLines (fun line hline => ?_) _
      obtain ⟨g, hg, hline⟩ := h line hline
      rw [hx] at hg
      cases hg
      exact hline
  -- apart from the verdict a run depends on the identifier alone
  have hrun : ∀ j, (s.lintSource linter.lint source path j).1 =
      ⟨path, ⟨(s.identify path j).1, s.extractor source (s.identify path j).1⟩,
        rawVerdict linter.lint path
          ⟨(s.identify path j).1, s.extractor source (s.identify path j).1⟩,
        (s.lintSource linter.lint source path j).1.verdict⟩ := fun _ => rfl
  rw [hrun j, hrun {}, hverdict, hid, hid]

/-- Linting an input keeps the journal free of foreign lines, as long as what has the identifier of
the input is the input. -/
theorem HoldsOwn.lintSource (linter : StylesheetLinter) {path source : Bytes} {j : Journal}
    (h : s.HoldsOwn j path source) {path' source' : Bytes} (hpath' : path' ≠ [])
    (hsame : Path.absolute s.directory path = Path.absolute s.directory path' →
      source = source') :
    s.HoldsOwn (s.lintSource linter source' path' j).2 path source := by
  have hid := identify_of_ne_nil (s := s) hpath' j
  have hentry : (s.lintSource linter source' path' j).2.entry (Path.absolute s.directory path) =
      if Path.absolute s.directory path = Path.absolute s.directory path' then
        (j.entry (Path.absolute s.directory path)).addAttempt
          (s.extractor source' (Path.absolute s.directory path'))
      else j.entry (Path.absolute s.directory path) := by
    rw [← hid]
    exact entry_prepare (s.extractor source') path' j _
  intro line hline
  rw [hentry] at hline
  split at hline
  · next heq =>
    rw [← hsame heq, ← heq] at hline
    cases hx : s.extractor source (Path.absolute s.directory path) with
    | error cause =>
      rw [hx] at hline
      obtain ⟨f, hf, -⟩ := h line hline
      rw [hx] at hf
      cases hf
    | ok f =>
      rw [hx] at hline
      rcases List.mem_append.1 hline with hline | hline
      · rw [← hx]
        exact h line hline
      · exact ⟨f, rfl, hline⟩
  · exact h line hline

/-! ## Linting files -/

/-- What a fresh session makes of the file at a path. -/
def lintFile (s : Setting) (linter : Linter) (w : Workspace) (path : Bytes) :
    Except Interruption LintRun :=
  match w.read path with
  | .error o => .error (.unreadable ⟨path, o⟩)
  | .ok source =>
    match s.tryLintSource linter source path {} with
    | .error b => .error (.breakdown b)
    | .ok (run, _) => .ok run

variable {w : Workspace}

theorem lintFilesFrom_cons (linter : Linter) (path : Bytes) (paths : List Bytes) (j : Journal) :
    s.lintFilesFrom linter w (path :: paths) j =
      match w.read path with
      | .error o => .error (.unreadable ⟨path, o⟩)
      | .ok source =>
        match s.tryLintSource linter source path j with
        | .error b => .error (.breakdown b)
        | .ok (run, j) => (s.lintFilesFrom linter w paths j).map (run :: ·) := by
  rw [lintFilesFrom, Workspace.readFile]
  cases w.read path with
  | error o => rfl
  | ok source =>
    simp only [Except.mapError, bind, Except.bind]
    cases s.tryLintSource linter source path j with
    | error b => rfl
    | ok r =>
      obtain ⟨run, j⟩ := r
      cases hrest : s.lintFilesFrom linter w paths j <;> simp [hrest, pure, Except.pure, Except.map]

/-- A run over files that are read alike is the runs over the single files, as long as the journal
holds nothing of other files under their identifiers. -/
theorem lintFilesFrom_eq_mapM (hdir : Path.isAbsolute s.directory = true)
    (hsame : s.directory = w.directory) (linter : Linter) {paths : List Bytes}
    (halike : w.ReadsAlike paths) {j : Journal}
    (hj : ∀ path ∈ paths, ∀ source, w.read path = .ok source → s.HoldsOwn j path source) :
    s.lintFilesFrom linter w paths j = paths.mapM (s.lintFile linter w) := by
  induction paths generalizing j with
  | nil => rfl
  | cons path paths ih =>
    rw [lintFilesFrom_cons, List.mapM_cons, lintFile]
    cases hread : w.read path with
    | error o => rfl
    | ok source =>
      have hpath := Workspace.ne_nil_of_read hread
      simp only [tryLintSource, tryLintWith_eq, identify_of_ne_nil hpath]
      -- whether the linter breaks down does not depend on the journal
      cases Preparation.breakdown? linter ⟨Path.absolute s.directory path,
        s.extractor source (Path.absolute s.directory path)⟩ with
      | some b => rfl
      | none =>
        have hown := hj path List.mem_cons_self source hread
        have hfirst := lintSource_of_holdsOwn hdir linter hpath hown
        have hrest := ih (j := (s.lintSource linter.lint source path j).2)
          (fun p hp q hq => halike p (List.mem_cons_of_mem _ hp) q (List.mem_cons_of_mem _ hq))
          (fun p hp other hother => (hj p (List.mem_cons_of_mem _ hp) other hother).lintSource
            linter.lint hpath fun heq => halike p (List.mem_cons_of_mem _ hp) path
              List.mem_cons_self (hsame ▸ heq) other source hother hread)
        change ((s.lintFilesFrom linter w paths (s.lintSource linter.lint source path j).2).map
          ((s.lintSource linter.lint source path j).1 :: ·)) = _
        rw [hrest, hfirst]
        cases paths.mapM (s.lintFile linter w) <;> rfl

/-- What a run over files returns when each file is linted on its own. -/
structure IsPointwise (s : Setting) (linter : Linter) (w : Workspace) (paths : List Bytes)
    (result : Except Interruption (List LintRun)) : Prop where
  /-- The first file that cannot be linted on its own ends the run, and for the same reason. -/
  one_by_one : result = paths.mapM (s.lintFile linter w)
  /-- The run fails exactly when a file cannot be read or the linter breaks down over it. -/
  fails_iff : (∃ e, result = .error e) ↔ ∃ path ∈ paths, (∃ o, w.read path = .error o) ∨
    ∃ source b, w.read path = .ok source ∧ s.tryLintSource linter source path {} = .error b
  /-- Otherwise it returns in the order of the paths what a fresh session makes of each file. -/
  returns_iff : ∀ runs, result = .ok runs ↔ List.Forall₂ (fun path run => ∃ source j,
    w.read path = .ok source ∧ s.tryLintSource linter source path {} = .ok (run, j)) paths runs

theorem isPointwise_mapM (s : Setting) (linter : Linter) (w : Workspace) (paths : List Bytes) :
    s.IsPointwise linter w paths (paths.mapM (s.lintFile linter w)) where
  one_by_one := rfl
  fails_iff := by
    rw [exists_mapM_eq_error_iff]
    refine exists_congr fun path => and_congr_right fun _ => ?_
    rw [lintFile]
    cases w.read path with
    | error o => simp
    | ok source => cases htry : s.tryLintSource linter source path {} <;> simp [htry]
  returns_iff := by
    have hfile : ∀ path run, s.lintFile linter w path = .ok run ↔ ∃ source j,
        w.read path = .ok source ∧ s.tryLintSource linter source path {} = .ok (run, j) := by
      intro path run
      rw [lintFile]
      cases w.read path with
      | error o => simp
      | ok source =>
        cases htry : s.tryLintSource linter source path {} <;> simp [htry, Prod.ext_iff]
    intro runs
    rw [mapM_eq_ok_iff]
    simp only [hfile]

/-- **Files are linted one by one.** Let paths with one absolute form be read alike, as all paths
are that do not go up behind a link. Then a run over the files is made of the runs over the single
files, whatever the other paths are and however often and in whatever way they name the same
file. -/
theorem lintFiles_pointwise (w : Workspace) (hdir : Path.isAbsolute w.directory = true)
    (moduleName : Bytes) (linter : Linter) (paths : List Bytes) :
    (w.ReadsAlike paths → (create w.directory moduleName).IsPointwise linter w paths
      ((create w.directory moduleName).lintFiles linter w paths)) ∧
    ((∀ path ∈ paths, w.IsPlain path) → w.ReadsAlike paths) := by
  refine ⟨fun halike => ?_, Workspace.readsAlike_of_isPlain hdir⟩
  have hruns := lintFilesFrom_eq_mapM (s := create w.directory moduleName) (j := {}) hdir rfl linter
    halike (fun _ _ _ _ line hline => by cases hline)
  rw [lintFiles, hruns]
  exact isPointwise_mapM _ linter w paths

end Setting

/-- The number of findings about each file of a run. -/
def findingCounts (result : Except Interruption (List LintRun)) : Option (List Nat) :=
  result.toOption.map fun runs => runs.map fun run => run.verdict.findings.length

/-- A template with a placeholder on the line that the other sample indents too far. -/
def mixinSample : Bytes :=
  Bytes.ofString "import styled from 'styled-components'\n" ++
    Bytes.ofString "const A = styled.div`\n  $\x7bmixin\x7d;\n`\n"

/-- The two samples, and a link to the directory of the second. -/
def aliasWorkspace : Workspace :=
  (((Workspace.empty [Byte.slash]).addFile (Bytes.ofString "a.js") mixinSample).addFile
    (Bytes.ofString "src/b.js") indentedSample).addLink (Bytes.ofString "lib")
      (Bytes.ofString "src")

/-- Three names of one file and three of the other, one of them through the link. -/
def aliasPaths : List Bytes :=
  ["a.js", "./a.js", "src/b.js", "/src/../a.js", "src//b.js", "src/../lib/b.js"].map Bytes.ofString

/-- All names are linted as if they stood alone, and one more that leads nowhere ends the run. -/
theorem aliasPaths_pointwise :
    Path.isAbsolute aliasWorkspace.directory = true ∧
    (∀ path ∈ aliasPaths, aliasWorkspace.IsPlain path) ∧
    findingCounts ((Setting.create aliasWorkspace.directory []).lintFiles {} aliasWorkspace
      aliasPaths) = some [0, 0, 1, 0, 1, 1] ∧
    (Setting.create aliasWorkspace.directory []).IsPointwise {} aliasWorkspace aliasPaths
      ((Setting.create aliasWorkspace.directory []).lintFiles {} aliasWorkspace aliasPaths) ∧
    ∃ e, (Setting.create aliasWorkspace.directory []).lintFiles {} aliasWorkspace
      (aliasPaths ++ [Bytes.ofString "c.js"]) = .error e := by
  have hdir : Path.isAbsolute aliasWorkspace.directory = true := by decide
  have hplain : ∀ path ∈ aliasPaths ++ [Bytes.ofString "c.js"], aliasWorkspace.IsPlain path := by
    unfold Workspace.IsPlain
    decide +kernel
  have hmissing : aliasWorkspace.read (Bytes.ofString "c.js") = .error .missing := by
    decide +kernel
  rw [List.forall_mem_append] at hplain
  obtain ⟨hall, halike⟩ := Setting.lintFiles_pointwise aliasWorkspace hdir [] {} aliasPaths
  obtain ⟨hmore, halike'⟩ := Setting.lintFiles_pointwise aliasWorkspace hdir [] {}
    (aliasPaths ++ [Bytes.ofString "c.js"])
  refine ⟨hdir, hplain.1, by decide +kernel, hall (halike hplain.1), ?_⟩
  exact (hmore (halike' (List.forall_mem_append.2 hplain))).fails_iff.2
    ⟨Bytes.ofString "c.js", by simp, .inl ⟨.missing, hmissing⟩⟩

/-- A working directory with the second sample and a link, which leads to a directory that stands
beside the first sample. -/
def linkedWorkspace : Workspace :=
  ((((Workspace.empty (Bytes.ofString "/work")).addFile (Bytes.ofString "a.js")
    indentedSample).addLink (Bytes.ofString "link") (Bytes.ofString "/other/dir")).addDirectory
      (Bytes.ofString "/other/dir")).addFile (Bytes.ofString "/other/a.js") mixinSample

/-- Two files with one absolute form. -/
def linkedPaths : List Bytes := ["link/../a.js", "a.js"].map Bytes.ofString

/-- A file without templates, and one that the linter with wide steps breaks down over. -/
def wideWorkspace : Workspace :=
  ((Workspace.empty [Byte.slash]).addFile (Bytes.ofString "b.js")
    (Bytes.ofString "let x\n")).addFile (Bytes.ofString "a.js") wideSample

def widePaths : List Bytes := ["b.js", "a.js"].map Bytes.ofString

/-- Files that can all be read are not always linted one by one: behind a link two of them share an
identifier, and the placeholder of the one drops the finding about the other. Nor is there always a
verdict on each, since the linter may break down. -/
theorem linkedPaths_not_pointwise :
    ((∀ path ∈ linkedPaths, (linkedWorkspace.read path).isOk = true) ∧
      (Setting.create linkedWorkspace.directory []).lintFiles {} linkedWorkspace linkedPaths ≠
        linkedPaths.mapM
          ((Setting.create linkedWorkspace.directory []).lintFile {} linkedWorkspace)) ∧
    (∀ path ∈ widePaths, (wideWorkspace.read path).isOk = true) ∧
      Linter.ofConfig wideConfig = .ok wideLinter ∧
      ∃ b, (Setting.create wideWorkspace.directory []).lintFiles wideLinter wideWorkspace
        widePaths = .error (.breakdown b) := by
  refine ⟨⟨by decide +kernel, fun heq => ?_⟩, by decide +kernel, by decide +kernel,
    ⟨2, -2 ^ 63⟩, eq_error_of_map (f := fun _ => ()) (by decide +kernel)⟩
  have htogether : findingCounts ((Setting.create linkedWorkspace.directory []).lintFiles {}
      linkedWorkspace linkedPaths) = some [0, 0] := by decide +kernel
  have halone : findingCounts (linkedPaths.mapM
      ((Setting.create linkedWorkspace.directory []).lintFile {} linkedWorkspace)) =
        some [0, 1] := by decide +kernel
  rw [heq, halone] at htogether
  exact absurd htogether (by decide)

end TemplateLint
