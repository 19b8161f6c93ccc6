import Mathlib
import TemplateLint.Proofs.Session.Journal
import TemplateLint.Proofs.Stylesheet.Breakdown
import TemplateLint.Proofs.Template.Pointing
import TemplateLint.Session.Lint

/-!
# Findings about a source

A verdict on a source is the verdict on its fragment, corrected by what the journal holds after
the attempt. A finding of a fresh session points at the character it is about: the column is the
one of the character, and the line is too unless an interpolation over several lines comes before
the character. There is a verdict on every source, except that the linter may break down over its
fragment.
-/
namespace TemplateLint
open Bytes Stylesheet

/-- Malformed input is reported under a name that no rule has. -/
theorem malformedRule_ne_name (rule : Rule) : malformedRule ≠ rule.name := by
  cases rule <;> decide +kernel

namespace Setting
variable {s : Setting}

/-- The verdict on an input is corrected by its own entry, the attempt included. -/
theorem verdict_lintWith (hdir : Path.isAbsolute s.directory = true) (linter : StylesheetLinter)
    (extract : Bytes → Except Cause Fragment) (path : Bytes) (j : Journal) :
    (s.lintWith linter extract path j).1.verdict =
      ((j.entry (s.identify path j).1).addAttempt (extract (s.identify path j).1)).correct
        (rawVerdict linter path ⟨(s.identify path j).1, extract (s.identify path j).1⟩) := by
  have hentry : (s.prepare extract path j).2.entry (s.lookupId (s.identify path j).1) =
      (j.entry (s.identify path j).1).addAttempt (extract (s.identify path j).1) := by
    rw [lookupId_identify hdir, entry_prepare]
    exact if_pos rfl
  rw [← hentry]
  rfl

section
variable {linter : StylesheetLinter} {extract : Bytes → Except Cause Fragment} {path : Bytes}
  {j : Journal}

/-- A pass is judged by the findings about its fragment. -/
theorem verdict_of_ok (hdir : Path.isAbsolute s.directory = true) {fragment : Fragment}
    (h : extract (s.identify path j).1 = .ok fragment) :
    (s.lintWith linter extract path j).1.verdict =
      ((j.entry (s.identify path j).1).addFragment fragment).correct
        { linter fragment.css with source := path } := by
  rw [verdict_lintWith hdir, h]
  rfl

/-- Malformed input is judged by its own place. -/
theorem verdict_of_malformed (hdir : Path.isAbsolute s.directory = true) {cause : Cause}
    {m : Malformed} (h : extract (s.identify path j).1 = .error cause)
    (hm : cause.malformed? = some m) :
    (s.lintWith linter extract path j).1.verdict = m.verdict path := by
  rw [verdict_lintWith hdir, h]
  simp [Entry.addAttempt, Entry.addFailure, Entry.correct, rawVerdict, Preparation.error?, hm]

/-- Any other failure is attached to the verdict on an empty stylesheet. -/
theorem verdict_of_other (hdir : Path.isAbsolute s.directory = true) {cause : Cause}
    (h : extract (s.identify path j).1 = .error cause) (hm : cause.malformed? = none) :
    (s.lintWith linter extract path j).1.verdict =
      { linter [] with source := path, errored := true, failures := [cause] } := by
  rw [verdict_lintWith hdir, h]
  simp [Entry.addAttempt, Entry.addFailure, Entry.correct, rawVerdict, Preparation.error?,
    Preparation.css, hm]

end

/-- A finding under the name of a rule is a finding about the fragment that was moved. -/
theorem exists_raw_of_mem_findings (hdir : Path.isAbsolute s.directory = true) {linter : Linter}
    {extract : Bytes → Except Cause Fragment} {path : Bytes} {j : Journal} {f : Finding}
    {rule : Rule} (hf : f ∈ (s.lintWith linter.lint extract path j).1.verdict.findings)
    (hrule : f.rule = rule.name) :
    ∃ fragment raw, extract (s.identify path j).1 = .ok fragment ∧
      raw ∈ linter.findings fragment.css ∧
      f = ((j.entry (s.identify path j).1).addFragment fragment).relocate raw := by
  cases hx : extract (s.identify path j).1 with
  | ok fragment =>
    rw [verdict_of_ok hdir hx] at hf
    obtain ⟨raw, hraw, rfl⟩ := List.mem_map.1 hf
    exact ⟨fragment, raw, rfl, List.mem_of_mem_filter hraw, rfl⟩
  | error cause =>
    cases hm : cause.malformed? with
    | some m =>
      rw [verdict_of_malformed hdir hx hm, Malformed.verdict, List.mem_singleton] at hf
      rw [hf] at hrule
      exact absurd hrule (malformedRule_ne_name rule)
    | none =>
      rw [verdict_of_other hdir hx hm] at hf
      change f ∈ linter.findings [] at hf
      rw [findings_nil] at hf
      cases hf

end Setting

/-! ## Breakdowns -/

/-- The breakdown of a linter over a prepared input. -/
def Preparation.breakdown? (linter : Linter) (p : Preparation) : Option Breakdown :=
  match p.error?.bind Cause.malformed? with
  | some _ => none
  | none => Stylesheet.breakdown? linter.width p.css

/-- The linter breaks down over an input exactly when it breaks down over its fragment. -/
theorem Preparation.isSome_breakdown?_iff {linter : Linter} {p : Preparation} :
    (p.breakdown? linter).isSome = true ↔
      ∃ fragment, p.attempt = .ok fragment ∧
        ∃ start ∈ Walk.starts {} (tokenize fragment.css), start.IsBeyond linter.width := by
  have hnil : Stylesheet.breakdown? linter.width [] = none := rfl
  obtain ⟨id, attempt⟩ := p
  cases attempt with
  | ok fragment =>
    simp only [breakdown?, error?, css, Option.bind_none, Except.ok.injEq, exists_eq_left',
      Stylesheet.isSome_breakdown?_iff]
  | error cause =>
    cases hm : cause.malformed? <;> simp [breakdown?, error?, css, hm, hnil]

namespace Setting
variable {s : Setting} {linter : Linter} {source path : Bytes} {j : Journal}

/-- An input is linted as by a linter that always answers, unless the linter breaks down. -/
theorem tryLintWith_eq (s : Setting) (linter : Linter) (extract : Bytes → Except Cause Fragment)
    (path : Bytes) (j : Journal) :
    s.tryLintWith linter extract path j =
      match Preparation.breakdown? linter
        ⟨(s.identify path j).1, extract (s.identify path j).1⟩ with
      | some b => .error b
      | none => .ok (s.lintWith linter.lint extract path j) := by
  have hanswer : ∀ p : Preparation, answer linter path p =
      match p.breakdown? linter with
      | some b => .error b
      | none => .ok (rawVerdict linter.lint path p) := by
    intro p
    unfold answer Preparation.breakdown? rawVerdict Linter.run
    cases p.error?.bind Cause.malformed? with
    | some m => rfl
    | none => cases Stylesheet.breakdown? linter.width p.css <;> rfl
  have hprepared : (s.prepare extract path j).1 =
      ⟨(s.identify path j).1, extract (s.identify path j).1⟩ := rfl
  change (answer linter path (s.prepare extract path j).1 >>= fun raw => _) = _
  rw [hanswer, ← hprepared]
  cases (s.prepare extract path j).1.breakdown? linter <;> rfl

/-- Linting a source breaks down exactly when the linter breaks down over its fragment. -/
theorem exists_tryLintSource_eq_error_iff :
    (∃ b, s.tryLintSource linter source path j = .error b) ↔
      ∃ fragment, s.extractor source (s.identify path j).1 = .ok fragment ∧
        ∃ start ∈ Walk.starts {} (tokenize fragment.css), start.IsBeyond linter.width := by
  rw [← Preparation.isSome_breakdown?_iff (p := ⟨(s.identify path j).1, _⟩), tryLintSource,
    tryLintWith_eq]
  cases Preparation.breakdown? linter _ <;> simp

/-- A source that is linted without a breakdown is linted as by a linter that always answers. -/
theorem eq_of_tryLintSource {r : LintRun × Journal}
    (h : s.tryLintSource linter source path j = .ok r) :
    r = s.lintSource linter.lint source path j := by
  rw [tryLintSource, tryLintWith_eq] at h
  split at h
  · cases h
  · exact (Except.ok.inj h).symm

end Setting

/-- A source with a block inside a block on its first line. -/
def wideSample : Bytes :=
  Bytes.ofString "import \x7b createGlobalStyle \x7d from 'styled-components'\n" ++
    Bytes.ofString "export const G = createGlobalStyle`\n@media print \x7b a \x7b\n" ++
    Bytes.ofString "  color: red;\n\x7d \x7d\n`\n"

/-- A configuration under which no rule looks at indentation, with steps so wide that two of them
are more than a machine integer holds. -/
def wideConfig : Config where
  indent := 2 ^ 62
  disabled := [Rule.indentation.name]

/-- The linter of that configuration. -/
def wideLinter : Linter where
  width := 2 ^ 62
  disabled := [.indentation]

/-- What fails after its result is changed has failed before. -/
theorem eq_error_of_map {ε α β : Type} {x : Except ε α} {f : α → β} {e : ε}
    (h : x.map f = .error e) : x = .error e := by
  cases x with
  | error e' => exact congrArg Except.error (Except.error.inj h)
  | ok a => cases h

/-- The linter breaks down over the second line of the fragment. -/
theorem tryLintSource_wideSample :
    (Setting.create [Byte.slash] []).tryLintSource wideLinter wideSample
      (Bytes.ofString "a.js") {} = .error ⟨2, -2 ^ 63⟩ :=
  eq_error_of_map (f := fun _ => ()) (by decide +kernel)

/-! ## Pointing at the source -/

/-- A finding that leads to a rune of the source. Its column is the one of the rune, and its line
comes `skipped` lines before the one of the rune. -/
structure Finding.LeadsTo (f : Finding) (source : Bytes) (offset skipped : Nat) (r : Rune) :
    Prop where
  line : ((Position.ofOffset source offset).line : Int) = f.line + skipped
  column : ((Position.ofOffset source offset).column : Int) = f.column
  shown : source.runeAt? (f.line + skipped) f.column = some r

/-- A finding is moved to where the maps of the fragment lead, whatever was recorded before. -/
theorem Fragment.Leads.leadsTo {fragment : Fragment} {source : Bytes} (raw : Finding)
    {offset skipped : Nat} (h : fragment.Leads source raw.line raw.column offset skipped)
    (hmaps : fragment.Mapped) (e : Entry) {r : Rune}
    (hr : source.runeAt? (Position.ofOffset source offset).line
      (Position.ofOffset source offset).column = some r) :
    ((e.addFragment fragment).relocate raw).LeadsTo source offset skipped r := by
  obtain ⟨⟨origin, horigin, hline⟩, anchors, hanchors, hcolumn⟩ := h
  have hl : ((e.addFragment fragment).relocate raw).line = origin := by
    simp [Entry.relocate, Entry.addFragment, LineMap.get?_merge _ hmaps.origins, horigin]
  have hc : ((e.addFragment fragment).relocate raw).column =
      (Position.ofOffset source offset).column := by
    simp [Entry.relocate, Entry.addFragment, LineMap.get?_merge _ hmaps.anchors, hanchors, hcolumn]
  refine ⟨by rw [hl, hline], hc.symm, ?_⟩
  rw [hl, hc, ← hline, hr]

/-- What a finding of a rule points at, when the lines of the fragment are those of some glyphs.
The number tells how many lines further down it stands. -/
inductive Finding.PointsAt (f : Finding) (rule : Rule) (source : Bytes) (t : Template)
    (lines : List (List Glyph)) : Nat → Prop
  /-- The character of the rule in a literal of the template. Only the newlines of interpolations
  before it on its line of the fragment are passed over. -/
  | literal {b : UInt8} {before behind : List Glyph} {offset : Nat}
      (mark : rule.mark? = some b)
      (line : before ++ .kept (.ofByte b) offset :: behind ∈ lines)
      (own : .character (.ofByte b) offset ∈ t.items)
      (place : f.LeadsTo source offset (Glyph.newlines before) (.ofByte b)) :
      PointsAt f rule source t lines (Glyph.newlines before)
  /-- The opening backtick. -/
  | opening (empty : rule = .emptyBlock)
      (place : f.LeadsTo source t.start 0 (.ofByte Byte.backtick)) :
      PointsAt f rule source t lines 0
  /-- The closing backtick. -/
  | closing (empty : rule = .emptyLineAtEnd)
      (place : f.LeadsTo source t.stop 0 (.ofByte Byte.backtick)) :
      PointsAt f rule source t lines 0

theorem Stylesheet.Rule.isMark {rule : Rule} {b : UInt8} (h : rule.mark? = some b) :
    Byte.IsMark b := by
  cases rule <;> cases h <;> exact ⟨by decide, by decide, by decide⟩

/-- Rules about one character are the same rule. -/
theorem Stylesheet.Rule.eq_of_mark? {a b : Rule} {c : UInt8} (ha : a.mark? = some c)
    (hb : b.mark? = some c) : a = b := by
  have hsame : a.mark? = b.mark? := ha.trans hb.symm
  have hsome : a.mark? ≠ none := by simp [ha]
  clear ha hb
  revert hsame hsome
  cases a <;> cases b <;> decide

/-- The part of an interpolation among the items of a template. -/
theorem Template.mem_parts_of_mem_items {t : Template} {p : Part}
    (h : .interpolation p ∈ t.items) : p ∈ t.parts ∧ p.interpolated = true := by
  obtain ⟨q, hq, h⟩ := List.mem_flatMap.1 h
  cases hi : q.interpolated with
  | true =>
    rw [Part.items_interpolation hi, List.mem_singleton] at h
    cases h
    exact ⟨hq, hi⟩
  | false =>
    rw [Part.items_literal hi, Item.ofRunes, List.mem_map] at h
    obtain ⟨x, -, hx⟩ := h
    cases hx

/-- Interpolations without newlines pass over no line. -/
theorem Glyph.newlines_eq_zero {t : Template} {glyphs : List Glyph}
    (hown : ∀ g ∈ glyphs, ∀ x ∈ g.items, x ∈ t.items)
    (hflat : ∀ p ∈ t.parts, p.interpolated = true → Byte.newline ∉ p.text) :
    newlines glyphs = 0 := by
  rw [newlines, List.sum_eq_zero_iff]
  intro n hn
  obtain ⟨g, hg, rfl⟩ := List.mem_map.1 hn
  cases g with
  | kept r o => rfl
  | placeholder p text =>
    have hmem : .interpolation p ∈ t.items := hown _ hg _ (by simp [items])
    obtain ⟨hp, hi⟩ := Template.mem_parts_of_mem_items hmem
    exact List.count_eq_zero.2 (hflat p hp hi)
  | indent s => rfl
  | brace text o => rfl

/-- A fragment with findings is made of placed lines and keeps the templates of its source. -/
theorem Fragment.exists_keeps_of_mem_findings {source id moduleName : Bytes} {fragment : Fragment}
    (hx : extract source id moduleName = .ok fragment) {linter : Linter} {raw : Finding}
    (hraw : raw ∈ linter.findings fragment.css) :
    ∃ templates blocks lines, Scan.templates source = .ok templates ∧ fragment = ofLines lines ∧
      List.Forall₂ (FragmentLine.Placed source) lines blocks.flatten ∧
      fragment.Keeps source templates blocks := by
  -- a source that is not scanned has the empty fragment, about which there are no findings
  have himports : ModuleImport.imports source moduleName = true := by
    by_contra hi
    rw [eq_empty_of_extract hx (by simpa using hi), findings_nil] at hraw
    cases hraw
  obtain ⟨templates, blocks, lines, htemplates, rfl, hplaced, hblocks⟩ :=
    exists_blocks_extract hx himports
  have hlies : ∀ t ∈ templates, t.LiesIn source :=
    fun t ht => Scan.liesIn_of_mem_templates htemplates ht
  exact ⟨templates, blocks, lines, htemplates, rfl, hplaced,
    keeps_of_placed hlies hplaced hblocks⟩

/-- A finding about a fragment that keeps templates is moved to what it is about. -/
theorem Fragment.Keeps.exists_pointsAt {fragment : Fragment} {source : Bytes}
    {templates : List Template} {blocks : List (List (List Glyph))}
    (h : fragment.Keeps source templates blocks) (hmaps : fragment.Mapped) (hv : isUtf8 source)
    {linter : Linter} {raw : Finding} (hraw : raw ∈ linter.findings fragment.css) {rule : Rule}
    (hrule : raw.rule = rule.name) (hne : rule ≠ .indentation) (e : Entry) :
    ∃ t ∈ templates, ∃ skipped,
      ((e.addFragment fragment).relocate raw).PointsAt rule source t blocks.flatten skipped ∧
      ((∀ p ∈ t.parts, p.interpolated = true → Byte.newline ∉ p.text) → skipped = 0) := by
  obtain ⟨i, hi, rfl⟩ := exists_issue_of_mem_findings hraw
  obtain rfl : i.rule = rule := Rule.name_injective hrule
  obtain ⟨b, hb⟩ : ∃ b, i.rule.mark? = some b := by
    cases hi : i.rule with
    | indentation => exact absurd hi hne
    | _ => exact ⟨_, rfl⟩
  have hshown := (runeAt?_of_mem_issues h.isUtf8_css hi).2 b hb
  obtain ⟨t, ht, hlies, hcase⟩ := h.leads (Rule.isMark hb) hshown
  refine ⟨t, ht, ?_⟩
  rcases hcase with ⟨before, o, behind, hline, hown, hitem, hleads⟩ | ⟨rfl, hleads⟩ | ⟨rfl, hleads⟩
  · have hplace := hleads.leadsTo (linter.finding i) hmaps e
      (hlies.runeAt?_of_mem_items hv hitem)
    exact ⟨_, .literal hb hline hitem hplace, Glyph.newlines_eq_zero hown⟩
  · have hplace := hleads.leadsTo (linter.finding i) hmaps e
      (Template.runeAt?_backtick hv hlies.opening)
    exact ⟨0, .opening (Rule.eq_of_mark? hb rfl) hplace, fun _ => rfl⟩
  · have hplace := hleads.leadsTo (linter.finding i) hmaps e
      (Template.runeAt?_backtick hv hlies.closing)
    exact ⟨0, .closing (Rule.eq_of_mark? hb rfl) hplace, fun _ => rfl⟩

/-- **A finding points at what it is about.** Unless it is about indentation, its column is the one
of the character of its rule in a literal of a template, or of a backtick of the template. Its line
is exact but for the newlines inside the interpolations before that character. -/
theorem Setting.finding_points_at_source {s : Setting}
    (hdir : Path.isAbsolute s.directory = true) (linter : Linter) (source path : Bytes)
    (j : Journal) {f : Finding}
    (hf : f ∈ (s.lintSource linter.lint source path j).1.verdict.findings) {rule : Rule}
    (hrule : f.rule = rule.name) (hne : rule ≠ .indentation) :
    ∃ fragment templates blocks, s.extractor source (s.identify path j).1 = .ok fragment ∧
      Scan.templates source = .ok templates ∧ fragment.Keeps source templates blocks ∧
      ∃ t ∈ templates, ∃ skipped, f.PointsAt rule source t blocks.flatten skipped ∧
        ((∀ p ∈ t.parts, p.interpolated = true → Byte.newline ∉ p.text) → skipped = 0) := by
  obtain ⟨fragment, raw, hx, hraw, rfl⟩ := exists_raw_of_mem_findings hdir hf hrule
  obtain ⟨templates, blocks, -, htemplates, -, -, hkeeps⟩ :=
    Fragment.exists_keeps_of_mem_findings hx hraw
  refine ⟨fragment, templates, blocks, hx, htemplates, hkeeps, ?_⟩
  exact hkeeps.exists_pointsAt (Fragment.mapped_of_extract hx) (Fragment.isUtf8_of_extract hx)
    hraw hrule hne (j.entry (s.identify path j).1)

/-- A template whose interpolation hides a line end before a colour. -/
def foldedSample : Bytes :=
  Bytes.ofString "import styled from 'styled-components'\n" ++
    Bytes.ofString "const A = styled.div`\n  border: $\x7bp =>\n    p.w\x7d solid #ggg;\n`\n"

/-- The finding about the colour of the sample. -/
def foldedFinding : Finding where
  rule := Rule.invalidHex.name
  severity := .error
  line := 3
  column := 16
  text := Bytes.ofString "Unexpected invalid hex color \"#ggg\" (color-no-invalid-hex)"

theorem foldedFinding_mem :
    foldedFinding ∈ ((Setting.create [Byte.slash] []).lintSource ({} : Linter).lint foldedSample
      (Bytes.ofString "a.js") {}).1.verdict.findings := by
  decide +kernel

/-- The finding about the sample points at the colour. -/
theorem foldedFinding_points_at_source :
    foldedFinding.rule = Rule.invalidHex.name ∧
    ∃ fragment templates blocks,
      (Setting.create [Byte.slash] []).extractor foldedSample (Bytes.ofString "/a.js") =
        .ok fragment ∧
      Scan.templates foldedSample = .ok templates ∧
      fragment.Keeps foldedSample templates blocks ∧
      ∃ t ∈ templates, ∃ skipped,
        foldedFinding.PointsAt .invalidHex foldedSample t blocks.flatten skipped ∧
        ((∀ p ∈ t.parts, p.interpolated = true → Byte.newline ∉ p.text) → skipped = 0) :=
  ⟨rfl, Setting.finding_points_at_source (by decide) _ _ _ _ foldedFinding_mem rfl (by decide)⟩

/-- The line of a finding need not be the one of its character: at the place of the finding about
the sample stands the end of an arrow, one line above the colour. -/
theorem foldedFinding_above_its_line :
    isUtf8 foldedSample = true ∧
    foldedFinding ∈ ((Setting.create [Byte.slash] []).lintSource ({} : Linter).lint foldedSample
      (Bytes.ofString "a.js") {}).1.verdict.findings ∧
    foldedSample.runeAt? foldedFinding.line foldedFinding.column = some (.char '>') ∧
    foldedSample.runeAt? (foldedFinding.line + 1) foldedFinding.column = some (.char '#') :=
  ⟨by decide +kernel, foldedFinding_mem, by decide +kernel, by decide +kernel⟩

end TemplateLint
