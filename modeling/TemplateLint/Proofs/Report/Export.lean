import Mathlib
import TemplateLint.Proofs.Report.Summary
import TemplateLint.Proofs.Stylesheet.Configuration
import TemplateLint.Proofs.Text.Bytes
import TemplateLint.Report.Export

/-!
# All counts of a run agree

The findings of a run are counted by severity, by rule and all together, and an export lists them as
issues. It lists every finding with its file, in the order of a report, so each count of the run is
the number of issues of some kind in the export.
-/
namespace TemplateLint

/-! ## The order of a report -/

namespace Issue

/-- The order of a report: by the bytes of the file, then by line, then by column. -/
def IsBefore (a b : Issue) : Prop :=
  a.file < b.file ∨ a.file = b.file ∧ a.finding.IsBefore b.finding

/-- What the order of a report looks at. -/
def place (i : Issue) : Bytes × Int × Int := (i.file, i.finding.line, i.finding.column)

variable {a b c : Issue}

theorem le_iff : le a b = true ↔ a.IsBefore b := by
  unfold le IsBefore Finding.IsBefore
  split
  · next hne =>
    rw [Bytes.le_iff, List.le_iff_lt_or_eq]
    simp [hne]
  · next heq =>
    rw [ne_eq, not_not] at heq
    simp only [heq, List.lt_irrefl, false_or, true_and]
    split <;> rw [decide_eq_true_eq] <;> omega

theorem IsBefore.trans (hab : a.IsBefore b) (hbc : b.IsBefore c) : a.IsBefore c := by
  unfold IsBefore at hab hbc ⊢
  rcases hab with hab | ⟨hab, hfirst⟩
  · rcases hbc with hbc | ⟨hbc, -⟩
    · exact .inl (List.lt_trans hab hbc)
    · exact .inl (hbc ▸ hab)
  · rcases hbc with hbc | ⟨hbc, hsecond⟩
    · exact .inl (hab ▸ hbc)
    · refine .inr ⟨hab.trans hbc, ?_⟩
      unfold Finding.IsBefore at *
      omega

theorem isBefore_total (a b : Issue) : a.IsBefore b ∨ b.IsBefore a := by
  unfold IsBefore Finding.IsBefore
  by_cases hfile : a.file = b.file
  · simp only [hfile, List.lt_irrefl, false_or, true_and]
    omega
  · rcases List.le_total a.file b.file with hle | hle
    · exact .inl (.inl (Std.lt_of_le_of_ne hle hfile))
    · exact .inr (.inl (Std.lt_of_le_of_ne hle (Ne.symm hfile)))

theorem isBefore_of_place (h : a.place = b.place) : a.IsBefore b := by
  unfold place at h
  simp only [Prod.mk.injEq] at h
  exact .inr ⟨h.1, .inr ⟨h.2.1, h.2.2.le⟩⟩

/-- Some findings with their files in the order of a report, those at one place as they were. -/
structure IsArrangement (found arranged : List Issue) : Prop where
  perm : arranged.Perm found
  ordered : arranged.Pairwise IsBefore
  stable : ∀ p, arranged.filter (·.place = p) = found.filter (·.place = p)

theorem isArrangement_sorted (verdicts : List Verdict) :
    IsArrangement (ofVerdicts verdicts) (sorted verdicts) := by
  have htrans : ∀ a b c : Issue, le a b = true → le b c = true → le a c = true := by
    intro a b c hab hbc
    rw [le_iff] at hab hbc ⊢
    exact hab.trans hbc
  have htotal : ∀ a b : Issue, (le a b || le b a) = true := by
    intro a b
    rw [Bool.or_eq_true, le_iff, le_iff]
    exact isBefore_total a b
  refine ⟨List.mergeSort_perm _ _, ?_, ?_⟩
  · exact (List.pairwise_mergeSort htrans htotal _).imp fun hab => le_iff.1 hab
  · intro p
    rw [sorted, Stylesheet.filter_mergeSort htrans htotal]
    -- issues at one place are in order however they stand
    refine List.mergeSort_of_pairwise (List.pairwise_iff_forall_sublist.2 ?_)
    intro a b hsub
    have hplace : ∀ i ∈ (ofVerdicts verdicts).filter (·.place = p), i.place = p := by
      intro i hi
      simpa using (List.mem_filter.1 hi).2
    rw [le_iff]
    refine isBefore_of_place ?_
    rw [hplace a (hsub.subset (by simp)), hplace b (hsub.subset (by simp))]

theorem map_finding_ofVerdicts (verdicts : List Verdict) :
    (ofVerdicts verdicts).map Issue.finding = verdicts.flatMap (·.findings) := by
  simp [ofVerdicts, List.map_flatMap, Function.comp_def]

end Issue

/-! ## Counting by rule -/

namespace RuleCount

/-- The rules are in strictly increasing order. -/
def IsIncreasing (counts : RuleCount) : Prop := counts.Pairwise fun a b => a.1 < b.1

variable {rule : Bytes} {counts : RuleCount}

theorem IsIncreasing.add (h : IsIncreasing counts) (rule : Bytes) :
    IsIncreasing (counts.add rule) := by
  unfold IsIncreasing at *
  fun_induction RuleCount.add rule counts with
  | case1 => exact List.pairwise_singleton _ _
  | case2 n rest => exact List.pairwise_cons.2 (List.pairwise_cons.1 h)
  | case3 r n rest hne hle =>
    have hlt : rule < r := Std.lt_of_le_of_ne (Bytes.le_iff.1 hle) (Ne.symm hne)
    refine List.pairwise_cons.2 ⟨?_, h⟩
    rw [List.forall_mem_cons]
    exact ⟨hlt, fun x hx => List.lt_trans hlt ((List.pairwise_cons.1 h).1 x hx)⟩
  | case4 r n rest hne hle ih =>
    rw [List.pairwise_cons] at h
    refine List.pairwise_cons.2 ⟨?_, ih h.2⟩
    intro x hx
    rcases mem_add hx with hrule | ⟨y, hy, hxy⟩
    · rw [hrule]
      rwa [Bytes.le_iff, List.not_le] at hle
    · rw [hxy]
      exact h.1 y hy

@[simp] theorem get_nil (rule : Bytes) : get [] rule = 0 := rfl

theorem get_cons (r : Bytes) (n : Nat) (rest : RuleCount) (rule : Bytes) :
    get ((r, n) :: rest) rule = if rule = r then n else get rest rule := by
  rw [get, List.lookup_cons]
  by_cases h : rule = r
  · simp [h]
  · simp [h, beq_false_of_ne h, get]

theorem get_eq_zero (h : ∀ x ∈ counts, x.1 ≠ rule) : get counts rule = 0 := by
  induction counts with
  | nil => rfl
  | cons x rest ih =>
    rw [List.forall_mem_cons] at h
    rw [get_cons, if_neg (Ne.symm h.1), ih h.2]

/-- One more finding counts for its rule and for no other. -/
theorem get_add (h : IsIncreasing counts) (rule r : Bytes) :
    get (counts.add rule) r = get counts r + if r = rule then 1 else 0 := by
  unfold IsIncreasing at h
  fun_induction RuleCount.add rule counts with
  | case1 => simp [get_cons]
  | case2 n rest =>
    simp only [get_cons]
    split <;> rfl
  | case3 r' n rest hne hle =>
    rw [get_cons]
    by_cases hr : r = rule
    · -- the rule was counted nowhere, as the others stand behind it
      have hlt : rule < r' := Std.lt_of_le_of_ne (Bytes.le_iff.1 hle) (Ne.symm hne)
      have hzero : get ((r', n) :: rest) rule = 0 := by
        refine get_eq_zero (List.forall_mem_cons.2 ⟨hne, fun x hx heq => ?_⟩)
        have hlt' := List.lt_trans hlt ((List.pairwise_cons.1 h).1 x hx)
        rw [heq] at hlt'
        exact List.lt_irrefl _ hlt'
      rw [if_pos hr, if_pos hr, hr, hzero]
    · rw [if_neg hr, if_neg hr, Nat.add_zero]
  | case4 r' n rest hne hle ih =>
    rw [get_cons, get_cons, ih (List.pairwise_cons.1 h).2]
    split
    · next hr =>
      rw [if_neg (hr ▸ hne), Nat.add_zero]
    · rfl

theorem sum_add (rule : Bytes) (counts : RuleCount) :
    ((counts.add rule).map Prod.snd).sum = (counts.map Prod.snd).sum + 1 := by
  fun_induction RuleCount.add rule counts with
  | case1 => rfl
  | case2 n rest =>
    simp only [List.map_cons, List.sum_cons]
    omega
  | case3 r n rest _ _ =>
    simp only [List.map_cons, List.sum_cons]
    omega
  | case4 r n rest _ _ ih =>
    simp only [List.map_cons, List.sum_cons, ih]
    omega

theorem IsIncreasing.foldl_add (h : IsIncreasing counts) (findings : List Finding) :
    IsIncreasing (findings.foldl (fun counts f => counts.add f.rule) counts) := by
  induction findings generalizing counts with
  | nil => exact h
  | cons f findings ih => exact ih (h.add f.rule)

/-- Findings are counted for their rules on top of those before them. -/
theorem get_foldl_add (h : IsIncreasing counts) (findings : List Finding) (r : Bytes) :
    get (findings.foldl (fun counts f => counts.add f.rule) counts) r =
      get counts r + findings.countP fun f => f.rule == r := by
  induction findings generalizing counts with
  | nil => rfl
  | cons f findings ih =>
    rw [List.foldl_cons, ih (h.add f.rule), get_add h, List.countP_cons]
    by_cases hr : r = f.rule
    · simp only [hr, beq_self_eq_true, if_true]
      omega
    · simp [hr, Ne.symm hr]

theorem sum_foldl_add (findings : List Finding) (counts : RuleCount) :
    ((findings.foldl (fun counts f => counts.add f.rule) counts).map Prod.snd).sum =
      (counts.map Prod.snd).sum + findings.length := by
  induction findings generalizing counts with
  | nil => rfl
  | cons f findings ih =>
    rw [List.foldl_cons, ih, sum_add, List.length_cons]
    omega

end RuleCount

/-! ## What the export says -/

namespace JsonValue

/-- The field of a record. -/
def field? (name : String) : JsonValue → Option JsonValue
  | record fields => fields.lookup name
  | _ => none

/-- Whether a field of a record is a given text. -/
def hasText (name : String) (s : Bytes) (value : JsonValue) : Bool :=
  match value.field? name with
  | some (text t) => t == s
  | _ => false

/-- A count or flag of an export in JSON. -/
def summaryField? (name : String) (value : JsonValue) : Option JsonValue :=
  (value.field? "summary").bind (field? name)

/-- The issues of an export in JSON. -/
def issues (value : JsonValue) : List JsonValue :=
  match value.field? "issues" with
  | some (list items) => items
  | _ => []

end JsonValue

namespace Export

/-- The counts of a run agree with each other and with an export of it in JSON. -/
structure CountsAgree (verdicts : List Verdict) (json : JsonValue) : Prop where
  total : (Summary.ofVerdicts verdicts).total = countFindings verdicts
  byRule_distinct : ((Summary.ofVerdicts verdicts).byRule.map Prod.fst).Nodup
  byRule_sum : ((Summary.ofVerdicts verdicts).byRule.map Prod.snd).sum = countFindings verdicts
  total_issues : json.summaryField? "total_issues" = some (.number (countFindings verdicts))
  length_issues : json.issues.length = countFindings verdicts
  errors : (Summary.ofVerdicts verdicts).errors =
    json.issues.countP (·.hasText "severity" (Bytes.ofString "error"))
  warnings : (Summary.ofVerdicts verdicts).warnings =
    json.issues.countP (·.hasText "severity" (Bytes.ofString "warning"))
  byRule : ∀ rule, (Summary.ofVerdicts verdicts).byRule.get rule =
    json.issues.countP (·.hasText "rule" rule)
  errored : json.summaryField? "errored" = some (.flag (anyErrored verdicts))

/-- Verdicts are errored one by one in an export. -/
theorem foldl_gather_fst (verdicts : List Verdict) (gathered : Bool × List (Bytes × Cause)) :
    (verdicts.foldl gather gathered).1 = (gathered.1 || anyErrored verdicts) := by
  induction verdicts generalizing gathered with
  | nil => exact (Bool.or_false _).symm
  | cons v verdicts ih =>
    rw [List.foldl_cons, ih, gather, Bool.or_assoc, anyErrored, anyErrored, List.any_cons]

theorem issues_toJson (verdicts : List Verdict) (timestamp : Bytes) :
    ((ofVerdicts verdicts).toJson timestamp).issues =
      (Issue.sorted verdicts).map issueValue := rfl

theorem hasText_severity (i : Issue) (s : Severity) :
    (issueValue i).hasText "severity" s.name = (i.finding.severity == s) := by
  have hname : (issueValue i).hasText "severity" s.name = (i.finding.severity.name == s.name) := rfl
  rw [hname]
  cases i.finding.severity <;> cases s <;> decide +kernel

/-- The issues of a kind are as many as the findings of the kind. -/
theorem countP_issues (verdicts : List Verdict) (timestamp : Bytes) {test : JsonValue → Bool}
    (kind : Finding → Bool) (h : ∀ i, test (issueValue i) = kind i.finding) :
    ((ofVerdicts verdicts).toJson timestamp).issues.countP test =
      (verdicts.flatMap (·.findings)).countP kind := by
  rw [issues_toJson, List.countP_map, (Issue.isArrangement_sorted verdicts).perm.countP_eq,
    ← Issue.map_finding_ofVerdicts, List.countP_map]
  congr 1
  funext i
  exact h i

/-- **All counts of a run agree.** Let every finding be an error or a warning. Then the findings, the
total of the summary, the counts by rule and the issues of the export have the same number, each
count of a severity or a rule is the number of such issues, and the export lists every finding with
its file in the order of a report. -/
theorem all_counts_agree {verdicts : List Verdict}
    (h : ∀ v ∈ verdicts, ∀ f ∈ v.findings, f.IsGraded) (timestamp : Bytes) :
    CountsAgree verdicts ((ofVerdicts verdicts).toJson timestamp) ∧
      ∃ arranged, Issue.IsArrangement (Issue.ofVerdicts verdicts) arranged ∧
        ((ofVerdicts verdicts).toJson timestamp).issues = arranged.map issueValue := by
  have hnil : RuleCount.IsIncreasing [] := .nil
  have hincreasing := hnil.foldl_add (verdicts.flatMap (·.findings))
  have htotal := Summary.total_ofVerdicts h
  refine ⟨⟨htotal, ?_, ?_, ?_, ?_, ?_, ?_, ?_, ?_⟩, Issue.sorted verdicts,
    Issue.isArrangement_sorted verdicts, issues_toJson verdicts timestamp⟩
  · refine List.pairwise_map.2 (hincreasing.imp fun {a b} hlt heq => ?_)
    rw [heq] at hlt
    exact List.lt_irrefl _ hlt
  · exact (RuleCount.sum_foldl_add _ []).trans (Nat.zero_add _)
  · rw [← htotal]
    rfl
  · rw [issues_toJson, List.length_map, (Issue.isArrangement_sorted verdicts).perm.length_eq,
      countFindings, ← Issue.map_finding_ofVerdicts, List.length_map]
  · exact (countP_issues verdicts timestamp _ fun i => hasText_severity i .error).symm
  · exact (countP_issues verdicts timestamp _ fun i => hasText_severity i .warning).symm
  · intro rule
    rw [countP_issues verdicts timestamp (fun f => f.rule == rule) fun _ => rfl]
    exact (RuleCount.get_foldl_add hnil _ rule).trans (Nat.zero_add _)
  · change some (JsonValue.flag (verdicts.foldl gather (false, [])).1) = _
    rw [foldl_gather_fst, Bool.false_or]

/-- Two verdicts on one file with an error and a warning at the same place, and between them one on a
text without a path. -/
def splitVerdicts : List Verdict :=
  let finding (rule : String) (severity : Severity) (line : Int) : Finding :=
    { rule := Bytes.ofString rule, severity, line, column := 3, text := [] }
  [{ source := Bytes.ofString "b.js", errored := true
     findings := [finding "indentation" .error 4, finding "block-no-empty" .error 2] },
   { findings := [finding "indentation" .warning 7] },
   { source := Bytes.ofString "b.js", findings := [finding "indentation" .warning 4] }]

theorem splitVerdicts_counts_agree :
    (∀ v ∈ splitVerdicts, ∀ f ∈ v.findings, f.IsGraded) ∧ countFindings splitVerdicts = 4 ∧
      CountsAgree splitVerdicts ((ofVerdicts splitVerdicts).toJson []) ∧
      ∃ arranged, Issue.IsArrangement (Issue.ofVerdicts splitVerdicts) arranged ∧
        ((ofVerdicts splitVerdicts).toJson []).issues = arranged.map issueValue := by
  have hgraded : ∀ v ∈ splitVerdicts, ∀ f ∈ v.findings, f.IsGraded := by
    simp [splitVerdicts, Finding.IsGraded]
  exact ⟨hgraded, rfl, all_counts_agree hgraded []⟩

end Export
end TemplateLint
