import Mathlib
import TemplateLint.Proofs.List
import TemplateLint.Proofs.Stylesheet.Compose

/-!
# What a configuration changes

A configuration switches rules off and gives rules other severities. Neither has an influence on
what the checker finds: the findings under a configuration are those under the configuration that
only sets the width, without those of the disabled rules and with the given severities. Sorting is
stable and looks at places only, so it does not matter that disabled rules are left out before it.
-/
namespace TemplateLint

/-- The order in which findings are reported: by line, then by column. -/
def Finding.IsBefore (f g : Finding) : Prop :=
  f.line < g.line ∨ f.line = g.line ∧ f.column ≤ g.column

namespace Stylesheet

/-! ## Leaving out before and after sorting -/

/-- What is left out may be left out before or after a stable sort. -/
theorem filter_mergeSort {α : Type} {le : α → α → Bool}
    (trans : ∀ a b c, le a b → le b c → le a c) (total : ∀ a b, le a b || le b a)
    (p : α → Bool) (l : List α) :
    (l.mergeSort le).filter p = (l.filter p).mergeSort le := by
  induction l with
  | nil => simp
  | cons a l ih =>
    obtain ⟨before, behind, hcons, hsort, hbefore⟩ := List.mergeSort_cons trans total a l
    rw [hsort, List.filter_append] at ih
    rw [hcons, List.filter_append]
    by_cases hp : p a = true
    · have hsorted := List.pairwise_mergeSort trans total (a :: l)
      rw [hcons, List.pairwise_append, List.pairwise_cons] at hsorted
      -- `a` goes where the elements that it is not behind begin
      have htake : ∀ b ∈ before.filter p, (!le a b) = true := by
        intro b hb
        exact hbefore b (List.mem_of_mem_filter hb)
      have hstop : ∀ b ∈ behind.filter p, (!le a b) = false := by
        intro b hb
        simp [hsorted.2.1.1 b (List.mem_of_mem_filter hb)]
      obtain ⟨hnone, hall⟩ := takeWhile_dropWhile_append (l := []) hstop
      rw [List.filter_cons_of_pos hp, List.filter_cons_of_pos hp, mergeSort_cons_eq trans total,
        ← ih, List.takeWhile_append_of_pos htake, List.dropWhile_append_of_pos htake]
      simp only [List.nil_append, List.takeWhile_nil, List.dropWhile_nil] at hnone hall
      rw [hnone, hall, List.append_nil]
    · rw [List.filter_cons_of_neg hp, List.filter_cons_of_neg hp, ih]

/-! ## Accepted configurations -/

namespace Config

/-- The configuration of the same width that leaves every rule as it is. -/
def bare (config : Config) : Config := { config with disabled := [], severities := [] }

/-- Whether a finding is of a rule that is not switched off. -/
def keeps (config : Config) (f : Finding) : Bool := !config.disabled.contains f.rule

/-- A finding with the severity that its rule is given, if it is given one. -/
def relabel (config : Config) (f : Finding) : Finding :=
  { f with severity := (config.severities.lookup f.rule).getD f.severity }

end Config

/-- A list that is mapped by a function with a left inverse can be read off the result. -/
theorem eq_map_of_mapM {ε α β : Type} {f : α → Except ε β} {g : β → α}
    (hg : ∀ x y, f x = .ok y → x = g y) {xs : List α} {ys : List β} (h : xs.mapM f = .ok ys) :
    xs = ys.map g := by
  rw [mapM_eq_ok_iff] at h
  have heq : List.Forall₂ (· = ·) xs (ys.map g) := by
    rw [List.forall₂_map_right_iff]
    exact h.imp hg
  rwa [List.forall₂_eq_eq_eq] at heq

theorem Rule.name_of_lookup {name : Bytes} {rule : Rule} (h : Rule.lookup name = .ok rule) :
    rule.name = name := by
  rw [Rule.lookup] at h
  split at h
  · next found hfound =>
    cases h
    simpa using List.find?_some hfound
  · cases h

namespace Linter
variable {config : Config} {linter : Linter}

/-- An accepted configuration gives the names of the rules of its linter. -/
theorem names_of_ofConfig (h : ofConfig config = .ok linter) :
    config.disabled = linter.disabled.map Rule.name ∧
      config.severities = linter.severities.map fun x => (x.1.name, x.2) := by
  rw [ofConfig] at h
  simp only [bind, Except.bind] at h
  split at h
  · cases h
  next disabled hdisabled =>
    split at h
    · cases h
    next severities hseverities =>
      cases h
      constructor
      · apply eq_map_of_mapM _ hdisabled
        intro name rule hrule
        exact (Rule.name_of_lookup hrule).symm
      · apply eq_map_of_mapM _ hseverities
        intro given graded hgraded
        cases hrule : Rule.lookup given.1 with
        | error e =>
          rw [hrule] at hgraded
          cases hgraded
        | ok rule =>
          rw [hrule] at hgraded
          cases hgraded
          rw [Rule.name_of_lookup hrule]

/-- Without its switches and severities an accepted configuration is accepted as well. -/
theorem ofConfig_bare (h : ofConfig config = .ok linter) :
    ofConfig config.bare = .ok { width := linter.width } := by
  rw [ofConfig] at h
  simp only [bind, Except.bind] at h
  split at h
  · cases h
  split at h
  · cases h
  cases h
  rfl

theorem reports_of_ofConfig (h : ofConfig config = .ok linter) (rule : Rule) :
    linter.reports rule = !config.disabled.contains rule.name := by
  rw [reports, (names_of_ofConfig h).1, Bool.eq_iff_iff]
  have hname : ∀ other ∈ linter.disabled, other.name = rule.name → other = rule := by
    intro other _ hother
    exact Rule.name_injective hother
  simp only [Bool.not_eq_true', List.contains_eq_mem, decide_eq_false_iff_not, List.mem_map,
    not_exists, not_and]
  constructor
  · intro hnot other hmem hother
    exact hnot (hname other hmem hother ▸ hmem)
  · intro hnot hmem
    exact hnot rule hmem rfl

theorem severity_of_ofConfig (h : ofConfig config = .ok linter) (rule : Rule) :
    linter.severity rule = (config.severities.lookup rule.name).getD rule.severity := by
  have hlookup : ∀ given : List (Rule × Severity),
      (given.map fun x => (x.1.name, x.2)).lookup rule.name = given.lookup rule := by
    intro given
    induction given with
    | nil => rfl
    | cons x given ih =>
      obtain ⟨other, severity⟩ := x
      by_cases hother : rule = other
      · subst hother
        simp
      · have hname : rule.name ≠ other.name := by
          intro heq
          exact hother (Rule.name_injective heq)
        simp [List.lookup_cons, beq_eq_false_iff_ne.2 hother, beq_eq_false_iff_ne.2 hname, ih]
  rw [severity, (names_of_ofConfig h).2, hlookup]

/-- A finding under a configuration is that of the bare one, relabelled. -/
theorem finding_of_ofConfig (h : ofConfig config = .ok linter) (width : Nat) (i : Issue) :
    linter.finding i = config.relabel (finding { width } i) := by
  simp only [finding, Config.relabel, severity_of_ofConfig h]
  rfl

/-! ## Findings -/

theorem findings_of_ofConfig (h : ofConfig config = .ok linter) (css : Bytes) :
    linter.findings css =
      ((findings { width := linter.width } css).filter config.keeps).map config.relabel := by
  have hkeeps : config.keeps ∘ finding { width := linter.width } =
      fun i => linter.reports i.rule := by
    funext i
    rw [reports_of_ofConfig h]
    rfl
  have hrelabel : config.relabel ∘ finding { width := linter.width } = linter.finding := by
    funext i
    exact (finding_of_ofConfig h linter.width i).symm
  have hall : ∀ l : List Issue,
      l.filter (fun i => reports { width := linter.width } i.rule) = l := by
    intro l
    rw [List.filter_eq_self]
    intro i _
    rfl
  rw [findings, findings, hall, List.filter_map, List.map_map, hrelabel, hkeeps,
    filter_mergeSort Issue.le_trans Issue.le_total]

/-- Findings are reported in the order of their places. -/
theorem pairwise_findings (linter : Linter) (css : Bytes) :
    (linter.findings css).Pairwise Finding.IsBefore := by
  rw [findings, List.pairwise_map]
  apply (List.pairwise_mergeSort Issue.le_trans Issue.le_total _).imp
  intro a b hab
  simp only [Issue.le, Bool.or_eq_true, Bool.and_eq_true, decide_eq_true_eq, beq_iff_eq] at hab
  simp only [Finding.IsBefore, finding]
  omega

/-- **A configuration only filters and relabels.** What a linter says of a stylesheet is what the
bare linter of the same width says, in the same order, without the findings of the disabled rules
and with the given severities. -/
theorem configuration_filters_and_relabels (h : ofConfig config = .ok linter) (css : Bytes) :
    ∃ plain, ofConfig config.bare = .ok plain ∧
      (linter.lint css).findings =
        ((plain.lint css).findings.filter config.keeps).map config.relabel ∧
      (linter.lint css).findings.Pairwise Finding.IsBefore ∧
      ((linter.lint css).errored = true ↔
        ∃ f ∈ (linter.lint css).findings, f.severity = .error) := by
  refine ⟨{ width := linter.width }, ofConfig_bare h, findings_of_ofConfig h css,
    pairwise_findings linter css, ?_⟩
  simp [lint, Finding.isError]

/-- A configuration that switches a rule off and makes another one an error. -/
def mutedConfig : Config where
  indent := 4
  disabled := [Rule.invalidHex.name]
  severities := [(Rule.indentation.name, .error)]

/-- An empty block that stands too far to the right, above an invalid colour. -/
def tiedSample : Bytes := Bytes.ofString "  \x7b\x7d\na \x7b\n    c: #1;\n\x7d\n"

/-- Both findings about the first brace are left, in the order in which they are made. -/
theorem mutedConfig_filters_and_relabels :
    ∃ linter, ofConfig mutedConfig = .ok linter ∧
      (∃ plain, ofConfig mutedConfig.bare = .ok plain ∧
        (linter.lint tiedSample).findings =
          ((plain.lint tiedSample).findings.filter mutedConfig.keeps).map mutedConfig.relabel ∧
        (linter.lint tiedSample).findings.Pairwise Finding.IsBefore ∧
        ((linter.lint tiedSample).errored = true ↔
          ∃ f ∈ (linter.lint tiedSample).findings, f.severity = .error)) ∧
      (linter.lint tiedSample).findings.map (fun f => (f.rule, f.severity, f.line, f.column)) =
        [(Rule.emptyBlock.name, .error, 1, 3), (Rule.indentation.name, .error, 1, 3)] := by
  have h : ofConfig mutedConfig = .ok ⟨4, [.invalidHex], [(.indentation, .error)]⟩ := by
    decide +kernel
  refine ⟨_, h, configuration_filters_and_relabels h tiedSample, ?_⟩
  rw [lint, findings, List.mergeSort_of_pairwise (by decide +kernel)]
  decide +kernel

end Linter
end Stylesheet
end TemplateLint
