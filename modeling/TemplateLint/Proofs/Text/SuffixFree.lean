import Mathlib

/-!
# Languages that are read from the end

A language is suffix-free when its words can be read off the end of a text in one way only: what
stands before the word is fixed by the text. This is kept by sequences, and by alternatives whose
words end in different characters. A repetition at the end can be taken away whenever what stands
before it ends in another character than the repeated words.
-/
namespace TemplateLint
open Computability

/-- A text that ends in a character of a set. -/
def EndsIn (k : Set Nat) (x : List Nat) : Prop := ∃ c ∈ k, x.getLast? = some c

/-- A word of the language that ends a text leaves the same text before it as every other one. -/
def SuffixFree (L : Language Nat) : Prop :=
  ∀ ⦃a b x y : List Nat⦄, x ∈ L → y ∈ L → a ++ x = b ++ y → a = b

variable {K L M : Language Nat} {k l : Set Nat} {a b x y : List Nat}

namespace EndsIn

theorem append (h : EndsIn k x) (a : List Nat) : EndsIn k (a ++ x) := by
  obtain ⟨c, hc, hlast⟩ := h
  exact ⟨c, hc, by rw [List.getLast?_append, hlast]; rfl⟩

theorem mono (h : EndsIn k x) (hkl : k ⊆ l) : EndsIn l x := by
  obtain ⟨c, hc, hlast⟩ := h
  exact ⟨c, hkl hc, hlast⟩

theorem not_of_disjoint (h : EndsIn k x) (hkl : Disjoint k l) : ¬ EndsIn l x := by
  rintro ⟨d, hd, hlast'⟩
  obtain ⟨c, hc, hlast⟩ := h
  rw [hlast] at hlast'
  cases hlast'
  exact Set.disjoint_left.1 hkl hc hd

end EndsIn

/-- Repetitions are taken away from the end of a text in one way only. -/
theorem append_kstar_cancel (hL : SuffixFree L) (hk : ∀ w ∈ L, EndsIn k w) (ha : ¬ EndsIn k a)
    (hb : ¬ EndsIn k b) (hx : x ∈ L∗) (hy : y ∈ L∗) (h : a ++ x = b ++ y) : a = b := by
  obtain ⟨words, rfl, hwords⟩ := Language.mem_kstar.1 hx
  obtain ⟨others, rfl, hothers⟩ := Language.mem_kstar.1 hy
  clear hx hy
  induction words using List.reverseRecOn generalizing others with
  | nil =>
    cases others using List.reverseRecOn with
    | nil => simpa using h
    | append_singleton others v =>
      -- the text before the repetition would end like a repeated word
      refine absurd ?_ ha
      have hv := hk v (hothers v (by simp))
      rw [List.flatten_nil, List.append_nil, List.flatten_append, List.flatten_singleton,
        ← List.append_assoc] at h
      rw [h]
      exact hv.append _
  | append_singleton words w ih =>
    have hw : w ∈ L := hwords w (by simp)
    cases others using List.reverseRecOn with
    | nil =>
      refine absurd ?_ hb
      rw [List.flatten_nil, List.append_nil, List.flatten_append, List.flatten_singleton,
        ← List.append_assoc] at h
      rw [← h]
      exact (hk w hw).append _
    | append_singleton others v =>
      have hv : v ∈ L := hothers v (by simp)
      simp only [List.flatten_append, List.flatten_singleton, ← List.append_assoc] at h
      exact ih (fun z hz => hwords z (by simp [hz])) others (fun z hz => hothers z (by simp [hz]))
        (hL hw hv h)

namespace SuffixFree

theorem mono (h : SuffixFree M) (hLM : L ≤ M) : SuffixFree L :=
  fun _ _ _ _ hx hy => h (hLM hx) (hLM hy)

theorem singleton (w : List Nat) : SuffixFree {w} := by
  rintro a b x y rfl hy h
  cases hy
  exact List.append_cancel_right h

theorem mul (hL : SuffixFree L) (hM : SuffixFree M) : SuffixFree (L * M) := by
  intro a b x y hx hy h
  obtain ⟨u, hu, v, hv, rfl⟩ := Language.mem_mul.1 hx
  obtain ⟨u', hu', v', hv', rfl⟩ := Language.mem_mul.1 hy
  rw [← List.append_assoc, ← List.append_assoc] at h
  exact hL hu hu' (hM hv hv' h)

theorem add (hL : SuffixFree L) (hM : SuffixFree M) (hk : ∀ x ∈ L, EndsIn k x)
    (hl : ∀ x ∈ M, EndsIn l x) (hkl : Disjoint k l) : SuffixFree (L + M) := by
  have happart : ∀ {a b x y : List Nat}, x ∈ L → y ∈ M → a ++ x ≠ b ++ y := by
    intro a b x y hx hy h
    exact ((hk x hx).append a).not_of_disjoint hkl (h ▸ (hl y hy).append b)
  intro a b x y hx hy h
  rcases hx with hx | hx
  · rcases hy with hy | hy
    · exact hL hx hy h
    · exact absurd h (happart hx hy)
  · rcases hy with hy | hy
    · exact absurd h.symm (happart hy hx)
    · exact hM hx hy h

theorem mul_kstar (hK : SuffixFree K) (hL : SuffixFree L) (hk : ∀ x ∈ K, EndsIn k x)
    (hl : ∀ x ∈ L, EndsIn l x) (hkl : Disjoint k l) : SuffixFree (K * L∗) := by
  intro a b x y hx hy h
  obtain ⟨u, hu, v, hv, rfl⟩ := Language.mem_mul.1 hx
  obtain ⟨u', hu', v', hv', rfl⟩ := Language.mem_mul.1 hy
  rw [← List.append_assoc, ← List.append_assoc] at h
  refine hK hu hu' (append_kstar_cancel hL hl ?_ ?_ hv hv' h)
  · exact ((hk u hu).append a).not_of_disjoint hkl
  · exact ((hk u' hu').append b).not_of_disjoint hkl

end SuffixFree

/-! ## How words end -/

theorem endsIn_mul (hl : ∀ x ∈ M, EndsIn l x) : ∀ x ∈ L * M, EndsIn l x := by
  intro x hx
  obtain ⟨u, -, v, hv, rfl⟩ := Language.mem_mul.1 hx
  exact (hl v hv).append u

theorem endsIn_add (hk : ∀ x ∈ L, EndsIn k x) (hl : ∀ x ∈ M, EndsIn l x) :
    ∀ x ∈ L + M, EndsIn (k ∪ l) x := by
  rintro x (hx | hx)
  · exact (hk x hx).mono Set.subset_union_left
  · exact (hl x hx).mono Set.subset_union_right

theorem endsIn_mul_kstar (hk : ∀ x ∈ K, EndsIn k x) (hl : ∀ x ∈ L, EndsIn l x) :
    ∀ x ∈ K * L∗, EndsIn (k ∪ l) x := by
  intro x hx
  obtain ⟨u, hu, v, hv, rfl⟩ := Language.mem_mul.1 hx
  obtain ⟨words, rfl, hwords⟩ := Language.mem_kstar.1 hv
  cases words using List.reverseRecOn with
  | nil =>
    rw [List.flatten_nil, List.append_nil]
    exact (hk u hu).mono Set.subset_union_left
  | append_singleton words w =>
    rw [List.flatten_append, List.flatten_singleton, ← List.append_assoc]
    exact ((hl w (hwords w (by simp))).append _).mono Set.subset_union_right

end TemplateLint
