import Mathlib

/-!
# Lists

A list is mapped by a function that may fail exactly when each of its elements is, and an element
that fails is the reason for a failure.
-/
namespace TemplateLint

section
variable {ε α β : Type} {f : α → Except ε β} {xs : List α}

/-- A list is mapped exactly when all of its elements are. -/
theorem mapM_eq_ok_iff {ys : List β} :
    xs.mapM f = .ok ys ↔ List.Forall₂ (fun x y => f x = .ok y) xs ys := by
  induction xs generalizing ys with
  | nil => cases ys <;> simp [pure, Except.pure]
  | cons x xs ih =>
    rw [List.mapM_cons, List.forall₂_cons_left_iff]
    cases hx : f x with
    | error e => simp [bind, Except.bind]
    | ok y =>
      cases hxs : xs.mapM f with
      | error e => simp [bind, Except.bind, ← ih, hxs]
      | ok rest => simp [bind, Except.bind, pure, Except.pure, ← ih, hxs, eq_comm]

/-- Mapping a list fails exactly when it fails for one of its elements. -/
theorem exists_mapM_eq_error_iff :
    (∃ e, xs.mapM f = .error e) ↔ ∃ x ∈ xs, ∃ e, f x = .error e := by
  induction xs with
  | nil => simp [pure, Except.pure]
  | cons x xs ih =>
    rw [List.mapM_cons]
    cases hx : f x with
    | error e => simp [bind, Except.bind, hx]
    | ok y =>
      cases hxs : xs.mapM f with
      | error e => simpa [bind, Except.bind, hx, hxs] using ih
      | ok rest => simpa [bind, Except.bind, pure, Except.pure, hx, hxs] using ih

end

/-- The least of some numbers moves with them. -/
theorem min?_map_add (n : Nat) (ns : List Nat) :
    (ns.map (n + ·)).min? = ns.min?.map (n + ·) := by
  induction ns with
  | nil => rfl
  | cons m ns ih =>
    rw [List.map_cons, List.min?_cons, List.min?_cons, ih]
    cases ns.min? with
    | none => rfl
    | some k => simp

end TemplateLint
