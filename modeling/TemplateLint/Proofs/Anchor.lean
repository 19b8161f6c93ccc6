import Mathlib
import TemplateLint.Anchor

/-!
# Columns under anchors, lines under maps

The source column of a column depends on the last anchor at or before it only. So anchors added
behind a column do not change what it stands for, an anchor added at or before it decides, and
moving a line with all its anchors changes nothing.

A map from lines answers like a function: setting one line leaves the others alone, and an
overlay answers first wherever it has an answer.
-/
namespace TemplateLint

namespace Anchor

theorem nearest_append_of_lt {column : Int} {a : Anchor} (h : column < a.fragment)
    (current : Anchor) (anchors : List Anchor) :
    nearest column current (anchors ++ [a]) = nearest column current anchors := by
  induction anchors generalizing current with
  | nil => simp [nearest, h]
  | cons b rest ih =>
    rw [List.cons_append, nearest, nearest]
    split
    · rfl
    · exact ih b

theorem nearest_append_of_le {column : Int} {a : Anchor} (h : a.fragment ≤ column)
    (current : Anchor) {anchors : List Anchor} (hall : ∀ b ∈ anchors, b.fragment ≤ column) :
    nearest column current (anchors ++ [a]) = a := by
  induction anchors generalizing current with
  | nil => simp [nearest, not_lt.2 h]
  | cons b rest ih =>
    rw [List.forall_mem_cons] at hall
    rw [List.cons_append, nearest, if_neg (not_lt.2 hall.1)]
    exact ih b hall.2

/-- An anchor behind a column says nothing about it. -/
theorem sourceColumn_append_of_lt {column : Int} {a : Anchor} (h : column < a.fragment)
    {anchors : List Anchor} (hne : anchors ≠ []) :
    sourceColumn column (anchors ++ [a]) = sourceColumn column anchors := by
  obtain ⟨first, rest, rfl⟩ := List.exists_cons_of_ne_nil hne
  rw [List.cons_append, sourceColumn, sourceColumn, nearest_append_of_lt h]

/-- The last anchor at or before a column decides. -/
theorem sourceColumn_append_of_le {column : Int} {a : Anchor} (hc : 0 < column)
    (h : a.fragment ≤ column) {anchors : List Anchor}
    (hall : ∀ b ∈ anchors, b.fragment ≤ column) :
    sourceColumn column (anchors ++ [a]) = max 1 (a.source + column - a.fragment) := by
  cases anchors with
  | nil => rw [List.nil_append, sourceColumn, if_neg (not_le.2 hc), nearest]
  | cons b rest =>
    rw [List.forall_mem_cons] at hall
    rw [List.cons_append, sourceColumn, if_neg (not_le.2 hc), nearest_append_of_le h b hall.2]

/-- Columns stay columns. -/
theorem one_le_sourceColumn {column : Int} (hc : 1 ≤ column) (anchors : List Anchor) :
    1 ≤ sourceColumn column anchors := by
  cases anchors with
  | nil => exact hc
  | cons first rest =>
    rw [sourceColumn, if_neg (by omega)]
    exact le_max_left _ _

/-- An anchor moved with its line. -/
def shift (d : Int) (a : Anchor) : Anchor := { a with fragment := a.fragment + d }

theorem nearest_shift (d column : Int) (current : Anchor) (anchors : List Anchor) :
    nearest (column + d) (shift d current) (anchors.map (shift d)) =
      shift d (nearest column current anchors) := by
  induction anchors generalizing current with
  | nil => rfl
  | cons b rest ih =>
    rw [List.map_cons, nearest, nearest]
    by_cases hb : column < b.fragment
    · rw [if_pos hb, if_pos (by simpa [shift] using hb)]
    · rw [if_neg hb, if_neg (by simpa [shift] using hb)]
      exact ih b

/-- A column that moves with its line and the anchors of the line keeps its source column. -/
theorem sourceColumn_shift {d column : Int} (hc : 0 < column) (hd : 0 < column + d)
    (anchors : List Anchor) (hne : anchors ≠ []) :
    sourceColumn (column + d) (anchors.map (shift d)) = sourceColumn column anchors := by
  obtain ⟨first, rest, rfl⟩ := List.exists_cons_of_ne_nil hne
  rw [List.map_cons, sourceColumn, sourceColumn, if_neg (not_le.2 hd), if_neg (not_le.2 hc),
    nearest_shift]
  simp only [shift]
  congr 1
  omega

end Anchor

namespace LineMap
variable {α : Type}

/-- The lines that a map has a value for. -/
def keys (m : LineMap α) : List Int := m.map Prod.fst

@[simp] theorem get?_nil (line : Int) : get? ([] : LineMap α) line = none := rfl

theorem get?_cons (k line : Int) (v : α) (m : LineMap α) :
    get? ((k, v) :: m) line = if k = line then some v else get? m line := by
  by_cases h : k = line <;> simp [get?, h]

theorem get?_eq_none_iff {m : LineMap α} {line : Int} : get? m line = none ↔ line ∉ m.keys := by
  induction m with
  | nil => simp [keys]
  | cons e m ih =>
    obtain ⟨k, v⟩ := e
    rw [get?_cons, keys, List.map_cons, List.mem_cons, ← keys]
    by_cases h : k = line
    · simp [h]
    · simp [h, ih, Ne.symm h]

theorem get?_eq_some_iff {m : LineMap α} (h : m.keys.Nodup) {line : Int} {v : α} :
    get? m line = some v ↔ (line, v) ∈ m := by
  induction m with
  | nil => simp
  | cons e m ih =>
    obtain ⟨k, w⟩ := e
    rw [keys, List.map_cons, List.nodup_cons, ← keys] at h
    rw [get?_cons, List.mem_cons, ← ih h.2, Prod.mk.injEq]
    by_cases hk : k = line
    · subst hk
      simp [get?_eq_none_iff.2 h.1, eq_comm]
    · simp [hk, Ne.symm hk]

/-- Setting a line decides that line and leaves the others alone. -/
theorem get?_insert (m : LineMap α) (line k : Int) (v : α) :
    get? (insert line v m) k = if line = k then some v else get? m k := by
  induction m with
  | nil => rw [insert, get?_cons]
  | cons e m ih =>
    obtain ⟨l, x⟩ := e
    rw [insert]
    split
    · rw [get?_cons]
    · split
      · next heq =>
        subst heq
        rw [get?_cons, get?_cons]
        split <;> rfl
      · next hne =>
        rw [get?_cons, get?_cons, ih]
        by_cases hl : l = k
        · rw [if_pos hl, if_pos hl, if_neg (fun h => hne (h.trans hl.symm))]
        · rw [if_neg hl, if_neg hl]

/-- An overlay with one value for a line answers first. -/
theorem get?_merge (m : LineMap α) {overlay : LineMap α} (h : overlay.keys.Nodup) (k : Int) :
    get? (merge m overlay) k = (get? overlay k).or (get? m k) := by
  induction overlay generalizing m with
  | nil => rfl
  | cons e overlay ih =>
    obtain ⟨l, v⟩ := e
    rw [keys, List.map_cons, List.nodup_cons, ← keys] at h
    have step : merge m ((l, v) :: overlay) = merge (insert l v m) overlay := rfl
    rw [step, ih _ h.2, get?_insert, get?_cons]
    by_cases hl : l = k
    · subst hl
      rw [if_pos rfl, if_pos rfl, get?_eq_none_iff.2 h.1]
      rfl
    · rw [if_neg hl, if_neg hl]

end LineMap
end TemplateLint
