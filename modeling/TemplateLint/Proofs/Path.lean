import Mathlib
import TemplateLint.Path

/-!
# Cleaned paths

Cleaning a path that starts at the root leaves proper names only: none of them is empty, a dot or
a double dot, and none holds a separator. Such a path is clean already. So the absolute form of a
path is its own absolute form.
-/
namespace TemplateLint.Path

/-- A name that cleaning keeps. -/
structure IsProper (name : Bytes) : Prop where
  ne_nil : name ≠ []
  ne_dot : name ≠ [Byte.dot]
  ne_up : name ≠ up
  single : Byte.slash ∉ name

/-- The pieces between separators hold none. -/
theorem not_mem_of_mem_splitOn {sep : UInt8} {path name : Bytes} (h : name ∈ path.splitOn sep) :
    sep ∉ name := by
  induction path generalizing name with
  | nil =>
    rw [List.splitOn_nil, List.mem_singleton] at h
    simp [h]
  | cons b path ih =>
    rw [List.splitOn_cons_eq_if_modifyHead] at h
    split at h
    · rcases List.mem_cons.1 h with rfl | h
      · simp
      · exact ih h
    · next hb =>
      obtain ⟨first, rest, hsplit⟩ := List.exists_cons_of_ne_nil (List.splitOn_ne_nil sep path)
      rw [hsplit] at h ih
      rcases List.mem_cons.1 h with rfl | h
      · have hfirst : sep ∉ first := ih (by simp)
        intro hm
        rcases List.mem_cons.1 hm with heq | hm
        · exact hb (beq_iff_eq.2 heq.symm)
        · exact hfirst hm
      · exact ih (by simp [h])

theorem slash_not_mem_of_mem_names {path name : Bytes} (h : name ∈ names path) :
    Byte.slash ∉ name :=
  not_mem_of_mem_splitOn h

theorem reduce_skip {rooted : Bool} {reversed rest : List Bytes} {name : Bytes}
    (h : name = [] ∨ name = [Byte.dot]) :
    reduce rooted reversed (name :: rest) = reduce rooted reversed rest := by
  conv_lhs => unfold reduce
  rw [if_pos (by simpa using h)]

theorem reduce_name {rooted : Bool} {reversed rest : List Bytes} {name : Bytes} (hnil : name ≠ [])
    (hdot : name ≠ [Byte.dot]) (hup : name ≠ up) :
    reduce rooted reversed (name :: rest) = reduce rooted (name :: reversed) rest := by
  conv_lhs => unfold reduce
  rw [if_neg (by simp [hnil, hdot]), if_neg hup]

/-- From the root, a double dot removes the proper name before it, if there is one. -/
theorem reduce_up {reversed rest : List Bytes} (h : ∀ n ∈ reversed, n ≠ up) :
    reduce true reversed (up :: rest) = reduce true reversed.tail rest := by
  conv_lhs => unfold reduce
  rw [if_neg (by decide), if_pos rfl]
  cases reversed with
  | nil => rfl
  | cons last before => exact if_neg (h last (by simp))

/-- Cleaning from the root keeps proper names. -/
theorem isProper_of_mem_reduce {reversed rest : List Bytes}
    (hreversed : ∀ n ∈ reversed, IsProper n) (hrest : ∀ n ∈ rest, Byte.slash ∉ n) :
    ∀ n ∈ reduce true reversed rest, IsProper n := by
  induction rest generalizing reversed with
  | nil => simpa [reduce] using hreversed
  | cons name rest ih =>
    rw [List.forall_mem_cons] at hrest
    by_cases hskip : name = [] ∨ name = [Byte.dot]
    · rw [reduce_skip hskip]
      exact ih hreversed hrest.2
    · rw [not_or] at hskip
      by_cases hup : name = up
      · rw [hup, reduce_up fun n hn => (hreversed n hn).ne_up]
        exact ih (fun n hn => hreversed n (List.mem_of_mem_tail hn)) hrest.2
      · rw [reduce_name hskip.1 hskip.2 hup]
        refine ih (List.forall_mem_cons.2 ⟨?_, hreversed⟩) hrest.2
        exact ⟨hskip.1, hskip.2, hup, hrest.1⟩

/-- Cleaning changes nothing in proper names. -/
theorem reduce_of_isProper {rooted : Bool} {rest : List Bytes} (h : ∀ n ∈ rest, IsProper n)
    (reversed : List Bytes) : reduce rooted reversed rest = reversed.reverse ++ rest := by
  induction rest generalizing reversed with
  | nil => simp [reduce]
  | cons name rest ih =>
    rw [List.forall_mem_cons] at h
    rw [reduce_name h.1.ne_nil h.1.ne_dot h.1.ne_up, ih h.2]
    simp

theorem join_eq_intercalate (parts : List Bytes) :
    Bytes.join [Byte.slash] parts = [Byte.slash].intercalate parts := by
  fun_induction Bytes.join [Byte.slash] parts with
  | case1 => rfl
  | case2 s => simp
  | case3 s t rest ih =>
    rw [ih, List.intercalate_cons_of_ne_nil (List.cons_ne_nil t rest)]

/-- The names of a cleaned path. -/
theorem names_join {parts : List Bytes} (h : ∀ n ∈ parts, IsProper n) :
    reduce true [] (names (Byte.slash :: Bytes.join [Byte.slash] parts)) = parts := by
  have hslash : ([] : Bytes) ++ Byte.slash :: Bytes.join [Byte.slash] parts =
      Byte.slash :: Bytes.join [Byte.slash] parts := rfl
  rw [names, ← hslash, List.splitOn_append_cons_self_of_not_mem (by simp),
    reduce_skip (.inl rfl), join_eq_intercalate]
  cases parts with
  | nil => rfl
  | cons name rest =>
    rw [List.splitOn_intercalate _ (fun n hn => (h n hn).single) (by simp),
      reduce_of_isProper h, List.reverse_nil, List.nil_append]

theorem clean_of_isAbsolute {path : Bytes} (h : isAbsolute path = true) :
    clean path = Byte.slash :: Bytes.join [Byte.slash] (reduce true [] (names path)) := by
  simp only [clean, h, if_true]

/-- A cleaned path from the root is clean. -/
theorem clean_clean {path : Bytes} (h : isAbsolute path = true) :
    clean (clean path) = clean path := by
  have hproper : ∀ n ∈ reduce true [] (names path), IsProper n :=
    isProper_of_mem_reduce (by simp) fun n hn => slash_not_mem_of_mem_names hn
  rw [clean_of_isAbsolute h, clean_of_isAbsolute rfl, names_join hproper]

theorem isAbsolute_clean {path : Bytes} (h : isAbsolute path = true) :
    isAbsolute (clean path) = true := by
  rw [clean_of_isAbsolute h]
  rfl

theorem isAbsolute_append {directory : Bytes} (h : isAbsolute directory = true) (path : Bytes) :
    isAbsolute (directory ++ path) = true := by
  cases directory with
  | nil => cases h
  | cons b directory => exact h

theorem isAbsolute_absolute {directory : Bytes} (h : isAbsolute directory = true) (path : Bytes) :
    isAbsolute (absolute directory path) = true := by
  rw [absolute]
  split
  · next hp => exact isAbsolute_clean hp
  · rw [List.append_assoc]
    exact isAbsolute_clean (isAbsolute_append h _)

/-- **The absolute form of a path is its own absolute form.** -/
theorem absolute_absolute {directory : Bytes} (h : isAbsolute directory = true) (path : Bytes) :
    absolute directory (absolute directory path) = absolute directory path := by
  rw [absolute, if_pos (isAbsolute_absolute h path), absolute]
  split
  · next hp => exact clean_clean hp
  · rw [List.append_assoc]
    exact clean_clean (isAbsolute_append h _)

end TemplateLint.Path
