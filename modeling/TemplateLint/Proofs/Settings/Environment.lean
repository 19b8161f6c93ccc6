import Mathlib
import TemplateLint.Proofs.Settings.Tree
import TemplateLint.Settings.Environment

/-!
# Settings from the environment

Each variable that is a setting puts its text at the path that its name stands for. When no path of
a variable runs through the end of another, every one of these texts can be found at its path, the
last one if several variables stand for one path. Over the settings of a file they then win at their
own paths, and nowhere else.
-/
namespace TemplateLint
open Settings

/-- The keys on the way to a path. -/
def Settings.wayOf (path : Bytes) : List Bytes := path.splitOn Byte.dot

/-- Two paths that are equal, or neither of which leads on from the other. -/
def Settings.Apart (p q : Bytes) : Prop :=
  (wayOf p <+: wayOf q → p = q) ∧ (wayOf q <+: wayOf p → p = q)

instance (p q : Bytes) : Decidable (Settings.Apart p q) := inferInstanceAs (Decidable (_ ∧ _))

namespace Environment

/-- The paths that variables set, with their values. -/
def assignments (env : Environment) : List (Bytes × Bytes) :=
  env.filterMap fun (name, value) => (settingPath? name).map fun path => (path, value)

/-- The paths that variables set. -/
def paths (env : Environment) : List Bytes := env.assignments.map Prod.fst

/-- The value of the variable for a path, the last one if there are several. -/
def valueAt? (env : Environment) (path : Bytes) : Option Bytes :=
  env.assignments.reverse.lookup path

/-- An environment in which no path leads on from another. -/
def IsPrefixFree (env : Environment) : Prop := ∀ p ∈ env.paths, ∀ q ∈ env.paths, Apart p q

instance (env : Environment) : Decidable env.IsPrefixFree :=
  inferInstanceAs (Decidable (∀ p ∈ env.paths, ∀ q ∈ env.paths, Apart p q))

/-- Set a path to the value of a variable. -/
def assign (t : Tree) (assignment : Bytes × Bytes) : Tree :=
  Tree.putPath assignment.1 (.text assignment.2) t

theorem settings_eq (env : Environment) : env.settings = env.assignments.foldl assign [] := by
  unfold settings
  generalize ([] : Tree) = t
  induction env generalizing t with
  | nil => rfl
  | cons entry rest ih =>
    obtain ⟨name, value⟩ := entry
    rw [List.foldl_cons, ih]
    cases hpath : settingPath? name with
    | none => simp only [assignments, List.filterMap_cons, hpath, Option.map_none]
    | some path =>
      simp only [assignments, List.filterMap_cons, hpath, Option.map_some, List.foldl_cons,
        assign]

theorem wayOf_injective {p q : Bytes} (h : wayOf p = wayOf q) : p = q := by
  have hjoin (p : Bytes) : [Byte.dot].intercalate (wayOf p) = p := List.intercalate_splitOn Byte.dot
  rw [← hjoin p, h, hjoin q]

theorem exists_wayOf_eq_cons (p : Bytes) : ∃ key rest, wayOf p = key :: rest :=
  List.exists_cons_of_ne_nil (List.splitOn_ne_nil Byte.dot p)

/-- Setting a path leaves the ways to all paths clear that are apart from it. -/
theorem isClear_assign {p q v : Bytes} {t : Tree} (hp : Tree.IsClear (wayOf p) t)
    (hq : Tree.IsClear (wayOf q) t) (h : Apart p q) :
    Tree.IsClear (wayOf q) (assign t (p, v)) :=
  Tree.isClear_put hp hq (fun hleads => congrArg wayOf (h.1 hleads)) _

/-- Setting a path changes no path that is apart from it. -/
theorem at?_assign {p q v : Bytes} {t : Tree} (hp : Tree.IsClear (wayOf p) t) (h : Apart p q) :
    Tree.at? (wayOf q) (assign t (p, v)) =
      if q = p then some (.text v) else Tree.at? (wayOf q) t := by
  split
  · next heq =>
    subst heq
    obtain ⟨key, rest, hway⟩ := exists_wayOf_eq_cons q
    rw [assign, Tree.putPath, ← wayOf, hway]
    exact Tree.at?_put_self (hway ▸ hp) _
  · next hne =>
    exact Tree.at?_put_of_ne hp (fun hleads => hne (h.1 hleads).symm)
      (fun hleads => hne (h.2 hleads).symm) _

/-- **The last value that is set at a path is found there.** -/
theorem at?_foldl_assign {as : List (Bytes × Bytes)} {q : Bytes} {t : Tree}
    (hapart : ∀ p ∈ as.map Prod.fst, ∀ p' ∈ as.map Prod.fst, Apart p p')
    (hclear : ∀ p ∈ as.map Prod.fst, Tree.IsClear (wayOf p) t)
    (hq : ∀ p ∈ as.map Prod.fst, Apart p q) (hqclear : Tree.IsClear (wayOf q) t) :
    Tree.IsClear (wayOf q) (as.foldl assign t) ∧
      Tree.at? (wayOf q) (as.foldl assign t) =
        ((as.reverse.lookup q).map Value.text).or (Tree.at? (wayOf q) t) := by
  induction as generalizing t with
  | nil => exact ⟨hqclear, rfl⟩
  | cons a rest ih =>
    obtain ⟨p, v⟩ := a
    rw [List.map_cons, List.forall_mem_cons] at hapart hclear hq
    have hrest := fun p' hp' => (List.forall_mem_cons.1 (hapart.2 p' hp')).2
    have hfirst := (List.forall_mem_cons.1 hapart.1).2
    obtain ⟨hclear', hat⟩ := ih hrest
      (fun p' hp' => isClear_assign (v := v) hclear.1 (hclear.2 p' hp') (hfirst p' hp')) hq.2
      (isClear_assign hclear.1 hqclear hq.1)
    refine ⟨hclear', ?_⟩
    rw [List.foldl_cons, hat, at?_assign hclear.1 hq.1, List.reverse_cons, List.lookup_append]
    cases rest.reverse.lookup q with
    | some w => rfl
    | none =>
      by_cases hqp : q = p
      · simp [hqp]
      · rw [if_neg hqp, List.lookup_cons, beq_eq_false_iff_ne.2 hqp]
        rfl

variable {env : Environment} {path : Bytes}

/-- A path that is apart from those of all variables has the value of its own variable. -/
theorem at?_settings (hfree : env.IsPrefixFree) (hapart : ∀ p ∈ env.paths, Apart p path) :
    Tree.IsClear (wayOf path) env.settings ∧
      Tree.at? (wayOf path) env.settings = (env.valueAt? path).map Value.text := by
  obtain ⟨hclear, hat⟩ := at?_foldl_assign (t := []) hfree (fun p _ => Tree.isClear_nil _) hapart
    (Tree.isClear_nil _)
  have hnil : Tree.at? (wayOf path) [] = none := by
    obtain ⟨key, rest, hway⟩ := exists_wayOf_eq_cons path
    rw [hway]
    cases rest <;> rfl
  rw [settings_eq]
  exact ⟨hclear, by rw [hat, hnil, Option.or_none, valueAt?]⟩

theorem isTidy_settings (env : Environment) (way : List Bytes) : Tree.IsTidy way env.settings := by
  have hfold (as : List (Bytes × Bytes)) (t : Tree) (h : Tree.IsTidy way t) :
      Tree.IsTidy way (as.foldl assign t) := by
    induction as generalizing t with
    | nil => exact h
    | cons a rest ih =>
      exact ih _ (Tree.isTidy_put h (fun key hkey => Path.not_mem_of_mem_splitOn hkey)
        (fun _ he => by cases he))
  rw [settings_eq]
  exact hfold _ [] (Tree.isTidy_nil way)

theorem valueAt?_eq_none_iff : env.valueAt? path = none ↔ path ∉ env.paths := by
  rw [valueAt?, List.lookup_eq_none_iff, paths, List.mem_map]
  constructor
  · rintro h ⟨e, he, rfl⟩
    exact (bne_iff_ne.1 (h e (List.mem_reverse.2 he))) rfl
  · exact fun h e he => bne_iff_ne.2 fun hk => h ⟨e, List.mem_reverse.1 he, hk.symm⟩

theorem wayOf_of_not_mem {key : Bytes} (h : Byte.dot ∉ key) : wayOf key = [key] :=
  List.splitOn_eq_singleton h

theorem wayOf_pair {a b : Bytes} (ha : Byte.dot ∉ a) (hb : Byte.dot ∉ b) :
    wayOf (a ++ Byte.dot :: b) = [a, b] := by
  rw [wayOf, List.splitOn_append_cons_self_of_not_mem ha, List.splitOn_eq_singleton hb]

/-- A key that starts no path of a variable is no setting of the environment. -/
theorem lookup_settings_eq_none (hfree : env.IsPrefixFree) {key : Bytes} (hkey : Byte.dot ∉ key)
    (h : ∀ p ∈ env.paths, ¬[key] <+: wayOf p) : env.settings.lookup key = none := by
  have hway := wayOf_of_not_mem hkey
  have hnot : key ∉ env.paths := fun hmem => h key hmem (by rw [hway])
  have hapart : ∀ p ∈ env.paths, Apart p key := by
    intro p hp
    refine ⟨fun hleads => ?_, fun hleads => absurd (hway ▸ hleads) (h p hp)⟩
    obtain ⟨first, rest, hp'⟩ := exists_wayOf_eq_cons p
    rw [hway, hp', List.cons_prefix_cons, List.prefix_nil] at hleads
    obtain ⟨rfl, rfl⟩ := hleads
    exact wayOf_injective (hp'.trans hway.symm)
  have hat := (at?_settings hfree hapart).2
  rw [hway, valueAt?_eq_none_iff.2 hnot] at hat
  exact hat

/-- **A variable wins over the file at its own path, and nowhere else.** -/
theorem find_overlay_settings (hfree : env.IsPrefixFree) {a b : Bytes} (ha : Byte.dot ∉ a)
    (hb : Byte.dot ∉ b) (hapart : ∀ p ∈ env.paths, Apart p (a ++ Byte.dot :: b)) {file : Tree}
    (hnested : a ++ Byte.dot :: b ∈ env.paths → file.lookup (a ++ Byte.dot :: b) = none) :
    (Tree.overlay env.settings file).find (a ++ Byte.dot :: b) =
      ((env.valueAt? (a ++ Byte.dot :: b)).map Value.text).or
        (file.find (a ++ Byte.dot :: b)) := by
  obtain ⟨hclear, hat⟩ := at?_settings hfree hapart
  have htidy := isTidy_settings env [a]
  rw [wayOf_pair ha hb] at hclear hat
  cases hvalue : env.valueAt? (a ++ Byte.dot :: b) with
  | none =>
    rw [hvalue] at hat
    exact htidy.find_overlay_of_at?_eq_none hclear ha hb hat file
  | some v =>
    have hmem : a ++ Byte.dot :: b ∈ env.paths := by
      by_contra hnot
      rw [valueAt?_eq_none_iff.2 hnot] at hvalue
      cases hvalue
    rw [hvalue] at hat
    exact htidy.find_overlay_of_at? hclear ha hb hat (fun _ he => by cases he) (hnested hmem)

end Environment
end TemplateLint
