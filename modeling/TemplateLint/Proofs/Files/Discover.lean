import Mathlib
import TemplateLint.Files.Discover

/-!
# Discovery is a filter without repetition

A search meets the matches of its globs one after the other. What it has met is at any time the
files among the matches so far, each once and in the order of its first match. Its results and its
counts are read off these files, so they do not depend on how often a match is met, and their
numbers do not depend on the order of the globs.
-/
namespace TemplateLint

/-! ## What the globs match -/

/-- Something stands at the path, and it is no directory. -/
def Workspace.HoldsFile (w : Workspace) (path : Bytes) : Prop :=
  ∃ node, w.find path = .ok node ∧ node.isDirectory = false

theorem Workspace.isFile_iff {w : Workspace} {path : Bytes} :
    w.isFile path = true ↔ w.HoldsFile path := by
  unfold isFile HoldsFile
  cases w.find path <;> simp

instance (w : Workspace) : DecidablePred w.HoldsFile :=
  fun _ => decidable_of_iff _ Workspace.isFile_iff

namespace Glob

/-- A glob whose matches can be listed. -/
def IsValid (w : Workspace) (glob : Bytes) : Prop := ∃ paths, expand w glob = .ok paths

/-- The matches of a glob. A malformed one has none. -/
def matched (w : Workspace) (glob : Bytes) : List Bytes :=
  match expand w glob with
  | .ok paths => paths
  | .error _ => []

instance (w : Workspace) : DecidablePred (IsValid w) := fun glob =>
  match h : expand w glob with
  | .ok paths => .isTrue ⟨paths, h⟩
  | .error _ => .isFalse fun ⟨_, hok⟩ => by rw [h] at hok; cases hok

theorem IsValid.expand_eq {w : Workspace} {glob : Bytes} (h : IsValid w glob) :
    expand w glob = .ok (matched w glob) := by
  obtain ⟨paths, hpaths⟩ := h
  rw [matched, hpaths]

theorem exists_error_of_not_isValid {w : Workspace} {glob : Bytes} (h : ¬ IsValid w glob) :
    ∃ e, expand w glob = .error e := by
  cases he : expand w glob with
  | error e => exact ⟨e, rfl⟩
  | ok paths => exact absurd ⟨paths, he⟩ h

end Glob

/-! ## First matches -/

/-- The paths of one kind among some matches, each once and in the order of its first match. -/
structure FirstMatches (kind : Bytes → Prop) (found paths : List Bytes) : Prop where
  ordered : paths.Pairwise fun p q => found.idxOf p < found.idxOf q
  mem_iff : ∀ p, p ∈ paths ↔ p ∈ found ∧ kind p

namespace FirstMatches

variable {kind : Bytes → Prop} {found paths : List Bytes} {p : Bytes}

theorem nil : FirstMatches kind [] [] := ⟨.nil, by simp⟩

theorem nodup (h : FirstMatches kind found paths) : paths.Nodup :=
  h.ordered.imp fun {p q} hlt (heq : p = q) => absurd hlt (heq ▸ Nat.lt_irrefl _)

/-- More matches leave the order of the first ones alone. -/
theorem ordered_append (h : FirstMatches kind found paths) (more : List Bytes) :
    paths.Pairwise fun p q => (found ++ more).idxOf p < (found ++ more).idxOf q := by
  refine h.ordered.imp_of_mem fun {a b} ha hb hlt => ?_
  rwa [List.idxOf_append_of_mem ((h.mem_iff a).1 ha).1,
    List.idxOf_append_of_mem ((h.mem_iff b).1 hb).1]

/-- A match that was met, or that is of another kind, adds nothing. -/
theorem append_known (h : FirstMatches kind found paths) (hp : p ∈ paths ∨ ¬ kind p) :
    FirstMatches kind (found ++ [p]) paths where
  ordered := h.ordered_append [p]
  mem_iff := by
    intro q
    rw [h.mem_iff, List.mem_append, List.mem_singleton]
    constructor
    · rintro ⟨hq, hkind⟩
      exact ⟨.inl hq, hkind⟩
    · rintro ⟨hq | rfl, hkind⟩
      · exact ⟨hq, hkind⟩
      · exact (h.mem_iff q).1 (hp.resolve_right fun hnot => hnot hkind)

/-- A match of the kind that was not met comes last. -/
theorem append_new (h : FirstMatches kind found paths) (hp : p ∉ paths) (hkind : kind p) :
    FirstMatches kind (found ++ [p]) (paths ++ [p]) where
  ordered := by
    have hnew : p ∉ found := fun hmem => hp ((h.mem_iff p).2 ⟨hmem, hkind⟩)
    rw [List.pairwise_append]
    refine ⟨h.ordered_append [p], List.pairwise_singleton _ _, ?_⟩
    intro a ha b hb
    rw [List.mem_singleton] at hb
    subst hb
    have hmem := ((h.mem_iff a).1 ha).1
    rw [List.idxOf_append_of_mem hmem, List.idxOf_append_of_notMem hnew]
    exact Nat.lt_add_right _ (List.idxOf_lt_length_of_mem hmem)
  mem_iff := by
    intro q
    rw [List.mem_append, List.mem_append, h.mem_iff, List.mem_singleton]
    constructor
    · rintro (⟨hq, hkind'⟩ | rfl)
      · exact ⟨.inl hq, hkind'⟩
      · exact ⟨.inr rfl, hkind⟩
    · rintro ⟨hq | rfl, hkind'⟩
      · exact .inl ⟨hq, hkind'⟩
      · exact .inr rfl

/-- The paths that pass a test are those of a narrower kind. -/
theorem filter (h : FirstMatches kind found paths) (test : Bytes → Bool) :
    FirstMatches (fun p => kind p ∧ test p = true) found (paths.filter test) where
  ordered := h.ordered.filter test
  mem_iff := by
    intro p
    rw [List.mem_filter, h.mem_iff, and_assoc]

theorem length_eq_card [DecidablePred kind] (h : FirstMatches kind found paths) :
    paths.length = (found.toFinset.filter kind).card := by
  rw [← List.toFinset_card_of_nodup h.nodup]
  congr 1
  ext p
  simp [h.mem_iff]

/-- The order of the matches matters to the order of the paths only. -/
theorem perm {found' paths' : List Bytes} (h : FirstMatches kind found paths)
    (h' : FirstMatches kind found' paths') (hfound : ∀ p, p ∈ found' ↔ p ∈ found) :
    paths'.Perm paths := by
  rw [List.perm_ext_iff_of_nodup h'.nodup h.nodup]
  intro p
  rw [h.mem_iff, h'.mem_iff, hfound]

end FirstMatches

/-! ## A search -/

namespace Search

variable {w : Workspace} {rules : List Ignore.Rule} {s : Search} {found : List Bytes}

/-- What a search holds once it has met some matches. -/
structure Reflects (w : Workspace) (rules : List Ignore.Rule) (found : List Bytes)
    (s : Search) : Prop where
  seen : FirstMatches w.HoldsFile found s.seen
  files : s.files = s.seen.filter fun p => !isSkipped rules p
  scanned : s.scanned = s.files.length
  skipped : s.skipped = (s.seen.filter (isSkipped rules)).length
  discovered : s.discovered = s.scanned + s.skipped

theorem reflects_nil : Reflects w rules [] {} := ⟨.nil, rfl, rfl, rfl, rfl⟩

/-- One match. -/
theorem Reflects.visit (h : Reflects w rules found s) (p : Bytes) :
    Reflects w rules (found ++ [p]) (s.visit w rules p) := by
  unfold Search.visit
  split
  · next hseen => exact { h with seen := h.seen.append_known (.inl hseen) }
  split
  · next hseen hfile =>
    rw [Bool.not_eq_true', ← Bool.not_eq_true, Workspace.isFile_iff] at hfile
    exact { h with seen := h.seen.append_known (.inr hfile) }
  next hseen hfile =>
  rw [Bool.not_eq_true', Bool.not_eq_false, Workspace.isFile_iff] at hfile
  have hnew := h.seen.append_new hseen hfile
  split
  · next hskip =>
    refine ⟨hnew, ?_, h.scanned, ?_, ?_⟩
    · simp [h.files, List.filter_append, hskip]
    · simp [h.skipped, List.filter_append, hskip]
    · simp only [h.discovered]
      omega
  · next hskip =>
    refine ⟨hnew, ?_, ?_, ?_, ?_⟩
    · simp [h.files, List.filter_append, hskip]
    · simp [h.scanned]
    · simp [h.skipped, List.filter_append, hskip]
    · simp only [h.discovered]
      omega

/-- Some matches, one after the other. -/
theorem Reflects.foldl_visit (h : Reflects w rules found s) (paths : List Bytes) :
    Reflects w rules (found ++ paths) (paths.foldl (Search.visit w rules) s) := by
  induction paths generalizing found s with
  | nil => rwa [List.append_nil]
  | cons p paths ih =>
    rw [List.append_cons]
    exact ih (h.visit p)

/-- Valid globs, one after the other. -/
theorem Reflects.exists_foldlM_expand {globs : List Bytes} (h : Reflects w rules found s)
    (hvalid : ∀ g ∈ globs, Glob.IsValid w g) :
    ∃ t, globs.foldlM (Search.expand w rules) s = .ok t ∧
      Reflects w rules (found ++ globs.flatMap (Glob.matched w)) t := by
  induction globs generalizing found s with
  | nil => exact ⟨s, rfl, by rwa [List.flatMap_nil, List.append_nil]⟩
  | cons g globs ih =>
    rw [List.forall_mem_cons] at hvalid
    have hexpand : Search.expand w rules s g =
        .ok ((Glob.matched w g).foldl (Search.visit w rules) s) := by
      rw [Search.expand, hvalid.1.expand_eq]
      rfl
    obtain ⟨t, ht, hreflects⟩ := ih (h.foldl_visit (Glob.matched w g)) hvalid.2
    refine ⟨t, ?_, ?_⟩
    · rw [List.foldlM_cons, hexpand]
      exact ht
    · rwa [List.flatMap_cons, ← List.append_assoc]

/-- A malformed glob ends the search, wherever it stands. -/
theorem exists_error_of_mem {globs : List Bytes} {g : Bytes} (hmem : g ∈ globs)
    (hg : ¬ Glob.IsValid w g) (rules : List Ignore.Rule) (s : Search) :
    ∃ e, globs.foldlM (Search.expand w rules) s = .error e := by
  induction globs generalizing s with
  | nil => cases hmem
  | cons a globs ih =>
    rw [List.foldlM_cons]
    cases ha : Search.expand w rules s a with
    | error e => exact ⟨e, rfl⟩
    | ok t =>
      rcases List.mem_cons.1 hmem with rfl | hmem
      · obtain ⟨e, he⟩ := Glob.exists_error_of_not_isValid hg
        rw [Search.expand, he] at ha
        cases ha
      · exact ih hmem t

end Search

/-! ## Whole discoveries -/

/-- What is discovered by valid globs is read off the first matches. -/
theorem exists_discover {w : Workspace} {globs : List Bytes}
    (hvalid : ∀ g ∈ globs, Glob.IsValid w g) (rules : List Ignore.Rule) :
    ∃ s : Search, discover w rules globs = .ok s.toDiscovery ∧
      s.Reflects w rules (globs.flatMap (Glob.matched w)) := by
  have hstart : Search.Reflects w rules [] {} := Search.reflects_nil
  obtain ⟨s, hs, hreflects⟩ := hstart.exists_foldlM_expand hvalid
  exact ⟨s, by rw [discover, hs]; rfl, hreflects⟩

/-- **Discovery is a filter without repetition.** Valid globs discover the files among their matches
that are not skipped, each once and in the order of its first match, and the counts are the numbers
of these files, of the files that are skipped and of both. The order and the repetition of the globs
change neither the set of files nor a count. With a malformed glob nothing is discovered. -/
theorem discover_filters_matches (w : Workspace) (rules : List Ignore.Rule) (globs : List Bytes) :
    ((∀ g ∈ globs, Glob.IsValid w g) →
      ∃ d, discover w rules globs = .ok d ∧
        d.files.Nodup ∧
        (d.files.Pairwise fun p q => (globs.flatMap (Glob.matched w)).idxOf p <
          (globs.flatMap (Glob.matched w)).idxOf q) ∧
        (∀ p, p ∈ d.files ↔ p ∈ globs.flatMap (Glob.matched w) ∧ w.HoldsFile p ∧
          isSkipped rules p = false) ∧
        d.scanned = d.files.length ∧
        d.skipped = ((globs.flatMap (Glob.matched w)).toFinset.filter fun p =>
          w.HoldsFile p ∧ isSkipped rules p = true).card ∧
        d.discovered = d.scanned + d.skipped ∧
        ∀ globs' : List Bytes, (∀ g, g ∈ globs' ↔ g ∈ globs) →
          ∃ d', discover w rules globs' = .ok d' ∧ (∀ p, p ∈ d'.files ↔ p ∈ d.files) ∧
            d'.discovered = d.discovered ∧ d'.scanned = d.scanned ∧ d'.skipped = d.skipped) ∧
    ((∃ g ∈ globs, ¬ Glob.IsValid w g) → ∃ e, discover w rules globs = .error e) := by
  constructor
  · intro hvalid
    obtain ⟨s, hs, h⟩ := exists_discover hvalid rules
    have hkept := h.seen.filter fun p => !isSkipped rules p
    rw [← h.files] at hkept
    refine ⟨s.toDiscovery, hs, hkept.nodup, hkept.ordered, ?_, h.scanned, ?_, h.discovered, ?_⟩
    · simpa only [Bool.not_eq_true'] using hkept.mem_iff
    · rw [h.skipped, (h.seen.filter (isSkipped rules)).length_eq_card]
    · intro globs' hsame
      obtain ⟨t, ht, h'⟩ := exists_discover (fun g hg => hvalid g ((hsame g).1 hg)) rules
      have hperm : t.seen.Perm s.seen := by
        refine h.seen.perm h'.seen fun p => ?_
        simp only [List.mem_flatMap, hsame]
      have hfiles : t.files.Perm s.files := by
        rw [h.files, h'.files]
        exact hperm.filter _
      have hscanned : t.scanned = s.scanned := by
        rw [h.scanned, h'.scanned, hfiles.length_eq]
      have hskipped : t.skipped = s.skipped := by
        rw [h.skipped, h'.skipped, (hperm.filter _).length_eq]
      refine ⟨t.toDiscovery, ht, fun p => hfiles.mem_iff, ?_, hscanned, hskipped⟩
      rw [h.discovered, h'.discovered, hscanned, hskipped]
  · rintro ⟨g, hmem, hg⟩
    obtain ⟨e, he⟩ := Search.exists_error_of_mem hmem hg rules {}
    exact ⟨e, by rw [discover, he]; rfl⟩

/-- A file below another one, a vendored file, and a directory with the name of a file. -/
def crowdedWorkspace : Workspace :=
  ((((Workspace.empty [Byte.slash]).addFile (Bytes.ofString "a.js") []).addFile
    (Bytes.ofString "src/b.js") []).addFile (Bytes.ofString "src/node_modules/x.js") []).addDirectory
    (Bytes.ofString "src/c.js")

/-- Two globs that both match a file. -/
def overlappingGlobs : List Bytes := [Bytes.ofString "src/*.js", Bytes.ofString "**/*.js"]

/-- The file that both globs match is discovered once, for whichever glob comes first. -/
theorem overlappingGlobs_filtered :
    (∀ g ∈ overlappingGlobs, Glob.IsValid crowdedWorkspace g) ∧
    (∃ d, discover crowdedWorkspace [] overlappingGlobs = .ok d ∧
      d.files = [Bytes.ofString "src/b.js", Bytes.ofString "a.js"] ∧
      d.scanned = d.files.length ∧ d.skipped = 1 ∧ d.discovered = d.scanned + d.skipped ∧
      ∃ d', discover crowdedWorkspace [] (overlappingGlobs.reverse ++ overlappingGlobs) = .ok d' ∧
        (∀ p, p ∈ d'.files ↔ p ∈ d.files) ∧
        d'.discovered = d.discovered ∧ d'.scanned = d.scanned ∧ d'.skipped = d.skipped) ∧
    ¬ Glob.IsValid crowdedWorkspace (Bytes.ofString "[") ∧
    ∃ e, discover crowdedWorkspace [] (Bytes.ofString "[" :: overlappingGlobs) = .error e := by
  have hvalid : ∀ g ∈ overlappingGlobs, Glob.IsValid crowdedWorkspace g := by decide +kernel
  have hmalformed : ¬ Glob.IsValid crowdedWorkspace (Bytes.ofString "[") := by decide +kernel
  have hresult : (discover crowdedWorkspace [] overlappingGlobs).toOption.map
      (fun d => (d.files, d.skipped)) =
      some ([Bytes.ofString "src/b.js", Bytes.ofString "a.js"], 1) := by decide +kernel
  obtain ⟨d, hd, -, -, -, hscanned, -, hdiscovered, hsame⟩ :=
    (discover_filters_matches crowdedWorkspace [] overlappingGlobs).1 hvalid
  rw [hd] at hresult
  obtain ⟨hfiles, hskipped⟩ := Prod.mk.inj (Option.some.inj hresult)
  refine ⟨hvalid, ⟨d, hd, hfiles, hscanned, hskipped, hdiscovered, hsame _ ?_⟩, hmalformed, ?_⟩
  · simp
  · exact (discover_filters_matches crowdedWorkspace [] _).2
      ⟨_, List.mem_cons_self, hmalformed⟩

end TemplateLint
