import Mathlib
import TemplateLint.Files.Tree
import TemplateLint.Proofs.Path

/-!
# Files and the absolute forms of their paths

A path is followed name by name, and its absolute form is found by its text alone. Where following
the path leads somewhere, following the cleaned names leads to the same place, since a tree has one
way up from every directory. A link breaks this: what a double dot behind it leads up from is not
what the text says. So paths with one absolute form have one file, as long as none of them goes up
behind a link.
-/
namespace TemplateLint

/-! ## Names -/

namespace Path

/-- A name that can be the one of an entry. -/
structure IsEntryName (name : Bytes) : Prop where
  ne_nil : name ≠ []
  ne_dot : name ≠ [Byte.dot]
  ne_up : name ≠ up

/-- Names without some of those that lead nowhere else. -/
inductive Thins : List Bytes → List Bytes → Prop
  | nil : Thins [] []
  | keep {rest kept : List Bytes} (name : Bytes) (h : Thins rest kept) :
      Thins (name :: rest) (name :: kept)
  | drop {rest kept : List Bytes} {name : Bytes} (idle : name = [] ∨ name = [Byte.dot])
      (h : Thins rest kept) : Thins (name :: rest) kept

theorem Thins.append_left {rest kept : List Bytes} (h : Thins rest kept) (names : List Bytes) :
    Thins (names ++ rest) (names ++ kept) := by
  induction names with
  | nil => exact h
  | cons name names ih => exact ih.keep name

/-- Where nothing goes up, cleaning only drops names. -/
theorem exists_reduce_eq {rest : List Bytes} (h : up ∉ rest) (rooted : Bool)
    (reversed : List Bytes) :
    ∃ kept, reduce rooted reversed rest = reversed.reverse ++ kept ∧ Thins rest kept := by
  induction rest generalizing reversed with
  | nil => exact ⟨[], by simp [reduce], .nil⟩
  | cons name rest ih =>
    rw [List.mem_cons, not_or] at h
    by_cases hidle : name = [] ∨ name = [Byte.dot]
    · obtain ⟨kept, hkept, hthins⟩ := ih h.2 reversed
      exact ⟨kept, by rw [reduce_skip hidle, hkept], hthins.drop hidle⟩
    · rw [not_or] at hidle
      obtain ⟨kept, hkept, hthins⟩ := ih h.2 (name :: reversed)
      refine ⟨name :: kept, ?_, hthins.keep name⟩
      rw [reduce_name hidle.1 hidle.2 (Ne.symm h.1), hkept, List.reverse_cons, List.append_assoc,
        List.singleton_append]

end Path

/-- Whether a way stops at a link with a double dot behind it. -/
def Way.goesUp : Way → Bool
  | link _ _ rest => rest.contains Path.up
  | _ => false

/-- Two ways that lead to the same place, or to the same link with the same to follow behind it. A
way that leads nowhere may be like any other. -/
def Way.LeadsLike : Way → Way → Prop
  | arrived l, way => way = .arrived l
  | link directory target rest, way =>
    ∃ kept, way = .link directory target kept ∧ Path.Thins rest kept
  | _, _ => True

namespace Location
variable {root : Node} {l q : Location} {name : Bytes} {names rest : List Bytes}

/-! ## One name -/

/-- The name of an entry leads to the entry, or to a link. -/
theorem walk_entry (entry : Path.IsEntryName name) {node : Node}
    (found : l.node.child? name = some node) (rest : List Bytes) :
    l.walk (name :: rest) =
      match node with
      | .link target => .link l target rest
      | node => (l.down name node).walk rest := by
  obtain ⟨here, above⟩ := l
  cases here with
  | directory entries =>
    have hlookup : entries.lookup name = some node := found
    conv_lhs => unfold walk
    refine (if_neg (by simpa using ⟨entry.ne_nil, entry.ne_dot⟩)).trans
      ((if_neg entry.ne_up).trans ?_)
    rw [hlookup]
    cases node <;> rfl
  | file content => cases found
  | link target => cases found

/-- What a name does to a walk. -/
inductive Step (l : Location) (name : Bytes) : (List Bytes → Way) → Prop
  | blocked : Step l name fun _ => .blocked
  | missing : Step l name (.missing l name)
  | idle (h : name = [] ∨ name = [Byte.dot]) : Step l name l.walk
  | up (h : name = Path.up) : Step l name l.up.walk
  | link {target : Bytes} (entry : Path.IsEntryName name)
      (found : l.node.child? name = some (.link target)) : Step l name (.link l target)
  | child {node : Node} (entry : Path.IsEntryName name) (found : l.node.child? name = some node)
      (notLink : ∀ target, node ≠ .link target) : Step l name (l.down name node).walk

theorem exists_step (l : Location) (name : Bytes) :
    ∃ go, Step l name go ∧ ∀ rest, l.walk (name :: rest) = go rest := by
  by_cases hdir : l.node.isDirectory = true
  swap
  · refine ⟨_, .blocked, fun rest => ?_⟩
    obtain ⟨node, above⟩ := l
    cases node with
    | directory entries => exact absurd rfl hdir
    | file content => rfl
    | link target => rfl
  obtain ⟨entries, hnode⟩ : ∃ entries, l.node = .directory entries := by
    cases hnode : l.node with
    | directory entries => exact ⟨entries, rfl⟩
    | file content => rw [hnode] at hdir; cases hdir
    | link target => rw [hnode] at hdir; cases hdir
  by_cases hidle : name = [] ∨ name = [Byte.dot]
  · refine ⟨_, .idle hidle, fun rest => ?_⟩
    conv_lhs => unfold walk
    rw [hnode]
    exact if_pos (by simpa using hidle)
  rw [not_or] at hidle
  by_cases hup : name = Path.up
  · refine ⟨_, .up hup, fun rest => ?_⟩
    conv_lhs => unfold walk
    rw [hnode]
    exact (if_neg (by simpa using hidle)).trans (if_pos hup)
  have hentry : Path.IsEntryName name := ⟨hidle.1, hidle.2, hup⟩
  cases hfound : l.node.child? name with
  | none =>
    refine ⟨_, .missing, fun rest => ?_⟩
    rw [hnode] at hfound
    have hlookup : entries.lookup name = none := hfound
    conv_lhs => unfold walk
    rw [hnode]
    refine (if_neg (by simpa using hidle)).trans ((if_neg hup).trans ?_)
    rw [hlookup]
  | some node =>
    cases hlink : node with
    | link target =>
      subst hlink
      exact ⟨_, .link hentry hfound, walk_entry hentry hfound⟩
    | file content =>
      subst hlink
      exact ⟨_, .child hentry hfound (by simp), walk_entry hentry hfound⟩
    | directory below =>
      subst hlink
      exact ⟨_, .child hentry hfound (by simp), walk_entry hentry hfound⟩

/-! ## Walks -/

/-- Names that lead nowhere else may be left out. -/
theorem leadsLike_of_thins {kept : List Bytes} (h : Path.Thins names kept) (l : Location) :
    (l.walk names).LeadsLike (l.walk kept) := by
  induction h generalizing l with
  | nil => exact rfl
  | @keep rest kept name hrest ih =>
    obtain ⟨go, hstep, hwalk⟩ := l.exists_step name
    rw [hwalk, hwalk]
    cases hstep with
    | blocked => trivial
    | idle _ => exact ih l
    | up _ => exact ih l.up
    | missing => trivial
    | link _ _ => exact ⟨kept, rfl, hrest⟩
    | child _ _ _ => exact ih _
  | @drop rest kept name hidle hrest ih =>
    obtain ⟨go, hstep, hwalk⟩ := l.exists_step name
    rw [hwalk]
    cases hstep with
    | blocked => trivial
    | idle _ => exact ih l
    | up h => exact absurd (h ▸ hidle) (by decide)
    | missing => trivial
    | link entry _ => exact absurd hidle (not_or.2 ⟨entry.ne_nil, entry.ne_dot⟩)
    | child entry _ _ => exact absurd hidle (not_or.2 ⟨entry.ne_nil, entry.ne_dot⟩)

/-- The locations of a tree that names of entries lead to. -/
inductive IsIn (root : Node) : Location → Prop
  | root : IsIn root ⟨root, []⟩
  | child {l : Location} {name : Bytes} {node : Node} (parent : IsIn root l)
      (entry : Path.IsEntryName name) (found : l.node.child? name = some node)
      (notLink : ∀ target, node ≠ .link target) : IsIn root (l.down name node)

namespace IsIn

theorem ne_up_of_mem (h : IsIn root l) : ∀ n ∈ l.above.map Prod.fst, n ≠ Path.up := by
  induction h with
  | root => simp
  | child _ entry _ _ ih => exact List.forall_mem_cons.2 ⟨entry.ne_up, ih⟩

theorem up (h : IsIn root l) : IsIn root l.up := by
  cases h with
  | root => exact .root
  | child parent _ _ _ => exact parent

/-- The names of a location can be followed to it. -/
theorem walk_append (h : IsIn root l) (rest : List Bytes) :
    walk ⟨root, []⟩ ((l.above.map Prod.fst).reverse ++ rest) = l.walk rest := by
  induction h generalizing rest with
  | root => rfl
  | @child l name node _ entry found notLink ih =>
    have hwalk : l.walk (name :: rest) = (l.down name node).walk rest := by
      rw [walk_entry entry found]
      cases node with
      | link target => exact absurd rfl (notLink target)
      | file content => rfl
      | directory entries => rfl
    rw [down, List.map_cons, List.reverse_cons, List.append_assoc, List.singleton_append, ih, hwalk,
      down]

/-- **Cleaned names are followed like the names themselves**, unless these go up behind a link. -/
theorem leadsLike_reduce (h : IsIn root l) (hplain : (l.walk rest).goesUp = false) :
    (l.walk rest).LeadsLike
      (walk ⟨root, []⟩ (Path.reduce true (l.above.map Prod.fst) rest)) := by
  induction rest generalizing l with
  | nil =>
    have hnames := h.walk_append []
    rw [List.append_nil] at hnames
    rw [Path.reduce, hnames]
    exact rfl
  | cons name rest ih =>
    obtain ⟨go, hstep, hwalk⟩ := l.exists_step name
    rw [hwalk] at hplain ⊢
    cases hstep with
    | blocked => trivial
    | missing => trivial
    | idle hidle =>
      rw [Path.reduce_skip hidle]
      exact ih h hplain
    | up hup =>
      -- the directory above is the one that the names without the last lead to
      have htail : (l.above.map Prod.fst).tail = l.up.above.map Prod.fst := by
        obtain ⟨node, above⟩ := l
        cases above <;> rfl
      rw [hup, Path.reduce_up h.ne_up_of_mem, htail]
      exact ih h.up hplain
    | @link target entry found =>
      -- nothing behind the link goes up, so it is met again with the same names behind it
      have hrest : Path.up ∉ rest := by simpa [Way.goesUp] using hplain
      obtain ⟨kept, hkept, hthins⟩ :=
        Path.exists_reduce_eq hrest true (name :: l.above.map Prod.fst)
      refine ⟨kept, ?_, hthins⟩
      rw [Path.reduce_name entry.ne_nil entry.ne_dot entry.ne_up, hkept, List.reverse_cons,
        List.append_assoc, List.singleton_append, h.walk_append, walk_entry entry found]
    | @child node entry found notLink =>
      rw [Path.reduce_name entry.ne_nil entry.ne_dot entry.ne_up]
      exact ih (.child h entry found notLink) hplain

end IsIn

/-- Ways that lead alike lead to the same place when their links are followed. -/
theorem follow_of_leadsLike {l' : Location} {names' : List Bytes} {links left : Nat}
    (h : (l.walk names).LeadsLike (l'.walk names'))
    (hf : follow root links l names = (left, .arrived q)) :
    follow root links l' names' = (left, .arrived q) := by
  induction links generalizing l l' names names' with
  | zero =>
    rw [follow, Prod.mk.injEq] at hf
    rw [hf.2] at h
    rw [follow, h, hf.1]
  | succ links ih =>
    rw [follow] at hf ⊢
    cases hwalk : l.walk names with
    | arrived here =>
      rw [hwalk] at h hf
      rw [h]
      exact hf
    | link directory target rest =>
      rw [hwalk] at h hf
      obtain ⟨kept, hkept, hthins⟩ := h
      rw [hkept]
      exact ih (leadsLike_of_thins (hthins.append_left _) _) hf
    | missing directory name rest =>
      rw [hwalk] at hf
      cases hf
    | blocked =>
      rw [hwalk] at hf
      cases hf

end Location

namespace Workspace
variable {w : Workspace}

/-- A path that does not go up behind a link. -/
def IsPlain (w : Workspace) (path : Bytes) : Prop :=
  (Location.walk ⟨w.root, []⟩ (w.rootedNames path)).goesUp = false

/-- The names of the absolute form of a path are the cleaned names from the root. -/
theorem reduce_names_absolute (hdir : Path.isAbsolute w.directory = true) (path : Bytes) :
    Path.reduce true [] (Path.names (Path.absolute w.directory path)) =
      Path.reduce true [] (w.rootedNames path) := by
  have hclean : ∀ {p : Bytes}, Path.isAbsolute p = true →
      Path.reduce true [] (Path.names (Path.clean p)) = Path.reduce true [] (Path.names p) := by
    intro p hp
    rw [Path.clean_of_isAbsolute hp]
    refine Path.names_join (Path.isProper_of_mem_reduce (by simp) ?_)
    exact fun n hn => Path.slash_not_mem_of_mem_names hn
  rw [Path.absolute, rootedNames]
  split
  · next hp => exact hclean hp
  · rw [List.append_assoc, hclean (Path.isAbsolute_append hdir _), List.singleton_append,
      Path.names, List.splitOn_append_cons_self, Path.names, Path.names]

/-- A file that can be read has a path. -/
theorem ne_nil_of_read {path content : Bytes} (h : w.read path = .ok content) : path ≠ [] := by
  rintro rfl
  cases h

/-- A file that can be read is what its path leads to. -/
theorem exists_follow_of_read {path content : Bytes} (h : w.read path = .ok content) :
    ∃ left l, w.follow path = (left, .arrived l) ∧ l.node = .file content := by
  have hpath : path.isEmpty = false := by simpa using ne_nil_of_read h
  rw [read, find, hpath] at h
  cases hfollow : w.follow path with
  | mk left way =>
    rw [hfollow] at h
    cases way with
    | arrived l =>
      refine ⟨left, l, rfl, ?_⟩
      cases hnode : l.node with
      | file other => simpa [Way.location, Except.map, hnode] using h
      | directory entries => simp [Way.location, Except.map, hnode] at h
      | link target => simp [Way.location, Except.map, hnode] at h
    | link directory target rest => cases h
    | missing directory name rest => cases h
    | blocked => cases h

/-- Paths with one absolute form that do not go up behind a link have one file. -/
theorem eq_of_absolute_eq (hdir : Path.isAbsolute w.directory = true) {p q a b : Bytes}
    (h : Path.absolute w.directory p = Path.absolute w.directory q) (hplainp : w.IsPlain p)
    (hplainq : w.IsPlain q) (hp : w.read p = .ok a) (hq : w.read q = .ok b) : a = b := by
  -- both are found under the cleaned names, which are the same
  have hcleaned : ∀ {path content : Bytes}, w.IsPlain path → w.read path = .ok content →
      ∃ left l, Location.follow w.root maxLinks ⟨w.root, []⟩
        (Path.reduce true [] (Path.names (Path.absolute w.directory path))) =
          (left, .arrived l) ∧ l.node = .file content := by
    intro path content hplain hread
    obtain ⟨left, l, hfollow, hnode⟩ := exists_follow_of_read hread
    refine ⟨left, l, ?_, hnode⟩
    rw [reduce_names_absolute hdir]
    exact Location.follow_of_leadsLike (Location.IsIn.root.leadsLike_reduce hplain) hfollow
  obtain ⟨left, l, hfollow, hnode⟩ := hcleaned hplainp hp
  obtain ⟨left', l', hfollow', hnode'⟩ := hcleaned hplainq hq
  rw [h, hfollow'] at hfollow
  cases hfollow
  rw [hnode] at hnode'
  cases hnode'
  rfl

/-- Paths of which those with one absolute form are read alike. -/
def ReadsAlike (w : Workspace) (paths : List Bytes) : Prop :=
  ∀ p ∈ paths, ∀ q ∈ paths, Path.absolute w.directory p = Path.absolute w.directory q →
    ∀ a b, w.read p = .ok a → w.read q = .ok b → a = b

/-- **Paths that do not go up behind a link are read alike.** -/
theorem readsAlike_of_isPlain (hdir : Path.isAbsolute w.directory = true) {paths : List Bytes}
    (h : ∀ path ∈ paths, w.IsPlain path) : w.ReadsAlike paths :=
  fun p hp q hq heq _ _ => eq_of_absolute_eq hdir heq (h p hp) (h q hq)

end Workspace
end TemplateLint
