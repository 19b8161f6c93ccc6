import Mathlib
import TemplateLint.Command.Flag
import TemplateLint.Proofs.Settings.Tree

/-!
# The values of flags

Whatever a command line looks like, what is read of it are values of known flags, each flag once and
with a value of its own kind.
-/
namespace TemplateLint.Command
open Settings

/-! ## Stages -/

/-- What comes after a stage sees the result of that stage. -/
theorem exists_of_bind {ε α β : Type} {x : Except ε α} {k : α → Except ε β} {b : β}
    (h : (x >>= k) = .ok b) : ∃ a, x = .ok a ∧ k a = .ok b := by
  cases x with
  | error e => cases h
  | ok a => exact ⟨a, rfl, h⟩

/-- What comes after a stage with its own causes of failure sees the result of that stage. -/
theorem exists_of_mapError_bind {ε δ α β : Type} {x : Except ε α} {cause : ε → δ}
    {k : α → Except δ β} {b : β} (h : (x.mapError cause >>= k) = .ok b) :
    ∃ a, x = .ok a ∧ k a = .ok b := by
  cases x with
  | error e => cases h
  | ok a => exact ⟨a, rfl, h⟩

/-! ## Typed values -/

/-- A value that a kind of flag takes. -/
def FlagKind.Takes (v : Value) : FlagKind → Prop
  | toggle => ∃ b, v = .flag b
  | integer => ∃ n, v = .integer n
  | text => ∃ s, v = .text s
  | texts => ∃ items : List Bytes, v = .list (items.map .text)

/-- A flag never takes a map. -/
theorem FlagKind.Takes.ne_map {kind : FlagKind} {v : Value} (h : kind.Takes v)
    (entries : Tree) : v ≠ .map entries := by
  cases kind <;> obtain ⟨_, rfl⟩ := h <;> intro he <;> cases he

/-- Values of flags, each flag once and with a value of its kind. -/
structure Given.IsTyped (flags : List Flag) (g : Given) : Prop where
  nodup : g.values.keys.Nodup
  kinds : ∀ key v, g.values.lookup key = some v →
    ∃ flag ∈ flags, key = Bytes.ofString flag.name ∧ flag.kind.Takes v

/-- A command line of which only known flags were read. -/
def Reading.IsTyped (flags : List Flag) : Reading → Prop
  | between g => g.IsTyped flags
  | behind flag g => flag ∈ flags ∧ g.IsTyped flags
  | finished g => g.IsTyped flags

section
variable {flags : List Flag} {flag : Flag} {g g' : Given}

theorem Given.isTyped_empty (flags : List Flag) : Given.IsTyped flags {} where
  nodup := List.nodup_nil
  kinds := by simp

/-- The texts that a flag holds so far are texts. -/
theorem Given.IsTyped.textsOf (h : g.IsTyped flags) (flag : Flag) :
    ∃ items : List Bytes, g.textsOf flag = items.map Value.text := by
  rw [Given.textsOf]
  split
  · next items hlookup =>
    obtain ⟨other, -, -, htakes⟩ := h.kinds _ _ hlookup
    cases hkind : other.kind <;> rw [hkind] at htakes <;> obtain ⟨value, hvalue⟩ := htakes <;>
      cases hvalue
    exact ⟨value, rfl⟩
  · exact ⟨[], rfl⟩

/-- A flag reads a value of its kind. -/
theorem Given.IsTyped.takes_of_read (h : g.IsTyped flags) {value : Bytes} {v : Value}
    (hread : g.read flag value = .ok v) : flag.kind.Takes v := by
  rw [Given.read] at hread
  split at hread
  · next hkind =>
    split at hread <;> cases hread
    rw [hkind]
    exact ⟨_, rfl⟩
  · next hkind =>
    split at hread <;> cases hread
    rw [hkind]
    exact ⟨_, rfl⟩
  · next hkind =>
    cases hread
    rw [hkind]
    exact ⟨_, rfl⟩
  · next hkind =>
    obtain ⟨items, hitems⟩ := h.textsOf flag
    rw [hkind]
    split at hread
    · cases hread
      exact ⟨items, by rw [hitems]⟩
    · split at hread <;> cases hread
      next fields _ => exact ⟨items ++ fields, by rw [hitems, List.map_append]⟩

theorem Given.IsTyped.set (h : g.IsTyped flags) (hflag : flag ∈ flags) {value : Bytes}
    (hset : g.set flag value = .ok g') : g'.IsTyped flags := by
  rw [Given.set] at hset
  split at hset
  · next v hread =>
    cases hset
    refine ⟨Tree.nodup_keys_setEntry h.nodup _ v, fun key w hlookup => ?_⟩
    by_cases hkey : key = Bytes.ofString flag.name
    · subst hkey
      rw [Tree.lookup_setEntry_self, Option.some.injEq] at hlookup
      exact ⟨flag, hflag, rfl, hlookup ▸ h.takes_of_read hread⟩
    · rw [Tree.lookup_setEntry_of_ne hkey] at hlookup
      exact h.kinds key w hlookup
  · cases hset

theorem Flag.mem_of_named? {name : Bytes} (h : Flag.named? flags name = some flag) :
    flag ∈ flags :=
  List.mem_of_find?_eq_some h

theorem Flag.mem_of_lettered? {letter : UInt8} (h : Flag.lettered? flags letter = some flag) :
    flag ∈ flags :=
  List.mem_of_find?_eq_some h

theorem Given.IsTyped.readLetters (h : g.IsTyped flags) {letters : Bytes}
    (hread : Command.readLetters flags letters g = .ok g') : g'.IsTyped flags := by
  induction letters generalizing g with
  | nil =>
    cases hread
    exact h
  | cons b rest ih =>
    rw [Command.readLetters] at hread
    split at hread
    · cases hread
    · next flag hflag =>
      have hmem := Flag.mem_of_lettered? hflag
      split at hread
      · exact h.set hmem hread
      · obtain ⟨g₁, hset, hrest⟩ := exists_of_bind hread
        exact ih (h.set hmem hset) hrest

theorem Given.IsTyped.addArgument (h : g.IsTyped flags) (argument : Bytes) :
    (g.addArgument argument).IsTyped flags :=
  ⟨h.nodup, h.kinds⟩

/-- What stands behind two hyphens names a known flag. -/
theorem Given.IsTyped.readNamed (h : g.IsTyped flags) {written : Bytes} {r : Reading}
    (hread : Command.readNamed flags written g = .ok r) : r.IsTyped flags := by
  rw [Command.readNamed] at hread
  split at hread
  · cases hread
    exact h
  split at hread
  · cases hread
  dsimp only at hread
  split at hread
  · cases hread
  · next flag value hflag _ =>
    obtain ⟨g₁, hset, hrest⟩ := exists_of_bind hread
    cases hrest
    exact h.set (Flag.mem_of_named? hflag) hset
  · next flag hflag _ =>
    have hmem := Flag.mem_of_named? hflag
    split at hread
    · obtain ⟨g₁, hset, hrest⟩ := exists_of_bind hread
      cases hrest
      exact h.set hmem hset
    · cases hread
      exact ⟨hmem, h⟩

/-- Reading one more argument keeps the flags typed. -/
theorem Reading.IsTyped.readArgument {r r' : Reading} (h : r.IsTyped flags) {argument : Bytes}
    (hread : Command.readArgument flags argument r = .ok r') : r'.IsTyped flags := by
  cases r with
  | finished g =>
    cases hread
    exact h.addArgument argument
  | behind flag g =>
    obtain ⟨g₁, hset, hrest⟩ := exists_of_bind hread
    cases hrest
    exact h.2.set h.1 hset
  | between g =>
    unfold Command.readArgument at hread
    dsimp only at hread
    split at hread
    · exact Given.IsTyped.readNamed h hread
    · split at hread
      · cases hread
        exact h
      · obtain ⟨g₁, hletters, hrest⟩ := exists_of_bind hread
        cases hrest
        exact Given.IsTyped.readLetters h hletters
    · cases hread
      exact Given.IsTyped.addArgument h argument

/-- **Only values of known flags are read, each flag once and with a value of its kind.** -/
theorem isTyped_of_readFlags {arguments : List Bytes}
    (hread : readFlags flags arguments = .ok g) : g.IsTyped flags := by
  have hfold : ∀ (arguments : List Bytes) (r r' : Reading), r.IsTyped flags →
      arguments.foldlM (fun r a => readArgument flags a r) r = .ok r' → r'.IsTyped flags := by
    intro arguments
    induction arguments with
    | nil =>
      rintro r r' h hfold
      cases hfold
      exact h
    | cons argument rest ih =>
      intro r r' h hfold
      rw [List.foldlM_cons] at hfold
      obtain ⟨r₁, hargument, hrest⟩ := exists_of_bind hfold
      exact ih r₁ r' (h.readArgument hargument) hrest
  obtain ⟨r, hr, hend⟩ := exists_of_bind hread
  have htyped := hfold arguments (.between {}) r (Given.isTyped_empty flags) hr
  cases r with
  | between g => cases hend; exact htyped
  | finished g => cases hend; exact htyped
  | behind flag g => cases hend

end
end TemplateLint.Command
