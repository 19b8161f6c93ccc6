import Mathlib
import TemplateLint.Proofs.Path
import TemplateLint.Proofs.Text.Bytes
import TemplateLint.Settings.Tree

/-!
# Values at paths

A tree that is built by setting values at paths holds each of them at its path, as long as no path
runs through the end of another. Laid over a second tree, such a tree decides the paths that it has
values for and leaves all others to the tree below it.
-/
namespace TemplateLint.Settings
open Value

/-! ## Entries -/

namespace Tree

/-- The keys of a tree at its top. -/
def keys (t : Tree) : List Bytes := t.map Prod.fst

@[simp] theorem keys_nil : keys [] = [] := rfl

@[simp] theorem keys_cons (k : Bytes) (v : Value) (t : Tree) : keys ((k, v) :: t) = k :: t.keys :=
  rfl

theorem lookup_cons_of_ne {k key : Bytes} (h : k ≠ key) (v : Value) (t : Tree) :
    List.lookup k ((key, v) :: t) = t.lookup k := by
  rw [List.lookup_cons, beq_eq_false_iff_ne.2 h]

theorem lookup_setEntry_self (key : Bytes) (v : Value) (t : Tree) :
    (setEntry key v t).lookup key = some v := by
  induction t with
  | nil => exact List.lookup_cons_self
  | cons e rest ih =>
    obtain ⟨k, w⟩ := e
    rw [setEntry]
    split
    · exact List.lookup_cons_self
    · next hk => rw [lookup_cons_of_ne (Ne.symm hk), ih]

theorem lookup_setEntry_of_ne {k key : Bytes} (h : k ≠ key) (v : Value) (t : Tree) :
    (setEntry key v t).lookup k = t.lookup k := by
  induction t with
  | nil => exact lookup_cons_of_ne h v []
  | cons e rest ih =>
    obtain ⟨l, w⟩ := e
    rw [setEntry]
    split
    · next hl =>
      cases hl
      rw [lookup_cons_of_ne h, lookup_cons_of_ne h]
    · rw [List.lookup_cons, List.lookup_cons, ih]

theorem lookup_eq_none_iff {k : Bytes} {t : Tree} : t.lookup k = none ↔ k ∉ t.keys := by
  rw [List.lookup_eq_none_iff, keys, List.mem_map]
  constructor
  · rintro h ⟨e, he, rfl⟩
    exact (bne_iff_ne.1 (h e he)) rfl
  · exact fun h e he => bne_iff_ne.2 fun hk => h ⟨e, he, hk.symm⟩

theorem lookup_of_mem {t : Tree} (h : t.keys.Nodup) {k : Bytes} {v : Value} (hv : (k, v) ∈ t) :
    t.lookup k = some v := by
  induction t with
  | nil => cases hv
  | cons e rest ih =>
    obtain ⟨key, w⟩ := e
    rw [keys_cons, List.nodup_cons] at h
    rcases List.mem_cons.1 hv with heq | hv
    · cases heq
      exact List.lookup_cons_self
    · have hne : k ≠ key := fun he => h.1 (he ▸ List.mem_map_of_mem hv)
      rw [lookup_cons_of_ne hne, ih h.2 hv]

theorem keys_setEntry (key : Bytes) (v : Value) (t : Tree) :
    keys (setEntry key v t) = if key ∈ keys t then keys t else keys t ++ [key] := by
  induction t with
  | nil => rfl
  | cons e rest ih =>
    obtain ⟨k, w⟩ := e
    rw [setEntry]
    by_cases hk : k = key
    · simp [hk]
    · rw [if_neg hk, keys_cons, keys_cons, ih]
      by_cases hkey : key ∈ keys rest <;> simp [hkey, Ne.symm hk]

theorem nodup_keys_setEntry {t : Tree} (h : t.keys.Nodup) (key : Bytes) (v : Value) :
    (keys (setEntry key v t)).Nodup := by
  rw [keys_setEntry]
  split
  · exact h
  · next hkey =>
    rw [← List.concat_eq_append, List.nodup_concat]
    exact ⟨hkey, h⟩

/-- In a tree laid over another every entry counts, on top of what was below it. -/
theorem lookup_overlay {upper : Tree} (h : upper.keys.Nodup) (lower : Tree) (k : Bytes) :
    (overlay upper lower).lookup k =
      ((upper.lookup k).map fun v => overlayValue v (lower.lookup k)).or (lower.lookup k) := by
  induction upper generalizing lower with
  | nil => simp [overlay]
  | cons e rest ih =>
    obtain ⟨key, v⟩ := e
    rw [keys_cons, List.nodup_cons] at h
    rw [overlay, ih h.2]
    by_cases hk : k = key
    · subst hk
      rw [lookup_eq_none_iff.2 h.1, lookup_setEntry_self, List.lookup_cons_self]
      rfl
    · rw [lookup_setEntry_of_ne hk, lookup_cons_of_ne hk]

/-- A value that is no map hides the one below it. -/
theorem overlayValue_of_ne {v : Value} (h : ∀ entries, v ≠ .map entries) (lower : Option Value) :
    overlayValue v lower = v := by
  cases v with
  | map entries => exact absurd rfl (h entries)
  | null | flag | integer | number | text | moment | list => rw [overlayValue]; simp

/-- A map keeps its values that are no maps when it is laid over something. -/
theorem exists_overlayValue_eq {entries : Tree} (h : entries.keys.Nodup) {k : Bytes} {v : Value}
    (hv : entries.lookup k = some v) (hne : ∀ entries, v ≠ .map entries) (lower : Option Value) :
    ∃ joined, overlayValue (.map entries) lower = .map joined ∧ joined.lookup k = some v := by
  cases lower with
  | none => exact ⟨entries, by rw [overlayValue]; simp, hv⟩
  | some w =>
    cases w with
    | map below =>
      refine ⟨overlay entries below, by rw [overlayValue], ?_⟩
      rw [lookup_overlay h, hv, Option.map_some, overlayValue_of_ne hne, Option.some_or]
    | null | flag | integer | number | text | moment | list =>
      exact ⟨entries, by rw [overlayValue]; simp, hv⟩

/-! ## Looking up paths -/

theorem behindKey_self (key : Bytes) : behindKey key key = some none := by
  have h : Bytes.after? key key = some [] := Bytes.after?_eq_some_iff.2 (by simp)
  rw [behindKey, h]

theorem behindKey_append (key below : Bytes) :
    behindKey key (key ++ Byte.dot :: below) = some (some below) := by
  have h : Bytes.after? key (key ++ Byte.dot :: below) = some (Byte.dot :: below) :=
    Bytes.after?_eq_some_iff.2 rfl
  rw [behindKey, h]
  rfl

/-- A key that is neither a path nor the way to it. -/
theorem behindKey_eq_none {key path : Bytes} (h : key ≠ path)
    (hbelow : ∀ below, path ≠ key ++ Byte.dot :: below) : behindKey key path = none := by
  rw [behindKey]
  split
  · next hafter => exact absurd (by simpa using (Bytes.after?_eq_some_iff.1 hafter).symm) h
  · next b rest hafter =>
    split
    · next hb => exact absurd (hb ▸ Bytes.after?_eq_some_iff.1 hafter) (hbelow rest)
    · rfl
  · rfl

/-- Only the key itself leads to a path without dots. -/
theorem find_of_not_mem {path : Bytes} (h : Byte.dot ∉ path) (t : Tree) :
    t.find path = t.lookup path := by
  induction t with
  | nil => rfl
  | cons e rest ih =>
    obtain ⟨key, v⟩ := e
    rw [find]
    by_cases hk : key = path
    · subst hk
      rw [behindKey_self, List.lookup_cons_self]
    · rw [behindKey_eq_none hk (fun below he => h (by simp [he])), lookup_cons_of_ne (Ne.symm hk), ih]

theorem find_setEntry_of_none {key path : Bytes} (h : behindKey key path = none) (v : Value)
    (t : Tree) : (find (setEntry key v t) path) = t.find path := by
  induction t with
  | nil => simp only [setEntry, find, h]
  | cons e rest ih =>
    obtain ⟨k, w⟩ := e
    rw [setEntry]
    split
    · next hk =>
      cases hk
      rw [find, find, h]
    · rw [find, find, ih]

/-- A tree whose keys do not lead to a path leaves the path to the tree below. -/
theorem find_overlay_of_none {upper : Tree} {path : Bytes}
    (h : ∀ key ∈ upper.keys, behindKey key path = none) (lower : Tree) :
    (overlay upper lower).find path = lower.find path := by
  induction upper generalizing lower with
  | nil => rw [overlay]
  | cons e rest ih =>
    obtain ⟨key, v⟩ := e
    rw [keys_cons, List.forall_mem_cons] at h
    rw [overlay, ih h.2, find_setEntry_of_none h.1]

/-! ## Paths of two keys -/

section
variable {a b : Bytes}

/-- A path of two keys has a single way. -/
theorem behindKey_pair_of_ne (ha : Byte.dot ∉ a) (hb : Byte.dot ∉ b) {key : Bytes} (hk : key ≠ a)
    (hp : key ≠ a ++ Byte.dot :: b) : behindKey key (a ++ Byte.dot :: b) = none := by
  refine behindKey_eq_none hp fun below he => hk ?_
  exact ((List.append_cons_inj_of_notMem ha hb).1 he).1.symm

theorem findBelow_map (hb : Byte.dot ∉ b) (entries : Tree) :
    findBelow b (.map entries) = entries.lookup b := by
  rw [findBelow, find_of_not_mem hb]

/-- The value at two keys, when no key holds both. -/
theorem find_pair (ha : Byte.dot ∉ a) (hb : Byte.dot ∉ b) {t entries : Tree} {v : Value}
    (hpath : t.lookup (a ++ Byte.dot :: b) = none) (hmap : t.lookup a = some (.map entries))
    (hv : entries.lookup b = some v) : t.find (a ++ Byte.dot :: b) = some v := by
  induction t with
  | nil => cases hmap
  | cons e rest ih =>
    obtain ⟨key, w⟩ := e
    rw [lookup_eq_none_iff, keys_cons, List.mem_cons, not_or] at hpath
    rw [find]
    by_cases hk : key = a
    · subst hk
      rw [List.lookup_cons_self, Option.some.injEq] at hmap
      rw [behindKey_append, hmap]
      simp only [findBelow_map hb, hv, Option.some_or]
    · rw [lookup_cons_of_ne (Ne.symm hk)] at hmap
      rw [behindKey_pair_of_ne ha hb hk (Ne.symm hpath.1)]
      exact ih (lookup_eq_none_iff.2 hpath.2) hmap

/-- Setting an entry on the way leaves a path alone when the entry says the same below it. -/
theorem find_setEntry_pair {w : Value} {t : Tree}
    (h : findBelow b w = (t.lookup a).bind (findBelow b)) :
    find (setEntry a w t) (a ++ Byte.dot :: b) = t.find (a ++ Byte.dot :: b) := by
  induction t with
  | nil => simpa [setEntry, find, behindKey_append] using h
  | cons e rest ih =>
    obtain ⟨key, v⟩ := e
    rw [setEntry]
    by_cases hk : key = a
    · subst hk
      rw [List.lookup_cons_self, Option.bind_some] at h
      rw [if_pos rfl, find, find, behindKey_append]
      simp only [h]
    · rw [lookup_cons_of_ne (Ne.symm hk)] at h
      rw [if_neg hk, find, find, ih h]

/-- A map without a key says below it what the value under it says. -/
theorem findBelow_overlayValue (hb : Byte.dot ∉ b) {entries : Tree} (h : b ∉ keys entries)
    (lower : Option Value) :
    findBelow b (overlayValue (.map entries) lower) = lower.bind (findBelow b) := by
  have hempty : findBelow b (.map entries) = none := by
    rw [findBelow_map hb, lookup_eq_none_iff.2 h]
  cases lower with
  | none => exact hempty
  | some w =>
    cases w with
    | map lower =>
      rw [overlayValue, findBelow, find_overlay_of_none _ lower, Option.bind_some, findBelow]
      intro key hkey
      exact behindKey_eq_none (fun he => h (he ▸ hkey)) fun below he => hb (by simp [he])
    | null | flag | integer | number | text | moment | list => exact hempty

/-- A tree with nothing at a path but maps on the way leaves the path to the tree below. -/
theorem find_overlay_pair (ha : Byte.dot ∉ a) (hb : Byte.dot ∉ b) {upper : Tree}
    (hpath : a ++ Byte.dot :: b ∉ upper.keys)
    (hway : ∀ v, (a, v) ∈ upper → ∃ entries, v = .map entries ∧ b ∉ keys entries) (lower : Tree) :
    (overlay upper lower).find (a ++ Byte.dot :: b) = lower.find (a ++ Byte.dot :: b) := by
  induction upper generalizing lower with
  | nil => rw [overlay]
  | cons e rest ih =>
    obtain ⟨key, v⟩ := e
    rw [keys_cons, List.mem_cons, not_or] at hpath
    rw [overlay, ih hpath.2 fun v hv => hway v (List.mem_cons_of_mem _ hv)]
    by_cases hk : key = a
    · subst hk
      obtain ⟨entries, rfl, hentries⟩ := hway v List.mem_cons_self
      exact find_setEntry_pair (findBelow_overlayValue hb hentries _)
    · exact find_setEntry_of_none (behindKey_pair_of_ne ha hb hk (Ne.symm hpath.1)) _ _

end

/-! ## Setting paths -/

/-- The value at the end of a way of keys. -/
def at? : List Bytes → Tree → Option Value
  | [], _ => none
  | [key], t => t.lookup key
  | key :: rest, t =>
    match t.lookup key with
    | some (.map entries) => at? rest entries
    | _ => none

/-- A way of keys with nothing on it, up to its end, but maps. -/
def IsClear : List Bytes → Tree → Prop
  | key :: next :: rest, t =>
    ∀ v, t.lookup key = some v → ∃ entries, v = .map entries ∧ IsClear (next :: rest) entries
  | _, _ => True

/-- The map under a key, empty if there is none. -/
def mapAt (key : Bytes) (t : Tree) : Tree :=
  match t.lookup key with
  | some (.map entries) => entries
  | _ => []

theorem isClear_nil (way : List Bytes) : IsClear way [] := by
  cases way with
  | nil => trivial
  | cons key rest =>
    cases rest with
    | nil => trivial
    | cons next rest =>
      intro v hv
      cases hv

/-- A way is clear when the first key has a map or nothing, and the rest is clear in it. -/
theorem isClear_cons_iff {key next : Bytes} {rest : List Bytes} {t : Tree} :
    IsClear (key :: next :: rest) t ↔
      (∀ v, t.lookup key = some v → ∃ entries, v = .map entries) ∧
        IsClear (next :: rest) (t.mapAt key) := by
  rw [IsClear, mapAt]
  constructor
  · intro h
    refine ⟨fun v hv => (h v hv).imp fun entries => And.left, ?_⟩
    split
    · next entries hlookup =>
      obtain ⟨entries', heq, hclear⟩ := h _ hlookup
      cases heq
      exact hclear
    · exact isClear_nil _
  · rintro ⟨hmap, hrest⟩ v hv
    obtain ⟨entries, rfl⟩ := hmap v hv
    rw [hv] at hrest
    exact ⟨entries, rfl, hrest⟩

/-- Along a clear way a path is set in the map under its first key. -/
theorem put_of_isClear {key next : Bytes} {rest : List Bytes} {t : Tree}
    (h : IsClear (key :: next :: rest) t) (v : Value) :
    put (key :: next :: rest) v t =
      setEntry key (.map (put (next :: rest) v (t.mapAt key))) t := by
  rw [put, mapAt]
  · split
    · next hlookup => rw [hlookup]
    · next entries hlookup => rw [hlookup]
    · next w hne hlookup =>
      obtain ⟨entries, rfl, -⟩ := h w hlookup
      exact absurd rfl (hne entries)
  · simp

theorem at?_cons (key next : Bytes) (rest : List Bytes) (t : Tree) :
    at? (key :: next :: rest) t = at? (next :: rest) (t.mapAt key) := by
  have hnil : at? (next :: rest) [] = none := by cases rest <;> rfl
  rw [at?, mapAt]
  · split
    · rfl
    · exact hnil.symm
  · simp

theorem mapAt_setEntry_self (key : Bytes) (entries t : Tree) :
    mapAt key (setEntry key (.map entries) t) = entries := by
  rw [mapAt, lookup_setEntry_self]

theorem mapAt_setEntry_of_ne {k key : Bytes} (h : k ≠ key) (v : Value) (t : Tree) :
    mapAt k (setEntry key v t) = t.mapAt k := by
  rw [mapAt, lookup_setEntry_of_ne h, mapAt]

/-- A value that is set at the end of a clear way is there. -/
theorem at?_put_self {key : Bytes} {rest : List Bytes} {t : Tree} (h : IsClear (key :: rest) t)
    (v : Value) : at? (key :: rest) (put (key :: rest) v t) = some v := by
  induction rest generalizing key t with
  | nil => exact lookup_setEntry_self key v t
  | cons next rest ih =>
    rw [put_of_isClear h, at?_cons, mapAt_setEntry_self]
    exact ih (isClear_cons_iff.1 h).2

/-- Setting a path changes one entry at the top. -/
theorem exists_put_eq {key : Bytes} {rest : List Bytes} {t : Tree} (h : IsClear (key :: rest) t)
    (v : Value) : ∃ w, put (key :: rest) v t = setEntry key w t := by
  cases rest with
  | nil => exact ⟨v, rfl⟩
  | cons next rest => exact ⟨_, put_of_isClear h v⟩

/-- Ways that neither go on from a clear one nor end on it are left alone. -/
theorem at?_put_of_ne {p q : List Bytes} {t : Tree} (hclear : IsClear p t) (hpq : ¬p <+: q)
    (hqp : ¬q <+: p) (v : Value) : at? q (put p v t) = at? q t := by
  induction p generalizing q t with
  | nil => exact absurd List.nil_prefix hpq
  | cons key rest ih =>
    cases q with
    | nil => rfl
    | cons k tail =>
      by_cases hk : k = key
      · subst hk
        rw [List.cons_prefix_cons, not_and] at hpq hqp
        cases rest with
        | nil => exact absurd List.nil_prefix (hpq rfl)
        | cons next rest =>
          cases tail with
          | nil => exact absurd List.nil_prefix (hqp rfl)
          | cons after tail =>
            rw [at?_cons, at?_cons, put_of_isClear hclear, mapAt_setEntry_self]
            exact ih (isClear_cons_iff.1 hclear).2 (hpq rfl) (hqp rfl)
      · obtain ⟨w, hw⟩ := exists_put_eq hclear v
        rw [hw]
        cases tail with
        | nil => exact lookup_setEntry_of_ne hk w t
        | cons after tail => rw [at?_cons, at?_cons, mapAt_setEntry_of_ne hk]

/-- A clear way stays clear when a value is set that does not end on it. -/
theorem isClear_put {p q : List Bytes} {t : Tree} (hp : IsClear p t) (hq : IsClear q t)
    (h : p <+: q → p = q) (v : Value) : IsClear q (put p v t) := by
  induction p generalizing q t with
  | nil =>
    cases h List.nil_prefix
    trivial
  | cons key rest ih =>
    match q, hq, h with
    | [], _, _ => trivial
    | [k], _, _ => trivial
    | k :: after :: tail, hq, h =>
      rw [isClear_cons_iff] at hq ⊢
      by_cases hk : k = key
      · subst hk
        cases rest with
        | nil => cases h (by simp)
        | cons next rest =>
          rw [put_of_isClear hp, mapAt_setEntry_self, lookup_setEntry_self]
          refine ⟨fun v hv => ⟨_, (Option.some.inj hv).symm⟩, ?_⟩
          refine ih (isClear_cons_iff.1 hp).2 hq.2 fun hleads => ?_
          exact (List.cons.inj (h (List.cons_prefix_cons.2 ⟨rfl, hleads⟩))).2
      · obtain ⟨w, hw⟩ := exists_put_eq hp v
        rw [hw, mapAt_setEntry_of_ne hk, lookup_setEntry_of_ne hk]
        exact hq

/-! ## Tidy trees -/

/-- A tree whose keys hold no dots and are there once, and so are those of the maps along a way. -/
def IsTidy : List Bytes → Tree → Prop
  | [], t => t.keys.Nodup ∧ ∀ key ∈ t.keys, Byte.dot ∉ key
  | key :: rest, t => (t.keys.Nodup ∧ ∀ key ∈ t.keys, Byte.dot ∉ key) ∧ IsTidy rest (t.mapAt key)

theorem isTidy_nil (way : List Bytes) : IsTidy way [] := by
  induction way with
  | nil => exact ⟨List.nodup_nil, by simp⟩
  | cons key rest ih => exact ⟨⟨List.nodup_nil, by simp⟩, ih⟩

theorem IsTidy.keys {way : List Bytes} {t : Tree} (h : IsTidy way t) :
    t.keys.Nodup ∧ ∀ key ∈ t.keys, Byte.dot ∉ key := by
  cases way with
  | nil => exact h
  | cons key rest => exact h.1

/-- An entry that is tidy itself keeps a tree tidy. -/
theorem IsTidy.setEntry {way : List Bytes} {t : Tree} (h : IsTidy way t) {key : Bytes}
    (hkey : Byte.dot ∉ key) {v : Value}
    (hv : ∀ rest entries, way = key :: rest → v = .map entries → IsTidy rest entries) :
    IsTidy way (Value.setEntry key v t) := by
  have hkeys : (Tree.keys (Value.setEntry key v t)).Nodup ∧
      ∀ k ∈ Tree.keys (Value.setEntry key v t), Byte.dot ∉ k := by
    refine ⟨nodup_keys_setEntry h.keys.1 key v, fun k hk => ?_⟩
    rw [keys_setEntry] at hk
    split at hk
    · exact h.keys.2 k hk
    · rcases List.mem_append.1 hk with hk | hk
      · exact h.keys.2 k hk
      · rwa [List.mem_singleton.1 hk]
  cases way with
  | nil => exact hkeys
  | cons k rest =>
    refine ⟨hkeys, ?_⟩
    by_cases hk : k = key
    · subst hk
      rw [mapAt, lookup_setEntry_self]
      split
      · next entries heq => exact hv rest entries rfl (Option.some.inj heq)
      · exact isTidy_nil rest
    · rw [mapAt_setEntry_of_ne hk]
      exact h.2

/-- Setting a value that is no map at a path keeps a tree tidy. -/
theorem isTidy_put {p way : List Bytes} {t : Tree} (h : IsTidy way t)
    (hp : ∀ key ∈ p, Byte.dot ∉ key) {v : Value} (hv : ∀ entries, v ≠ .map entries) :
    IsTidy way (put p v t) := by
  fun_induction put p v t generalizing way with
  | case1 v tree => exact h
  | case2 key v tree =>
    exact h.setEntry (hp key (by simp)) fun rest entries _ he => absurd he (hv entries)
  | case3 key path v tree hne hlookup ih =>
    rw [List.forall_mem_cons] at hp
    refine h.setEntry hp.1 fun rest entries hway he => ?_
    cases he
    exact ih (isTidy_nil rest) hp.2 hv
  | case4 key path v tree hne entries hlookup ih =>
    rw [List.forall_mem_cons] at hp
    refine h.setEntry hp.1 fun rest entries' hway he => ?_
    cases he
    subst hway
    have hrest := h.2
    rw [mapAt, hlookup] at hrest
    exact ih hrest hp.2 hv
  | case5 key path v tree hne w hmap hlookup ih =>
    rw [List.forall_mem_cons] at hp
    exact ih h hp.2 hv

/-! ## What is found over a lower tree -/

section
variable {a b : Bytes} {upper lower : Tree}

theorem IsTidy.pair_not_mem {way : List Bytes} {t : Tree} (h : IsTidy way t) (a b : Bytes) :
    a ++ Byte.dot :: b ∉ t.keys :=
  fun hmem => h.keys.2 _ hmem (by simp)

/-- A value of the upper tree wins, unless the lower tree spells its path out as one key. -/
theorem IsTidy.find_overlay_of_at? (h : IsTidy [a] upper) (hclear : IsClear [a, b] upper)
    (ha : Byte.dot ∉ a) (hb : Byte.dot ∉ b) {v : Value} (hat : at? [a, b] upper = some v)
    (hv : ∀ entries, v ≠ .map entries) (hlower : lower.lookup (a ++ Byte.dot :: b) = none) :
    (overlay upper lower).find (a ++ Byte.dot :: b) = some v := by
  rw [at?_cons, mapAt] at hat
  cases hlookup : upper.lookup a with
  | none =>
    rw [hlookup] at hat
    cases hat
  | some w =>
    obtain ⟨entries, rfl⟩ := (isClear_cons_iff.1 hclear).1 w hlookup
    have hentries := h.2.1
    rw [mapAt, hlookup] at hentries
    rw [hlookup] at hat
    obtain ⟨joined, hjoined, hfound⟩ := exists_overlayValue_eq hentries hat hv (lower.lookup a)
    refine find_pair ha hb ?_ ?_ hfound
    · rw [lookup_overlay h.keys.1, lookup_eq_none_iff.2 (h.pair_not_mem a b), hlower]
      rfl
    · rw [lookup_overlay h.keys.1, hlookup, Option.map_some, hjoined, Option.some_or]

/-- Where the upper tree has no value, that of the lower tree is found. -/
theorem IsTidy.find_overlay_of_at?_eq_none (h : IsTidy [a] upper) (hclear : IsClear [a, b] upper)
    (ha : Byte.dot ∉ a) (hb : Byte.dot ∉ b) (hat : at? [a, b] upper = none) (lower : Tree) :
    (overlay upper lower).find (a ++ Byte.dot :: b) = lower.find (a ++ Byte.dot :: b) := by
  refine find_overlay_pair ha hb (h.pair_not_mem a b) (fun v hv => ?_) lower
  have hlookup := lookup_of_mem h.keys.1 hv
  obtain ⟨entries, rfl⟩ := (isClear_cons_iff.1 hclear).1 v hlookup
  rw [at?_cons, mapAt, hlookup] at hat
  exact ⟨entries, rfl, lookup_eq_none_iff.1 hat⟩

end

end Tree
end TemplateLint.Settings
