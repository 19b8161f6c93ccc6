import Mathlib
import TemplateLint.Proofs.Anchor
import TemplateLint.Proofs.Path
import TemplateLint.Session.Correction

/-!
# What a journal holds after many attempts

An attempt changes the entry of its own identifier and no other. So the entry of an identifier is
what its own attempts leave behind one after the other: the placeholder lines of all passes in
their order, for every line what the last pass with that line says, and the failure of the last
attempt.
-/
namespace TemplateLint

namespace LineMap
variable {α : Type}

/-- What the last of some maps that has a line says about it. -/
def last? (line : Int) (maps : List (LineMap α)) : Option α :=
  maps.reverse.findSome? (·.get? line)

theorem last?_cons (line : Int) (m : LineMap α) (maps : List (LineMap α)) :
    last? line (m :: maps) = (last? line maps).or (m.get? line) := by
  simp [last?, List.findSome?_append]

theorem last?_eq_some_iff {line : Int} {maps : List (LineMap α)} {v : α} :
    last? line maps = some v ↔
      ∃ before m behind, maps = before ++ m :: behind ∧ m.get? line = some v ∧
        ∀ n ∈ behind, n.get? line = none := by
  rw [last?, List.findSome?_eq_some_iff]
  constructor
  · rintro ⟨xs, m, ys, heq, hm, hxs⟩
    refine ⟨ys.reverse, m, xs.reverse, ?_, hm, by simpa using hxs⟩
    rw [← List.reverse_reverse maps, heq]
    simp
  · rintro ⟨before, m, behind, rfl, hm, hbehind⟩
    exact ⟨behind.reverse, m, before.reverse, by simp, hm, by simpa using hbehind⟩

end LineMap

namespace Entry

/-- The entry after several attempts. -/
def addAttempts (e : Entry) (attempts : List (Except Cause Fragment)) : Entry :=
  attempts.foldl addAttempt e

/-- The passes among attempts. -/
def passes (attempts : List (Except Cause Fragment)) : List Fragment :=
  attempts.filterMap Except.toOption

@[simp] theorem addAttempts_nil (e : Entry) : e.addAttempts [] = e := rfl

@[simp] theorem addAttempts_cons (e : Entry) (a : Except Cause Fragment)
    (attempts : List (Except Cause Fragment)) :
    e.addAttempts (a :: attempts) = (e.addAttempt a).addAttempts attempts := rfl

theorem addAttempts_append (e : Entry) (as bs : List (Except Cause Fragment)) :
    e.addAttempts (as ++ bs) = (e.addAttempts as).addAttempts bs :=
  List.foldl_append

@[simp] theorem passes_nil : passes [] = [] := rfl

@[simp] theorem passes_ok (f : Fragment) (attempts : List (Except Cause Fragment)) :
    passes (.ok f :: attempts) = f :: passes attempts := rfl

@[simp] theorem passes_error (cause : Cause) (attempts : List (Except Cause Fragment)) :
    passes (.error cause :: attempts) = passes attempts := rfl

theorem placeholderLines_addAttempts (e : Entry) (attempts : List (Except Cause Fragment)) :
    (e.addAttempts attempts).placeholderLines =
      e.placeholderLines ++ (passes attempts).flatMap (·.placeholderLines) := by
  induction attempts generalizing e with
  | nil => simp
  | cons a attempts ih =>
    rw [addAttempts_cons, ih]
    cases a with
    | ok f => simp [addAttempt, addFragment]
    | error cause => simp [addAttempt, addFailure]

/-- A line map of an entry, over which every pass lays its own. -/
structure IsOverlaid {α : Type} (kept : Entry → LineMap α) (new : Fragment → LineMap α) :
    Prop where
  fragment : ∀ e f, kept (e.addFragment f) = (kept e).merge (new f)
  failure : ∀ e cause, kept (e.addFailure cause) = kept e

theorem isOverlaid_origins : IsOverlaid Entry.origins Fragment.origins :=
  ⟨fun _ _ => rfl, fun _ _ => rfl⟩

theorem isOverlaid_anchors : IsOverlaid Entry.anchors Fragment.anchors :=
  ⟨fun _ _ => rfl, fun _ _ => rfl⟩

/-- The last pass with a line decides what the entry says about it. -/
theorem IsOverlaid.get?_addAttempts {α : Type} {kept : Entry → LineMap α}
    {new : Fragment → LineMap α} (hmap : IsOverlaid kept new) (e : Entry)
    {attempts : List (Except Cause Fragment)} (h : ∀ f ∈ passes attempts, (new f).keys.Nodup)
    (line : Int) :
    (kept (e.addAttempts attempts)).get? line =
      (LineMap.last? line ((passes attempts).map new)).or ((kept e).get? line) := by
  induction attempts generalizing e with
  | nil => simp [LineMap.last?]
  | cons a attempts ih =>
    cases a with
    | ok f =>
      rw [passes_ok, List.forall_mem_cons] at h
      rw [addAttempts_cons, ih _ h.2, passes_ok, List.map_cons, LineMap.last?_cons,
        Option.or_assoc, addAttempt, hmap.fragment, LineMap.get?_merge _ h.1]
    | error cause =>
      rw [addAttempts_cons, ih _ h, addAttempt, hmap.failure, passes_error]

/-- The failure of an attempt. -/
def failureOf : Except Cause Fragment → Option Cause
  | .ok _ => none
  | .error cause => some cause

theorem failure_addAttempt (e : Entry) (a : Except Cause Fragment) :
    (e.addAttempt a).failure = failureOf a := by
  cases a <;> rfl

/-- The last attempt decides whether the entry shows a failure. -/
theorem failure_addAttempts (e : Entry) (attempts : List (Except Cause Fragment)) :
    (e.addAttempts attempts).failure =
      match attempts.getLast? with
      | none => e.failure
      | some a => failureOf a := by
  induction attempts using List.reverseRecOn with
  | nil => rfl
  | append_singleton attempts a =>
    rw [addAttempts_append, addAttempts_cons, addAttempts_nil, failure_addAttempt,
      List.getLast?_concat]

end Entry

namespace Journal

theorem lookup_filter_ne {id k : Bytes} (h : k ≠ id) (entries : List (Bytes × Entry)) :
    (entries.filter fun (x, _) => x != id).lookup k = entries.lookup k := by
  induction entries with
  | nil => rfl
  | cons entry entries ih =>
    obtain ⟨x, e⟩ := entry
    by_cases hx : x = id
    · rw [List.filter_cons_of_neg (by simp [hx]), ih, List.lookup_cons, hx,
        beq_eq_false_iff_ne.2 h]
    · rw [List.filter_cons_of_pos (by simp [hx]), List.lookup_cons, List.lookup_cons, ih]

/-- Changing one entry changes no other. -/
theorem entry_update (j : Journal) (id : Bytes) (change : Entry → Entry) (k : Bytes) :
    (j.update id change).entry k = if k = id then change (j.entry id) else j.entry k := by
  rw [update, entry, List.lookup_cons]
  by_cases hk : k = id
  · simp [hk]
  · rw [if_neg hk, beq_eq_false_iff_ne.2 hk, lookup_filter_ne hk]
    rfl

theorem entry_record (j : Journal) (id : Bytes) (attempt : Except Cause Fragment) (k : Bytes) :
    (j.record id attempt).entry k =
      if k = id then (j.entry k).addAttempt attempt else j.entry k := by
  rw [record, entry_update]
  split
  · next hk => rw [hk]
  · rfl

theorem isMinted_mintedId (n : Nat) : isMinted (mintedId n) = true := by
  have hstart : mintedStart <+: mintedId n := ⟨Bytes.ofNat n ++ mintedEnd, by simp [mintedId]⟩
  have hend : mintedEnd <:+ mintedId n := ⟨mintedStart ++ Bytes.ofNat n, rfl⟩
  rw [isMinted, Bool.and_eq_true]
  exact ⟨List.isPrefixOf_iff_prefix.2 hstart, List.isSuffixOf_iff_suffix.2 hend⟩

/-- No path from the root has the form of a minted identifier. -/
theorem isMinted_of_isAbsolute {path : Bytes} (h : Path.isAbsolute path = true) :
    isMinted path = false := by
  rw [Bool.eq_false_iff]
  intro hm
  rw [isMinted, Bool.and_eq_true] at hm
  obtain ⟨t, rfl⟩ := List.isPrefixOf_iff_prefix.1 hm.1
  have hhead : Path.isAbsolute (mintedStart ++ t) = false := rfl
  rw [hhead] at h
  cases h

end Journal

namespace Setting
variable {s : Setting}

theorem entry_identify (path : Bytes) (j : Journal) (k : Bytes) :
    (s.identify path j).2.entry k = j.entry k := by
  rw [identify]
  split <;> rfl

/-- The identifier of an input stands for itself, since a working directory is an absolute path. -/
theorem lookupId_identify (hdir : Path.isAbsolute s.directory = true) (path : Bytes)
    (j : Journal) : s.lookupId (s.identify path j).1 = (s.identify path j).1 := by
  rw [identify]
  split
  · rw [lookupId, if_pos (by simp [Journal.mint, Journal.isMinted_mintedId])]
  · have habs := Path.isAbsolute_absolute hdir path
    have hne : (Path.absolute s.directory path).isEmpty = false := by
      cases hp : Path.absolute s.directory path with
      | nil => simp [hp, Path.isAbsolute] at habs
      | cons b rest => rfl
    rw [lookupId, if_neg (by simp [hne, Journal.isMinted_of_isAbsolute habs])]
    exact Path.absolute_absolute hdir path

/-- Preparing an input records the attempt under its identifier and nowhere else. -/
theorem entry_prepare (extract : Bytes → Except Cause Fragment) (path : Bytes) (j : Journal)
    (k : Bytes) :
    (s.prepare extract path j).2.entry k =
      if k = (s.prepare extract path j).1.id then
        (j.entry k).addAttempt (s.prepare extract path j).1.attempt
      else j.entry k := by
  rw [prepare, Journal.entry_record, entry_identify]

end Setting

/-- The attempts to extract the input with an identifier, in their order. -/
def Preparation.attemptsFor (id : Bytes) (preparations : List Preparation) :
    List (Except Cause Fragment) :=
  (preparations.filter fun p => p.id == id).map Preparation.attempt

namespace Preparation

theorem attemptsFor_singleton (id : Bytes) (p : Preparation) :
    attemptsFor id [p] = if id = p.id then [p.attempt] else [] := by
  by_cases h : id = p.id
  · simp [attemptsFor, h]
  · simp [attemptsFor, h, Ne.symm h]

theorem attemptsFor_append (id : Bytes) (ps qs : List Preparation) :
    attemptsFor id (ps ++ qs) = attemptsFor id ps ++ attemptsFor id qs := by
  simp [attemptsFor]

end Preparation
end TemplateLint
