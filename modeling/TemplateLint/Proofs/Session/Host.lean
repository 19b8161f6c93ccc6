import Mathlib
import TemplateLint.Proofs.Session.Journal
import TemplateLint.Proofs.Template.Fragment
import TemplateLint.Session.Host

/-!
# Sessions that share a journal

Sessions send requests to the journal they share: to prepare an input, to correct a verdict or to
mint an identifier. Whatever the sessions and their extractors are and in whatever order the
requests come, the journal holds for every identifier what the attempts for that identifier say.
Lines accumulate, maps are overlaid, and the failure is that of the last attempt.

What is attempted can be told from the requests alone: a request with a path asks the extractor
about the absolute path, and one without a path about the identifier with the next number.
-/
namespace TemplateLint

/-! ## Requests -/

/-- What an extractor may return: any fragment that names every line once. -/
abbrev Extraction := { f : Fragment // f.Mapped }

/-- A request to a session. A session that is asked for the stylesheet alone prepares the input in
the same way and shows less of the preparation. -/
inductive Request where
  | prepare (extract : Bytes → Except Cause Extraction) (path : Bytes)
  | correct (raw : Verdict) (id : Bytes)
  | mint

/-- The answer to a request. -/
inductive Answer where
  | prepared (preparation : Preparation)
  | corrected (verdict : Verdict)
  | minted (id : Bytes)

/-- The preparation that an answer is about. -/
def Answer.preparation? : Answer → Option Preparation
  | prepared p => some p
  | corrected _ => none
  | minted _ => none

namespace Request

/-- Whether a request needs a minted identifier. -/
def mints : Request → Bool
  | prepare _ path => path.isEmpty
  | correct _ _ => false
  | mint => true

/-- The preparation that a request asks for, when the next minted identifier has the number `n`. -/
def preparation? (directory : Bytes) (n : Nat) : Request → Option Preparation
  | prepare extract path =>
    let id := if path.isEmpty then Journal.mintedId n else Path.absolute directory path
    some ⟨id, (extract id).map Subtype.val⟩
  | correct _ _ => none
  | mint => none

end Request

/-- Serve a request with a journal. -/
def Request.serve (s : Setting) (j : Journal) : Request → Answer × Journal
  | prepare extract path =>
    let (p, j) := s.prepare (fun id => (extract id).map Subtype.val) path j
    (.prepared p, j)
  | correct raw id => (.corrected (s.correct j raw id), j)
  | mint =>
    let (id, j) := j.mint
    (.minted id, j)

/-- A request to one of several sessions. -/
structure Call (sessions : List Session) where
  session : Session
  known : session ∈ sessions
  request : Request

/-- The preparations that calls ask for, when the next minted identifier has the number `n`. -/
def Host.requested (directory : Bytes) {sessions : List Session} :
    Nat → List (Call sessions) → List Preparation
  | _, [] => []
  | n, call :: calls =>
    (call.request.preparation? directory n).toList ++
      requested directory (if call.request.mints then n + 1 else n) calls

/-- Serve calls one after the other. -/
def Host.serve (h : Host) {sessions : List Session} : List (Call sessions) → List Answer × Host
  | [] => ([], h)
  | call :: calls =>
    let (answer, h) := h.act call.session fun s j => call.request.serve s j
    let (answers, h) := h.serve calls
    (answer :: answers, h)

/-! ## What an entry says about attempts -/

/-- Whether a cause is another one, or was met in the course of it. -/
inductive Cause.StemsFrom (root : Cause) : Cause → Prop
  | refl : StemsFrom root root
  | during {cause : Cause} (context : Bytes) (h : StemsFrom root cause) :
      StemsFrom root (.during context cause)

/-- A map that says about every line what the last of some maps with that line says. -/
structure LineMap.FollowsLast {α : Type} (kept : LineMap α) (maps : List (LineMap α)) : Prop where
  defined : ∀ line, (kept.get? line).isSome ↔ ∃ m ∈ maps, (m.get? line).isSome
  value : ∀ line v, kept.get? line = some v ↔
    ∃ before m behind, maps = before ++ m :: behind ∧ m.get? line = some v ∧
      ∀ n ∈ behind, n.get? line = none

theorem LineMap.followsLast_of_get? {α : Type} {kept : LineMap α} {maps : List (LineMap α)}
    (h : ∀ line, kept.get? line = last? line maps) : kept.FollowsLast maps where
  defined := by
    intro line
    simp [h line, last?, List.findSome?_isSome_iff]
  value := by
    intro line v
    rw [h line, last?_eq_some_iff]

/-- An entry that holds what attempts say. -/
structure Entry.Reflects (e : Entry) (attempts : List (Except Cause Fragment)) : Prop where
  /-- The placeholder lines of all passes in their order. -/
  placeholderLines : e.placeholderLines = (passes attempts).flatMap Fragment.placeholderLines
  /-- For every line the last pass that has it decides. -/
  origins : e.origins.FollowsLast ((passes attempts).map Fragment.origins)
  anchors : e.anchors.FollowsLast ((passes attempts).map Fragment.anchors)
  /-- The failure of the last attempt. -/
  failure : ∀ cause, e.failure = some cause ↔ attempts.getLast? = some (.error cause)
  /-- A failure is of one of two kinds, by whether malformed input is behind it. -/
  kind : ∀ cause, e.failure = some cause →
    cause.kind = .malformed ∧ (∃ m, Cause.StemsFrom (.malformed m) cause) ∨
      cause.kind = .other ∧ ¬ ∃ m, Cause.StemsFrom (.malformed m) cause

theorem Cause.malformed?_eq_some_iff {cause : Cause} {m : Malformed} :
    cause.malformed? = some m ↔ StemsFrom (.malformed m) cause := by
  induction cause with
  | malformed place =>
    constructor
    · intro h
      cases h
      exact .refl
    · intro h
      cases h
      rfl
  | extraction detail =>
    constructor <;> intro h <;> cases h
  | plain text =>
    constructor <;> intro h <;> cases h
  | during context cause ih =>
    rw [malformed?, ih]
    constructor
    · exact .during context
    · intro h
      cases h
      assumption

theorem Cause.kind_cases (cause : Cause) :
    cause.kind = .malformed ∧ (∃ m, StemsFrom (.malformed m) cause) ∨
      cause.kind = .other ∧ ¬ ∃ m, StemsFrom (.malformed m) cause := by
  simp only [kind, ← malformed?_eq_some_iff, ← Option.isSome_iff_exists]
  by_cases h : cause.malformed?.isSome = true
  · exact .inl ⟨if_pos h, h⟩
  · exact .inr ⟨if_neg h, h⟩

namespace Entry

/-- Attempts leave behind an entry that holds what they say. -/
theorem reflects_addAttempts {attempts : List (Except Cause Fragment)}
    (h : ∀ f ∈ passes attempts, f.Mapped) : (({} : Entry).addAttempts attempts).Reflects attempts
    where
  placeholderLines := placeholderLines_addAttempts {} attempts
  origins := by
    refine LineMap.followsLast_of_get? fun line => ?_
    rw [isOverlaid_origins.get?_addAttempts {} (fun f hf => (h f hf).origins), LineMap.get?_nil,
      Option.or_none]
  anchors := by
    refine LineMap.followsLast_of_get? fun line => ?_
    rw [isOverlaid_anchors.get?_addAttempts {} (fun f hf => (h f hf).anchors), LineMap.get?_nil,
      Option.or_none]
  failure := by
    intro cause
    rw [failure_addAttempts]
    cases hlast : attempts.getLast? with
    | none => simp
    | some a => cases a <;> simp [failureOf]
  kind := fun cause _ => cause.kind_cases

end Entry

/-! ## One request -/

/-- What a request may change. The preparation is the one that the request made, if it made one. -/
structure Journal.Changes (before after : Journal) (p? : Option Preparation) : Prop where
  /-- Without an attempt for it an entry stays as it is. -/
  others : ∀ id, (∀ p, p? = some p → p.id ≠ id) → after.entry id = before.entry id
  /-- An attempt that fails changes nothing but the failure. -/
  failed : ∀ p cause, p? = some p → p.attempt = .error cause →
    after.entry p.id = { before.entry p.id with failure := some cause }
  /-- A pass leaves no failure. -/
  passed : ∀ p f, p? = some p → p.attempt = .ok f → (after.entry p.id).failure = none

namespace Request
variable {s : Setting}

/-- A request adds its attempt, if it makes one, to the entry of its identifier. -/
theorem entry_serve (r : Request) (j : Journal) (id : Bytes) :
    (r.serve s j).2.entry id = (j.entry id).addAttempts
      (Preparation.attemptsFor id (r.serve s j).1.preparation?.toList) := by
  cases r with
  | prepare extract path =>
    rw [serve, Setting.entry_prepare, Answer.preparation?, Option.toList_some,
      Preparation.attemptsFor_singleton]
    split <;> rfl
  | correct raw id => rfl
  | mint => rfl

/-- A request that mints an identifier takes the next number. -/
theorem nextInput_serve (r : Request) (j : Journal) :
    (r.serve s j).2.nextInput = if r.mints then j.nextInput + 1 else j.nextInput := by
  cases r with
  | prepare extract path =>
    have hstep : (serve s j (prepare extract path)).2.nextInput =
        (s.identify path j).2.nextInput := rfl
    rw [hstep, Setting.identify, mints]
    split <;> rfl
  | correct raw id => rfl
  | mint => rfl

/-- The answer to a request is about the preparation that it asks for. -/
theorem preparation?_serve (r : Request) (j : Journal) :
    (r.serve s j).1.preparation? = r.preparation? s.directory j.nextInput := by
  cases r with
  | prepare extract path =>
    have hid : (s.identify path j).1 =
        if path.isEmpty then Journal.mintedId j.nextInput else Path.absolute s.directory path := by
      rw [Setting.identify]
      split <;> rfl
    have hstep : (serve s j (prepare extract path)).1.preparation? =
        some ⟨(s.identify path j).1, (extract (s.identify path j).1).map Subtype.val⟩ := rfl
    rw [hstep, hid, preparation?]
  | correct raw id => rfl
  | mint => rfl

theorem mapped_of_serve {r : Request} {j : Journal} {p : Preparation}
    (hp : (r.serve s j).1.preparation? = some p) {f : Fragment} (hf : p.attempt = .ok f) :
    f.Mapped := by
  cases r with
  | prepare extract path =>
    cases hp
    change (extract (s.identify path j).1).map Subtype.val = .ok f at hf
    cases hx : extract (s.identify path j).1 with
    | ok x =>
      rw [hx] at hf
      cases hf
      exact x.2
    | error cause =>
      rw [hx] at hf
      cases hf
  | correct raw id => cases hp
  | mint => cases hp

theorem changes_serve (r : Request) (j : Journal) :
    j.Changes (r.serve s j).2 (r.serve s j).1.preparation? where
  others := by
    intro id hid
    rw [entry_serve]
    cases hp : (r.serve s j).1.preparation? with
    | none => rfl
    | some p =>
      rw [Option.toList_some, Preparation.attemptsFor_singleton, if_neg (hid p hp).symm]
      rfl
  failed := by
    intro p cause hp hattempt
    rw [entry_serve, hp, Option.toList_some, Preparation.attemptsFor_singleton, if_pos rfl,
      hattempt]
    rfl
  passed := by
    intro p f hp hattempt
    rw [entry_serve, hp, Option.toList_some, Preparation.attemptsFor_singleton, if_pos rfl,
      hattempt]
    rfl

end Request

/-! ## Many calls -/

namespace Host

/-- The preparations among answers, in their order. -/
def preparations (answers : List Answer) : List Preparation :=
  answers.filterMap Answer.preparation?

/-- The sessions of a shared host write to its only journal. -/
theorem journal_eq_zero {directory : Bytes} {names : List Bytes} {session : Session}
    (h : session ∈ (create directory names true).sessions) : session.journal = 0 := by
  obtain ⟨x, -, rfl⟩ := List.mem_map.1 h
  rfl

/-- A call is served by the only journal. -/
theorem act_of_journals {α : Type} {h : Host} {j : Journal} (hj : h.journals = [j])
    {session : Session} (hs : session.journal = 0) (work : Setting → Journal → α × Journal) :
    h.act session work = ((work session.setting j).1,
      { h with journals := [(work session.setting j).2] }) := by
  simp [act, journalOf, hj, hs]

theorem directory_of_mem {directory : Bytes} {names : List Bytes} {shared : Bool}
    {session : Session} (h : session ∈ (create directory names shared).sessions) :
    session.setting.directory = directory := by
  obtain ⟨x, -, rfl⟩ := List.mem_map.1 h
  rfl

theorem preparations_cons (answer : Answer) (answers : List Answer) :
    preparations (answer :: answers) = answer.preparation?.toList ++ preparations answers := by
  cases answer <;> rfl

section
variable {directory : Bytes} {names : List Bytes} {h : Host} {j : Journal}

theorem serve_cons (hj : h.journals = [j]) {call : Call (create directory names true).sessions}
    {answer : Answer} {after : Journal}
    (hserve : call.request.serve call.session.setting j = (answer, after))
    (calls : List (Call (create directory names true).sessions)) :
    h.serve (call :: calls) = (answer :: ({ h with journals := [after] }.serve calls).1,
      ({ h with journals := [after] }.serve calls).2) := by
  rw [serve, act_of_journals hj (journal_eq_zero call.known), hserve]

/-- The answers to calls are about the preparations that the calls ask for. -/
theorem preparations_serve (hj : h.journals = [j])
    (calls : List (Call (create directory names true).sessions)) :
    preparations (h.serve calls).1 = requested directory j.nextInput calls := by
  induction calls generalizing h j with
  | nil => rfl
  | cons call calls ih =>
    rw [serve_cons hj Prod.mk.eta.symm, preparations_cons, requested, ih rfl,
      Request.preparation?_serve, Request.nextInput_serve, directory_of_mem call.known]

/-- Calls add their attempts to the entries of the journal and count the identifiers they mint. -/
theorem exists_journal_serve (hj : h.journals = [j])
    (calls : List (Call (create directory names true).sessions)) :
    ∃ after, (h.serve calls).2.journals = [after] ∧
      after.nextInput = j.nextInput + calls.countP (fun call => call.request.mints) ∧
      (∀ id, after.entry id = (j.entry id).addAttempts
        (Preparation.attemptsFor id (preparations (h.serve calls).1))) ∧
      ∀ p ∈ preparations (h.serve calls).1, ∀ f, p.attempt = .ok f → f.Mapped := by
  induction calls generalizing h j with
  | nil => exact ⟨j, hj, rfl, fun _ => rfl, fun p hp => by cases hp⟩
  | cons call calls ih =>
    -- the other calls start from the journal that this one leaves
    obtain ⟨after, hafter, hnext, hentry, hmapped⟩ :=
      ih (h := { h with journals := [(call.request.serve call.session.setting j).2] }) rfl
    rw [serve_cons hj Prod.mk.eta.symm, preparations_cons]
    refine ⟨after, hafter, ?_, ?_, ?_⟩
    · rw [hnext, Request.nextInput_serve, List.countP_cons]
      split <;> omega
    · intro id
      rw [hentry, Request.entry_serve, ← Entry.addAttempts_append,
        ← Preparation.attemptsFor_append]
    · intro p hp f hf
      rcases List.mem_append.1 hp with hp | hp
      · exact Request.mapped_of_serve (Option.mem_toList.1 hp) hf
      · exact hmapped p hp f hf

end

theorem mapped_of_mem_passes {preparations : List Preparation}
    (h : ∀ p ∈ preparations, ∀ f, p.attempt = .ok f → f.Mapped) {id : Bytes} {f : Fragment}
    (hf : f ∈ Entry.passes (Preparation.attemptsFor id preparations)) : f.Mapped := by
  obtain ⟨a, ha, hok⟩ := List.mem_filterMap.1 hf
  obtain ⟨p, hp, rfl⟩ := List.mem_map.1 ha
  refine h p (List.mem_of_mem_filter hp) f ?_
  cases hattempt : p.attempt with
  | ok g =>
    rw [hattempt] at hok
    cases hok
    rfl
  | error cause =>
    rw [hattempt] at hok
    cases hok

/-- **A shared journal reflects the calls.** After any calls to sessions that share a journal, the
entry of every identifier holds what the attempts for that identifier say, which are those that the
calls ask for. One more call changes no entry but that of the input it prepares. -/
theorem shared_journal_reflects_calls (directory : Bytes) (names : List Bytes)
    (calls : List (Call (create directory names true).sessions)) :
    preparations ((create directory names true).serve calls).1 = requested directory 1 calls ∧
    ∃ j, ((create directory names true).serve calls).2.journals = [j] ∧
      (∀ id, (j.entry id).Reflects (Preparation.attemptsFor id (requested directory 1 calls))) ∧
      ∀ call : Call (create directory names true).sessions, ∃ answer after,
        (((create directory names true).serve calls).2.serve [call]).1 = [answer] ∧
        (((create directory names true).serve calls).2.serve [call]).2.journals = [after] ∧
        answer.preparation? = call.request.preparation? directory
          (1 + calls.countP fun call => call.request.mints) ∧
        j.Changes after answer.preparation? := by
  have hrequested : preparations ((create directory names true).serve calls).1 =
      requested directory 1 calls :=
    preparations_serve (h := create directory names true) (j := {}) rfl calls
  obtain ⟨j, hj, hnext, hentry, hmapped⟩ :=
    exists_journal_serve (h := create directory names true) (j := {}) rfl calls
  rw [hrequested] at hentry hmapped
  refine ⟨hrequested, j, hj, ?_, ?_⟩
  · intro id
    rw [hentry]
    exact Entry.reflects_addAttempts fun f hf => mapped_of_mem_passes hmapped hf
  · intro call
    rw [serve_cons hj Prod.mk.eta.symm]
    refine ⟨_, _, rfl, rfl, ?_, call.request.changes_serve j⟩
    rw [Request.preparation?_serve, directory_of_mem call.known, hnext]

end Host

/-! ## A run with passes and failures -/

/-- The extractor for a source and a module. -/
def Extraction.ofSource (source moduleName id : Bytes) : Except Cause Extraction :=
  match h : Fragment.extract source id moduleName with
  | .ok fragment => .ok ⟨fragment, Fragment.mapped_of_extract h⟩
  | .error cause => .error cause

/-- A source whose template starts on the second line. -/
def upperSample : Bytes :=
  Bytes.ofString "import styled from 'styled-components'\n" ++
    Bytes.ofString "const A = styled.div`\n  color: red;\n`\n"

/-- A source whose template starts on the fifth line. -/
def lowerSample : Bytes :=
  Bytes.ofString "import styled from 'styled-components'\n\n\n\n" ++
    Bytes.ofString "const B = styled.div`\n  color: blue;\n`\n"

/-- A verdict with one finding, about the second line of a fragment. -/
def secondLineVerdict : Verdict where
  source := Journal.mintedId 1
  findings := [{
    rule := Bytes.ofString "declaration-no-important", severity := .warning, line := 2, column := 3,
    text := Bytes.ofString "Unexpected !important" }]

/-- Two sessions in the root directory. -/
def pairedHost : Host := Host.create [Byte.slash] [[], Bytes.ofString "other"] true

/-- Why an extraction fails. -/
def boom : Cause := .plain (Bytes.ofString "boom")

/-- Calls to both sessions: a pass over an input without a path, a minted identifier, an extraction
without a path that fails, two passes over a file, an extraction of the file under another spelling
that fails, a failure for a file whose name looks minted, and a verdict on the first input. -/
def pairedCalls : List (Call pairedHost.sessions) :=
  let first : Session := ⟨Setting.create [Byte.slash] [], 0⟩
  let second : Session := ⟨Setting.create [Byte.slash] (Bytes.ofString "other"), 0⟩
  have hfirst : first ∈ pairedHost.sessions := by decide +kernel
  have hsecond : second ∈ pairedHost.sessions := by decide +kernel
  let extract (source id : Bytes) := Extraction.ofSource source defaultModule id
  let fail (_ : Bytes) : Except Cause Extraction := .error boom
  [⟨first, hfirst, .prepare (extract upperSample) []⟩, ⟨second, hsecond, .mint⟩,
    ⟨second, hsecond, .prepare fail []⟩,
    ⟨first, hfirst, .prepare (extract upperSample) (Bytes.ofString "a.js")⟩,
    ⟨first, hfirst, .prepare (extract lowerSample) (Bytes.ofString "a.js")⟩,
    ⟨second, hsecond, .prepare fail (Bytes.ofString "./a.js")⟩,
    ⟨second, hsecond, .prepare fail (Journal.mintedId 2)⟩,
    ⟨second, hsecond, .correct secondLineVerdict (Journal.mintedId 1)⟩]

/-- The file has had two passes and a failure. Its entry shows the failure and still the source
lines of the second pass. The input without a path has kept its own, and the failure of the other
one is not its failure. -/
theorem pairedCalls_reflected :
    (Preparation.attemptsFor (Bytes.ofString "/a.js")
      (Host.requested [Byte.slash] 1 pairedCalls)).map Except.isOk = [true, true, false] ∧
    ∃ j, (pairedHost.serve pairedCalls).2.journals = [j] ∧
      (∀ id, (j.entry id).Reflects
        (Preparation.attemptsFor id (Host.requested [Byte.slash] 1 pairedCalls))) ∧
      (j.entry (Bytes.ofString "/a.js")).failure = some boom ∧
      (j.entry (Bytes.ofString "/a.js")).origins.get? 2 = some 6 ∧
      (j.entry (Journal.mintedId 1)).failure = none ∧
      (j.entry (Journal.mintedId 1)).origins.get? 2 = some 3 ∧
      (j.entry (Journal.mintedId 3)).failure = some boom := by
  obtain ⟨-, j, hj, hreflects, -⟩ := Host.shared_journal_reflects_calls [Byte.slash]
    [[], Bytes.ofString "other"] pairedCalls
  have hentries : (pairedHost.serve pairedCalls).2.journals.map (fun j =>
      ((j.entry (Bytes.ofString "/a.js")).origins.get? 2, (j.entry (Journal.mintedId 1)).failure,
        (j.entry (Journal.mintedId 1)).origins.get? 2)) = [(some 6, none, some 3)] := by
    decide +kernel
  change (pairedHost.serve pairedCalls).2.journals = [j] at hj
  simp only [hj, List.map_cons, List.map_nil, List.cons.injEq, Prod.mk.injEq, and_true] at hentries
  obtain ⟨hfile, hinput, hline⟩ := hentries
  refine ⟨by decide +kernel, j, hj, hreflects, ?_, hfile, hinput, hline, ?_⟩
  · exact ((hreflects _).failure boom).2 (by decide +kernel)
  · exact ((hreflects _).failure boom).2 (by decide +kernel)

end TemplateLint
