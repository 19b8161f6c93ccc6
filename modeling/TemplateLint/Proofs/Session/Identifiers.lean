import Mathlib
import TemplateLint.Proofs.Session.Host
import TemplateLint.Proofs.Session.Stale
import TemplateLint.Proofs.Text.Bytes

/-!
# Identifiers

An input is known by its absolute path, or by a minted identifier when it has none. Minted
identifiers are numbered in the order of the calls and never meet a path, and whatever
preparing an input returns stands for itself afterwards.

Correcting a verdict by the path of the input is another matter. A path that looks like a minted
identifier is taken for one, so the verdict is corrected by what was recorded under that
identifier and not by the pass over the input.
-/
namespace TemplateLint

/-! ## Minted identifiers -/

namespace Journal

theorem mintedId_injective : Function.Injective mintedId := by
  intro m n h
  exact Bytes.ofNat_injective (List.append_cancel_left (List.append_cancel_right h))

/-- What looks minted is no path from the root. -/
theorem ne_of_isMinted {id path : Bytes} (hid : isMinted id = true)
    (hpath : Path.isAbsolute path = true) : id ≠ path := by
  rintro rfl
  rw [isMinted_of_isAbsolute hpath] at hid
  cases hid

end Journal

/-! ## The two hooks -/

namespace Setting
variable {s : Setting}

/-- What looks minted is looked up as it is. -/
theorem lookupId_of_isMinted {id : Bytes} (h : Journal.isMinted id = true) : s.lookupId id = id :=
  if_pos (by simp [h])

/-- Any other path is looked up under its absolute form. -/
theorem lookupId_of_path {path : Bytes} (hpath : path ≠ [])
    (h : Journal.isMinted path = false) :
    s.lookupId path = Path.absolute s.directory path :=
  if_neg (by simpa [h] using hpath)

/-- A path is looked up under its identifier exactly when it does not look minted. -/
theorem lookupId_eq_identify_iff (hdir : Path.isAbsolute s.directory = true) {path : Bytes}
    (hpath : path ≠ []) (j : Journal) :
    s.lookupId path = (s.identify path j).1 ↔ Journal.isMinted path = false := by
  rw [identify_of_ne_nil hpath]
  constructor
  · intro h
    by_contra hminted
    rw [Bool.not_eq_false] at hminted
    rw [lookupId_of_isMinted hminted] at h
    exact Journal.ne_of_isMinted hminted (Path.isAbsolute_absolute hdir path) h
  · exact lookupId_of_path hpath

/-- **The hooks agree on all paths but those that look minted.** A verdict that is corrected by the
path of its input is corrected by the entry of that input, the pass before included. Only for a path
that looks minted it is corrected by what was recorded under that identifier, whatever the pass
found. -/
theorem hooks_agree_iff (hdir : Path.isAbsolute s.directory = true) {path : Bytes}
    (hpath : path ≠ []) :
    (∀ j, s.lookupId path = (s.identify path j).1 ↔ Journal.isMinted path = false) ∧
      ∀ extract j raw, s.correct (s.prepare extract path j).2 raw path =
        if Journal.isMinted path = true then (j.entry path).correct raw
        else ((j.entry (Path.absolute s.directory path)).addAttempt
          (extract (Path.absolute s.directory path))).correct raw := by
  refine ⟨lookupId_eq_identify_iff hdir hpath, fun extract j raw => ?_⟩
  have hid : (s.prepare extract path j).1.id = Path.absolute s.directory path :=
    identify_of_ne_nil hpath j
  have hattempt : (s.prepare extract path j).1.attempt =
      extract (Path.absolute s.directory path) :=
    congrArg extract hid
  split
  · next hminted =>
    have hne : path ≠ Path.absolute s.directory path :=
      Journal.ne_of_isMinted hminted (Path.isAbsolute_absolute hdir path)
    rw [Setting.correct, lookupId_of_isMinted hminted, entry_prepare, hid, if_neg hne]
  · next hminted =>
    rw [Setting.correct, lookupId_of_path hpath (by simpa using hminted), entry_prepare, hid,
      if_pos rfl, hattempt]

end Setting

/-- The journal after a pass over an input without a path. -/
def upperJournal : Journal :=
  ((Setting.create [Byte.slash] []).prepare
    ((Setting.create [Byte.slash] []).extractor upperSample) [] {}).2

/-- A name that only looks minted behind its directory is kept apart from the minted one: the
finding goes to the line of its own source. -/
theorem hooks_agree_on_dotted_name :
    Journal.isMinted (Bytes.ofString "./<input css 1>") = false ∧
    (Setting.create [Byte.slash] []).lookupId (Bytes.ofString "./<input css 1>") =
      ((Setting.create [Byte.slash] []).identify (Bytes.ofString "./<input css 1>")
        upperJournal).1 ∧
    (Setting.create [Byte.slash] []).correct ((Setting.create [Byte.slash] []).prepare
        ((Setting.create [Byte.slash] []).extractor lowerSample) (Bytes.ofString "./<input css 1>")
        upperJournal).2 secondLineVerdict (Bytes.ofString "./<input css 1>") =
      ((upperJournal.entry (Bytes.ofString "/<input css 1>")).addAttempt
        ((Setting.create [Byte.slash] []).extractor lowerSample
          (Bytes.ofString "/<input css 1>"))).correct secondLineVerdict := by
  have hpath : Bytes.ofString "./<input css 1>" ≠ [] := by decide
  have hagree := Setting.hooks_agree_iff (s := Setting.create [Byte.slash] []) (by decide) hpath
  have hminted : Journal.isMinted (Bytes.ofString "./<input css 1>") = false := by decide +kernel
  have habsolute : Path.absolute (Setting.create [Byte.slash] []).directory
      (Bytes.ofString "./<input css 1>") = Bytes.ofString "/<input css 1>" := by decide +kernel
  refine ⟨hminted, (hagree.1 _).2 hminted, ?_⟩
  rw [hagree.2, habsolute, if_neg (by simp [hminted])]

/-- A file may have the name of a minted identifier. Its pass is recorded under its absolute path,
but the finding is moved to the third line, where the other input has its declaration, and not to
the sixth line of its own source. -/
theorem hooks_disagree_on_minted_name :
    Journal.mintedId 1 ≠ [] ∧
    (Setting.create [Byte.slash] []).lookupId (Journal.mintedId 1) ≠
      ((Setting.create [Byte.slash] []).identify (Journal.mintedId 1) upperJournal).1 ∧
    ((Setting.create [Byte.slash] []).correct ((Setting.create [Byte.slash] []).prepare
      ((Setting.create [Byte.slash] []).extractor lowerSample) (Journal.mintedId 1)
      upperJournal).2 secondLineVerdict (Journal.mintedId 1)).findings.map Finding.line = [3] ∧
    (((upperJournal.entry (Bytes.ofString "/<input css 1>")).addAttempt
      ((Setting.create [Byte.slash] []).extractor lowerSample
        (Bytes.ofString "/<input css 1>"))).correct secondLineVerdict).findings.map
          Finding.line = [6] := by
  decide +kernel

/-! ## Identifiers of a run -/

namespace Request

/-- The path of the input that a request prepares, if it has one. -/
def path? : Request → Option Bytes
  | prepare _ path => if path.isEmpty then none else some path
  | correct _ _ => none
  | mint => none

end Request

/-- The identifier that an answer hands out. -/
def Answer.id? : Answer → Option Bytes
  | prepared p => some p.id
  | corrected _ => none
  | minted id => some id

namespace Request
variable {s : Setting} {r : Request}

/-- An identifier that has to be minted gets the next number. -/
theorem id?_serve_of_mints (h : r.mints = true) (j : Journal) :
    (r.serve s j).1.id? = some (Journal.mintedId j.nextInput) := by
  cases r with
  | prepare extract path =>
    have hstep : (serve s j (prepare extract path)).1.id? = some (s.identify path j).1 := rfl
    rw [mints] at h
    rw [hstep, Setting.identify, if_pos h]
    rfl
  | correct raw id => cases h
  | mint => rfl

/-- The identifier of a path is its absolute form. -/
theorem id?_serve_of_path? {path : Bytes} (h : r.path? = some path) (j : Journal) :
    (r.serve s j).1.id? = some (Path.absolute s.directory path) := by
  cases r with
  | prepare extract given =>
    rw [path?] at h
    split at h
    · cases h
    · next hgiven =>
      have hstep : (serve s j (prepare extract given)).1.id? = some (s.identify given j).1 := rfl
      rw [hstep, Setting.identify_of_ne_nil (by simpa using hgiven), Option.some.inj h]
  | correct raw id => cases h
  | mint => cases h

/-- What preparing an input returns stands for itself. -/
theorem lookupId_of_serve (hdir : Path.isAbsolute s.directory = true) {j : Journal}
    {p : Preparation} (hp : (r.serve s j).1.preparation? = some p) : s.lookupId p.id = p.id := by
  cases r with
  | prepare extract path =>
    cases hp
    exact Setting.lookupId_identify hdir path j
  | correct raw id => cases hp
  | mint => cases hp

end Request

namespace Host

/-- The identifiers that the answers to some of the calls hand out, in the order of the calls. -/
def idsOf (wanted : Request → Bool) {sessions : List Session} (calls : List (Call sessions))
    (answers : List Answer) : List Bytes :=
  (calls.zip answers).filterMap fun (call, answer) =>
    if wanted call.request then answer.id? else none

/-- How calls identify inputs, when a journal is left behind. -/
structure Identifies (directory : Bytes) {sessions : List Session} (calls : List (Call sessions))
    (answers : List Answer) (j : Journal) : Prop where
  /-- Minted identifiers are numbered from one in the order of the calls. -/
  numbered : idsOf Request.mints calls answers =
    (List.range' 1 (calls.countP fun call => call.request.mints)).map Journal.mintedId
  distinct : (idsOf Request.mints calls answers).Nodup
  /-- All other inputs are known by their absolute paths. -/
  located : idsOf (fun r => r.path?.isSome) calls answers =
    (calls.filterMap fun call => call.request.path?).map (Path.absolute directory)
  /-- No path leads to a minted identifier. -/
  apart : ∀ path, Path.absolute directory path ∉ idsOf Request.mints calls answers
  /-- Every session takes the identifier of a prepared input for itself. -/
  stable : ∀ p ∈ preparations answers, ∀ session ∈ sessions, session.setting.lookupId p.id = p.id
  /-- So a verdict is corrected by what the attempts to extract that input left behind. -/
  corrected : ∀ p ∈ preparations answers, ∀ session ∈ sessions, ∀ raw,
    session.setting.correct j raw p.id =
      (({} : Entry).addAttempts
        (Preparation.attemptsFor p.id (preparations answers))).correct raw

theorem idsOf_cons (wanted : Request → Bool) {sessions : List Session} (call : Call sessions)
    (calls : List (Call sessions)) (answer : Answer) (answers : List Answer) :
    idsOf wanted (call :: calls) (answer :: answers) =
      (if wanted call.request then answer.id?.toList else []) ++ idsOf wanted calls answers := by
  cases hwanted : wanted call.request with
  | false => simp [idsOf, hwanted]
  | true => cases answer <;> simp [idsOf, hwanted, Answer.id?]

section
variable {directory : Bytes} {names : List Bytes} {h : Host} {j : Journal}

/-- Calls number the identifiers they mint from where the journal stands. -/
theorem idsOf_mints_serve (hj : h.journals = [j])
    (calls : List (Call (create directory names true).sessions)) :
    idsOf Request.mints calls (h.serve calls).1 =
      (List.range' j.nextInput (calls.countP fun call => call.request.mints)).map
        Journal.mintedId := by
  induction calls generalizing h j with
  | nil => rfl
  | cons call calls ih =>
    rw [serve_cons hj Prod.mk.eta.symm, idsOf_cons, ih rfl, Request.nextInput_serve,
      List.countP_cons]
    cases hmints : call.request.mints with
    | false => simp
    | true => simp [Request.id?_serve_of_mints hmints, List.range'_succ]

/-- Calls hand out the absolute forms of the paths they are given. -/
theorem idsOf_path?_serve (hj : h.journals = [j])
    (calls : List (Call (create directory names true).sessions)) :
    idsOf (fun r => r.path?.isSome) calls (h.serve calls).1 =
      (calls.filterMap fun call => call.request.path?).map (Path.absolute directory) := by
  induction calls generalizing h j with
  | nil => rfl
  | cons call calls ih =>
    rw [serve_cons hj Prod.mk.eta.symm, idsOf_cons, ih rfl, List.filterMap_cons]
    cases hpath : call.request.path? with
    | none => simp
    | some path =>
      simp [Request.id?_serve_of_path? hpath, directory_of_mem call.known]

/-- Whatever calls return for a prepared input stands for itself in every session. -/
theorem lookupId_of_mem_preparations (hdir : Path.isAbsolute directory = true)
    (hj : h.journals = [j]) {calls : List (Call (create directory names true).sessions)}
    {p : Preparation} (hp : p ∈ preparations (h.serve calls).1) {session : Session}
    (hsession : session ∈ (create directory names true).sessions) :
    session.setting.lookupId p.id = p.id := by
  induction calls generalizing h j with
  | nil => cases hp
  | cons call calls ih =>
    rw [serve_cons hj Prod.mk.eta.symm, preparations_cons] at hp
    rcases List.mem_append.1 hp with hp | hp
    · -- sessions look up alike, since they work in one directory
      have hown := directory_of_mem call.known
      have hsame : session.setting.lookupId p.id = call.session.setting.lookupId p.id := by
        rw [Setting.lookupId, Setting.lookupId, hown, directory_of_mem hsession]
      rw [hsame]
      exact Request.lookupId_of_serve (hown.symm ▸ hdir) (Option.mem_toList.1 hp)
    · exact ih rfl hp

end

/-- **Identifiers are unique and stable.** Whatever the sessions that share a journal are asked, the
identifiers they mint are numbered in the order of the calls and differ from each other and from
every path, and the identifier of a prepared input leads back to what was recorded for it. -/
theorem serve_identifies {directory : Bytes} (hdir : Path.isAbsolute directory = true)
    (names : List Bytes) (calls : List (Call (create directory names true).sessions)) :
    ∃ j, ((create directory names true).serve calls).2.journals = [j] ∧
      Identifies directory calls ((create directory names true).serve calls).1 j := by
  obtain ⟨j, hj, -, hentry, -⟩ :=
    exists_journal_serve (h := create directory names true) (j := {}) rfl calls
  have hnumbered : idsOf Request.mints calls ((create directory names true).serve calls).1 =
      (List.range' 1 (calls.countP fun call => call.request.mints)).map Journal.mintedId :=
    idsOf_mints_serve (h := create directory names true) (j := {}) rfl calls
  have hstable : ∀ p ∈ preparations ((create directory names true).serve calls).1,
      ∀ session ∈ (create directory names true).sessions,
        session.setting.lookupId p.id = p.id :=
    fun p hp session hs => lookupId_of_mem_preparations (j := {}) hdir rfl hp hs
  refine ⟨j, hj, hnumbered, ?_, idsOf_path?_serve (j := {}) rfl calls, ?_, hstable, ?_⟩
  · rw [hnumbered]
    exact List.Nodup.map Journal.mintedId_injective (List.nodup_range' 1)
  · intro path hmem
    rw [hnumbered] at hmem
    obtain ⟨n, -, hn⟩ := List.mem_map.1 hmem
    exact Journal.ne_of_isMinted (Journal.isMinted_mintedId n)
      (Path.isAbsolute_absolute hdir path) hn
  · intro p hp session hs raw
    rw [Setting.correct, hstable p hp session hs, hentry]
    rfl

end Host

/-- The calls mint three identifiers, and a file gets another one although it has the name of the
second. The verdict on the first input is corrected by the pass over it: the finding on the second
line of the fragment is on the third line of the source. -/
theorem pairedCalls_identified :
    Path.isAbsolute [Byte.slash] = true ∧
    Host.idsOf Request.mints pairedCalls (pairedHost.serve pairedCalls).1 =
      [Journal.mintedId 1, Journal.mintedId 2, Journal.mintedId 3] ∧
    Host.idsOf (fun r => r.path?.isSome) pairedCalls (pairedHost.serve pairedCalls).1 =
      [Bytes.ofString "/a.js", Bytes.ofString "/a.js", Bytes.ofString "/a.js",
        Byte.slash :: Journal.mintedId 2] ∧
    ∃ j, (pairedHost.serve pairedCalls).2.journals = [j] ∧
      Host.Identifies [Byte.slash] pairedCalls (pairedHost.serve pairedCalls).1 j ∧
      ∀ session ∈ pairedHost.sessions,
        (session.setting.correct j secondLineVerdict (Journal.mintedId 1)).findings.map
          Finding.line = [3] := by
  obtain ⟨j, hj, hidentifies⟩ :=
    Host.serve_identifies (rfl : Path.isAbsolute [Byte.slash] = true) [[], Bytes.ofString "other"]
      pairedCalls
  refine ⟨rfl, by decide +kernel, by decide +kernel, j, hj, hidentifies, ?_⟩
  intro session hsession
  have hmem : Journal.mintedId 1 ∈
      (Host.preparations (pairedHost.serve pairedCalls).1).map Preparation.id := by
    decide +kernel
  obtain ⟨p, hp, hid⟩ := List.mem_map.1 hmem
  have hcorrected := hidentifies.corrected p hp session hsession secondLineVerdict
  rw [hid] at hcorrected
  rw [hcorrected]
  decide +kernel

end TemplateLint
