import TemplateLint.Session.Lint

/-!
# Hosts

A host runs several sessions side by side. The sessions have their own settings; they share
one journal, or each keeps its own.
-/
namespace TemplateLint

/-- A setting and the index of the journal it writes to. -/
structure Session where
  setting : Setting
  journal : Nat
  deriving DecidableEq

/-- Sessions and their journals. -/
structure Host where
  sessions : List Session
  journals : List Journal
  deriving DecidableEq

namespace Host

/-- A host with one session for every module name. -/
def create (directory : Bytes) (moduleNames : List Bytes) (shared : Bool) : Host where
  sessions := moduleNames.zipIdx.map fun (name, i) =>
    ⟨Setting.create directory name, if shared then 0 else i⟩
  journals := if shared then [{}] else moduleNames.map fun _ => {}

/-- The journal a session writes to. -/
def journalOf (h : Host) (session : Session) : Journal :=
  (h.journals[session.journal]?).getD {}

/-- Let a session work on its journal. -/
def act {α : Type} (h : Host) (session : Session) (work : Setting → Journal → α × Journal) :
    α × Host :=
  let (result, journal) := work session.setting (h.journalOf session)
  (result, { h with journals := h.journals.set session.journal journal })

end Host
end TemplateLint
