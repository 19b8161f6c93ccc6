import TemplateLint.Anchor
import TemplateLint.Failure
import TemplateLint.Template.Fragment

/-!
# The journal of extraction passes

A journal keeps, for every identifier, what the passes over that input left behind. Each field
has its own way of taking in another pass: placeholder lines accumulate, source lines and
anchors are overlaid line by line, and the failure is that of the latest attempt. What is
recorded under one identifier never shows under another, and nothing is ever removed.

The journal also mints identifiers for inputs without a path. Their numbers start at one and
are never used twice.
-/
namespace TemplateLint

/-- What the passes over one input left behind. -/
structure Entry where
  placeholderLines : List Int := []
  origins : LineMap Int := []
  anchors : LineMap (List Anchor) := []
  /-- Why the latest attempt failed, if it did. -/
  failure : Option Cause := none
  deriving DecidableEq

/-- What the passes over all inputs left behind. -/
structure Journal where
  entries : List (Bytes × Entry) := []
  /-- The number of the next minted identifier. -/
  nextInput : Nat := 1
  deriving DecidableEq

namespace Entry

/-- The entry after a pass that succeeded. -/
def addFragment (e : Entry) (f : Fragment) : Entry where
  placeholderLines := e.placeholderLines ++ f.placeholderLines
  origins := e.origins.merge f.origins
  anchors := e.anchors.merge f.anchors
  failure := none

/-- The entry after an attempt that failed. -/
def addFailure (e : Entry) (cause : Cause) : Entry := { e with failure := some cause }

/-- The entry after an attempt. -/
def addAttempt (e : Entry) : Except Cause Fragment → Entry
  | .ok f => e.addFragment f
  | .error cause => e.addFailure cause

end Entry

namespace Journal

/-- The entry of an identifier, empty when nothing was recorded. -/
def entry (j : Journal) (id : Bytes) : Entry := (j.entries.lookup id).getD {}

/-- The journal with one entry changed. -/
def update (j : Journal) (id : Bytes) (change : Entry → Entry) : Journal :=
  { j with entries := (id, change (j.entry id)) :: j.entries.filter fun (k, _) => k != id }

/-- Record an attempt to extract an input. -/
def record (j : Journal) (id : Bytes) (attempt : Except Cause Fragment) : Journal :=
  j.update id (·.addAttempt attempt)

/-- The beginning of every minted identifier. -/
def mintedStart : Bytes := Bytes.ofString "<input css "

/-- The end of every minted identifier. -/
def mintedEnd : Bytes := [Byte.greater]

/-- The `n`th minted identifier. -/
def mintedId (n : Nat) : Bytes := mintedStart ++ Bytes.ofNat n ++ mintedEnd

/-- Mint an identifier. -/
def mint (j : Journal) : Bytes × Journal :=
  (mintedId j.nextInput, { j with nextInput := j.nextInput + 1 })

/-- Whether an identifier has the form of a minted one. -/
def isMinted (id : Bytes) : Bool :=
  Bytes.startsWith mintedStart id && Bytes.endsWith mintedEnd id

end Journal
end TemplateLint
