import TemplateLint.Text.Bytes

/-!
# Failures of extraction

A failure is a cause. Malformed input is reported at the place where it is malformed; any
other cause is an internal failure of the extractor. The wording of every cause stands here.
-/
namespace TemplateLint

/-- Input that cannot be read, at coordinates of the source text. -/
structure Malformed where
  /-- Identifier of the input. -/
  file : Bytes
  line : Int
  column : Int
  reason : Bytes
  deriving DecidableEq

/-- `file:line:column: reason`. -/
def Malformed.message (m : Malformed) : Bytes :=
  m.file ++ Bytes.ofString ":" ++ Bytes.ofInt m.line ++ Bytes.ofString ":" ++
    Bytes.ofInt m.column ++ Bytes.ofString ": " ++ m.reason

/-- Why an extraction failed. -/
inductive Cause where
  /-- The input is malformed. -/
  | malformed (place : Malformed)
  /-- The extractor gave up on an input that is not to blame. -/
  | extraction (detail : Bytes)
  /-- Any other cause. -/
  | plain (text : Bytes)
  /-- A cause met while doing something else. -/
  | during (context : Bytes) (cause : Cause)
  deriving DecidableEq

namespace Cause

/-- The text shown for a cause. -/
def message : Cause → Bytes
  | malformed place => place.message
  | extraction detail => Bytes.ofString "extraction failed: " ++ detail
  | plain text => text
  | during context cause => context ++ Bytes.ofString ": " ++ cause.message

/-- The malformed place that a cause goes back to. -/
def malformed? : Cause → Option Malformed
  | malformed place => some place
  | extraction _ => none
  | plain _ => none
  | during _ cause => cause.malformed?

/-- Whether a cause goes back to the extractor giving up. -/
def isExtraction : Cause → Bool
  | malformed _ => false
  | extraction _ => true
  | plain _ => false
  | during _ cause => cause.isExtraction

end Cause

/-- How a recorded failure is surfaced. -/
inductive FailureKind where
  /-- Reported at once, and leaves later results alone. -/
  | malformed
  /-- Kept back and attached to the result. -/
  | other
  /-- No kind at all. -/
  | unknown
  deriving DecidableEq

namespace FailureKind

/-- The kind a number stands for. -/
def ofCode (n : Int) : FailureKind :=
  if n = 1 then malformed else if n = 2 then other else unknown

def name : FailureKind → Bytes
  | malformed => Bytes.ofString "syntax"
  | other => Bytes.ofString "other"
  | unknown => Bytes.ofString "unknown"

end FailureKind

/-- Malformed input is one kind of failure and everything else the other. -/
def Cause.kind (cause : Cause) : FailureKind :=
  if cause.malformed?.isSome then .malformed else .other

end TemplateLint
