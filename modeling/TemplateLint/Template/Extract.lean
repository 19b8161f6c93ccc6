import TemplateLint.Failure
import TemplateLint.Template.Fragment
import TemplateLint.Template.Scan

/-!
# Extraction

Extraction turns a source into a fragment. A source that does not import the module whose
templates are wanted yields the empty fragment without being scanned.
-/
namespace TemplateLint

/-- The module whose import marks a source unless another is named. -/
def defaultModule : Bytes := Bytes.ofString "styled-components"

namespace Fragment

/-- The failure for a construct that is left open. -/
def unclosed (source id : Bytes) (u : Scan.Unclosed) : Cause :=
  let position := Position.ofOffset source u.offset
  .malformed ⟨id, position.line, position.column, u.reason⟩

/-- The fragment of a source that is known under an identifier. -/
def extract (source id moduleName : Bytes) : Except Cause Fragment :=
  if !Bytes.isUtf8 source then
    .error (.extraction (id ++ Bytes.ofString " is not valid UTF-8"))
  else if !ModuleImport.imports source moduleName then .ok {}
  else
    match Scan.templates source with
    | .error u => .error (unclosed source id u)
    | .ok templates => .ok (ofLines (linesOf source {} templates))

end Fragment
end TemplateLint
