import TemplateLint.Finding

/-!
# Rules

The rules a stylesheet is checked by, their names and the severity each has unless it is
overridden. An issue is what a rule says about a place before the configuration is consulted.
-/
namespace TemplateLint.Stylesheet

/-- A rule of the linter. -/
inductive Rule where
  /-- Every line is indented by its depth. -/
  | indentation
  /-- A colour in hexadecimal form has three, four, six or eight digits. -/
  | invalidHex
  /-- A block holds something. -/
  | emptyBlock
  /-- No empty line stands before the end of a block. -/
  | emptyLineAtEnd
  deriving DecidableEq

namespace Rule

/-- Every rule, in the order of the documentation. -/
def all : List Rule := [indentation, invalidHex, emptyBlock, emptyLineAtEnd]

def name : Rule → Bytes
  | indentation => Bytes.ofString "indentation"
  | invalidHex => Bytes.ofString "color-no-invalid-hex"
  | emptyBlock => Bytes.ofString "block-no-empty"
  | emptyLineAtEnd => Bytes.ofString "block-closing-brace-empty-line-before"

/-- The rule with a given name. -/
def ofName? (s : Bytes) : Option Rule := all.find? fun r => r.name == s

/-- The severity of a rule unless it is overridden. -/
def severity : Rule → Severity
  | indentation => .warning
  | invalidHex => .error
  | emptyBlock => .error
  | emptyLineAtEnd => .warning

end Rule

/-- A rule that is broken at a place. -/
structure Issue where
  rule : Rule
  line : Nat
  column : Nat
  message : Bytes
  deriving DecidableEq

/-- The order of places: by line, then by column. -/
def Issue.le (a b : Issue) : Bool :=
  a.line < b.line || (a.line == b.line && a.column ≤ b.column)

end TemplateLint.Stylesheet
