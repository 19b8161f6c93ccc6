import TemplateLint.Text.PatternReader

/-!
# Ignored paths

Each line of an ignore file is a pattern of paths. `*` stays inside a name, `**` between
slashes does not; a pattern that starts with a slash is tied to the top, any other may start in
any directory; a line that starts with `!` takes back what earlier lines ignore. Everything
else in a line is read as a regular expression, and a line that is none is left out.
-/
namespace TemplateLint.Ignore

/-- A line of an ignore file. -/
structure Rule where
  /-- Whether the line takes back. -/
  negated : Bool
  pattern : Pattern

/-- The content of a line: no comment, no spaces around it, not empty. -/
def content? (line : Bytes) : Option Bytes :=
  let line := Bytes.trimRight (· == Byte.carriageReturn) line
  if line.head? == some Byte.hash then none
  else
    let line := Bytes.trim (· == Byte.space) line
    if line.isEmpty then none else some line

/-- A name with a wildcard before its extension, somewhere inside a directory. -/
def nestedExtension : Pattern :=
  .sequence [.one (.notChars "/+"), .literal "/", .star (.one PatternReader.dot), .literal "*."]

/-- The regular expression for a line without its mark of negation. A wildcard that has its
final form is written without a star until all others are replaced. -/
def expression (line : Bytes) : Bytes :=
  let replace (old new : String) := Bytes.replaceAll (Bytes.ofString old) (Bytes.ofString new)
  let line :=
    if line.head? == some Byte.hash || line.head? == some 0x21 then line.drop 1 else line
  let line :=
    if nestedExtension.matchesWithin line && line.head? != some Byte.slash then
      Byte.slash :: line
    else line
  let line := replace "." "\\." line
  let line := if Bytes.startsWith (Bytes.ofString "/**/") line then line.drop 1 else line
  let line := replace "/**/" "(/|/.+/)" line
  let line := replace "**/" "(|.#$~/)" line
  let line := replace "/**" "(|/.#$~)" line
  let line := replace "\\*" "\\#$~" line
  let line := replace "*" "([^/]*)" line
  let line := replace "?" "\\?" line
  let line := replace "#$~" "*" line
  let ending :=
    if Bytes.endsWith [Byte.slash] line then Bytes.ofString "(|.*)$"
    else Bytes.ofString "(|/.*)$"
  match line ++ ending with
  | 0x2f :: rest => Bytes.ofString "^(|/)" ++ rest
  | text => Bytes.ofString "^(|.*/)" ++ text

/-- The rule of a line, if it has one. -/
def Rule.ofLine? (line : Bytes) : Option Rule := do
  let line ← content? line
  let negated := line.head? == some 0x21
  let pattern ← Pattern.read? (expression (if negated then line.drop 1 else line))
  return ⟨negated, pattern⟩

/-- The rules of some lines. -/
def ofLines (lines : List Bytes) : List Rule := lines.filterMap Rule.ofLine?

/-- Whether a path is ignored. The last rule that matches it decides. -/
def isIgnored (rules : List Rule) (path : Bytes) : Bool :=
  rules.foldl
    (fun ignored rule => if rule.pattern.matchesWithin path then !rule.negated else ignored) false

end TemplateLint.Ignore
