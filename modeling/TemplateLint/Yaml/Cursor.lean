import TemplateLint.Text.Rune

/-!
# Places in a YAML text

A cursor is the text that is left together with the line and column it starts in. Lines end at
a newline, a carriage return, both together, or one of the three separators beyond ASCII.
-/
namespace TemplateLint.Yaml

/-- Why a text cannot be read. -/
inductive Problem where
  /-- A byte or character that no text may hold. -/
  | character
  /-- A character that starts nothing. -/
  | start
  | tab
  /-- A key without its colon. -/
  | colon
  | keyHere
  | valueHere
  | entryHere
  /-- A quoted text that does not end. -/
  | quote
  | escape
  /-- A block of text whose first line is malformed. -/
  | blockHeader
  | anchor
  | tag
  | directive
  /-- Something else where a value should stand. -/
  | content
  /-- A list or map that goes on without a comma. -/
  | comma
  /-- A block whose items are not aligned. -/
  | alignment
  | duplicateKey
  /-- A list or map as a key. -/
  | compoundKey
  | unknownAnchor
  /-- A document that is no map. -/
  | notMap
  deriving DecidableEq

def Problem.description : Problem → String
  | character => "control characters are not allowed"
  | start => "found character that cannot start any token"
  | tab => "found a tab character where an indentation space is expected"
  | colon => "could not find expected ':'"
  | keyHere => "mapping keys are not allowed in this context"
  | valueHere => "mapping values are not allowed in this context"
  | entryHere => "block sequence entries are not allowed in this context"
  | quote => "found unexpected end of stream"
  | escape => "found unknown escape character"
  | blockHeader => "did not find expected comment or line break"
  | anchor => "did not find expected alphabetic or numeric character"
  | tag => "did not find expected tag"
  | directive => "found unknown directive name"
  | content => "did not find expected node content"
  | comma => "did not find expected ',' or closing bracket"
  | alignment => "did not find expected key or entry"
  | duplicateKey => "mapping key already defined"
  | compoundKey => "invalid map key"
  | unknownAnchor => "unknown anchor referenced"
  | notMap => "cannot read the document as a map"

def isBlank (c : Char) : Bool := c = ' ' || c = '\t'

def isBreak (c : Char) : Bool :=
  c = '\n' || c = '\r' || c = '\x85' || c = '\u2028' || c = '\u2029'

/-- Whether a text starts with white space or is empty. -/
def atBlank : List Char → Bool
  | [] => true
  | c :: _ => isBlank c || isBreak c

/-- A place in a text. -/
structure Cursor where
  rest : List Char
  line : Nat := 0
  column : Nat := 0
  /-- Characters before the place. -/
  index : Nat := 0

namespace Cursor

/-- The place behind `n` characters of the same line. -/
def advance (c : Cursor) (n : Nat) : Cursor :=
  { c with rest := c.rest.drop n, column := c.column + n, index := c.index + n }

/-- The place behind one character. -/
def next (c : Cursor) : Cursor := c.advance 1

/-- The character of a line break, in its usual form, and the place behind it. Elsewhere there
is none. -/
def takeBreak (c : Cursor) : List Char × Cursor :=
  match c.rest with
  | [] => ([], c)
  | '\r' :: '\n' :: rest => (['\n'], ⟨rest, c.line + 1, 0, c.index + 2⟩)
  | b :: rest =>
    if isBreak b then
      let written := if b = '\u2028' || b = '\u2029' then b else '\n'
      ([written], ⟨rest, c.line + 1, 0, c.index + 1⟩)
    else ([], c)

/-- The place behind the characters at the start that pass a test. -/
def skipWhile (c : Cursor) (p : Char → Bool) : Cursor := c.advance (c.rest.takeWhile p).length

/-- Whether three given characters stand at the start of a line with white space behind. -/
def atMark (c : Cursor) (mark : Char) : Bool :=
  c.column == 0 &&
    match c.rest with
    | a :: b :: d :: rest => a == mark && b == mark && d == mark && atBlank rest
    | _ => false

/-- Whether a document starts or ends here. -/
def atDocumentMark (c : Cursor) : Bool := c.atMark '-' || c.atMark '.'

end Cursor

/-- White space inside a text: blanks up to the first line break, that break, and later ones. -/
structure Gap where
  blanks : List Char := []
  first : List Char := []
  later : List Char := []
  /-- Whether there is a line break. -/
  broken : Bool := false

/-- What a gap contributes to a text: blanks as they are, one break as a space, and several
breaks as all but the first of them. -/
def Gap.fold (g : Gap) : List Char :=
  if !g.broken then g.blanks
  else if g.first = ['\n'] then if g.later.isEmpty then [' '] else g.later
  else g.first ++ g.later

/-- Read white space. Behind a line break a tab before the column `indent` is refused. The bound
is a length of text. -/
def takeGap (indent : Int) : (bound : Nat) → Gap → Cursor → Except Problem (Gap × Cursor)
  | 0, g, c => .ok (g, c)
  | bound + 1, g, c =>
    match c.rest with
    | [] => .ok (g, c)
    | b :: _ =>
      if isBlank b then
        if g.broken then
          if b = '\t' && (c.column : Int) < indent then .error .tab
          else takeGap indent bound g c.next
        else takeGap indent bound { g with blanks := g.blanks ++ [b] } c.next
      else if isBreak b then
        let (written, c) := c.takeBreak
        if g.broken then takeGap indent bound { g with later := g.later ++ written } c
        else takeGap indent bound { g with blanks := [], first := written, broken := true } c
      else .ok (g, c)

end TemplateLint.Yaml
