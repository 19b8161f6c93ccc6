import TemplateLint.Anchor
import TemplateLint.Position
import TemplateLint.Template.Basic
import TemplateLint.Text.Blank

/-!
# Fragments

A fragment is the stylesheet that stands for the templates of a source. Every template
becomes a block. An interpolation is replaced by a placeholder that keeps the stylesheet well
formed, and every line remembers which source line and which source columns it came from.

A template is first cut into lines of pieces, then the interpolations are substituted line by
line, and last the lines are moved to the indentation of the block.
-/
namespace TemplateLint

/-- The stylesheet extracted from a source. -/
structure Fragment where
  css : Bytes := []
  /-- The lines that hold nothing but placeholders for whole declarations. -/
  placeholderLines : List Int := []
  /-- The source line of every line. -/
  origins : LineMap Int := []
  /-- The column anchors of every line that has some. -/
  anchors : LineMap (List Anchor) := []
  deriving DecidableEq

/-- A line of a template: the offset that decides its source line, and its pieces, none of
which is empty or holds a newline outside an interpolation. -/
structure BodyLine where
  offset : Nat
  pieces : List Part
  deriving DecidableEq

/-- One line of a fragment. -/
structure FragmentLine where
  text : Bytes := []
  /-- The source line. -/
  origin : Nat
  placeholder : Bool := false
  anchors : List Anchor := []
  deriving DecidableEq

namespace BodyLine

/-- Add a piece at the end, unless it is empty. -/
def push (line : BodyLine) (piece : Part) : BodyLine :=
  if piece.text.isEmpty then line else { line with pieces := line.pieces ++ [piece] }

/-- A line without the carriage return that belongs to its line end. -/
def withoutReturn (text : Bytes) : Bytes :=
  match text.getLast? with
  | some b => if b = Byte.carriageReturn then text.dropLast else text
  | none => text

/-- Continue with the lines of a literal text, given with the offset of the first of them. The
lines that are complete come first, the one still open last. -/
def addLines (line : BodyLine) (offset : Nat) : List Bytes → List BodyLine × BodyLine
  | [] => ([], line)
  | [text] => ([], line.push ⟨false, text, offset⟩)
  | text :: rest =>
    let behind := offset + text.length + 1
    let (complete, last) := addLines ⟨behind, []⟩ behind rest
    (line.push ⟨false, withoutReturn text, offset⟩ :: complete, last)

/-- The lines of the parts of a template, the first of them begun already. An interpolation
never ends a line. -/
def ofParts (line : BodyLine) : List Part → List BodyLine
  | [] => [line]
  | part :: rest =>
    if part.interpolated then ofParts (line.push part) rest
    else
      let (complete, last) := line.addLines part.offset (Bytes.lines part.text)
      complete ++ ofParts last rest

end BodyLine

/-- The lines of a template. The first one counts for the line of the opening backtick. -/
def Template.bodyLines (t : Template) : List BodyLine := BodyLine.ofParts ⟨t.start, []⟩ t.parts

namespace Placeholder

/-- Bytes that may stand beside a placeholder for a whole declaration. -/
def isFiller (b : UInt8) : Bool := b == Byte.semicolon || Byte.isIndent b

/-- The literal text that directly follows an interpolation on its line. -/
def textAfter : List Part → Bytes
  | [] => []
  | piece :: _ => if piece.interpolated then [] else piece.text

/-- The literal text on the rest of a line. -/
def restOfLine (pieces : List Part) : Bytes :=
  (pieces.filter fun p => !p.interpolated).flatMap (·.text)

/-- The placeholder for the `n`th interpolation, and whether it stands for a whole
declaration. It does when the line holds nothing else; it is a selector when a block or
another selector follows; otherwise it is a value. -/
def choose (n : Nat) (before : Bytes) (blank : Bool) (pieces : List Part) : Bytes × Bool :=
  let rest := restOfLine pieces
  let trimmed := Bytes.trimBlank rest
  let selector := Bytes.ofString ".sc-selector" ++ Bytes.ofNat n
  if blank && (Bytes.trim isFiller trimmed).isEmpty then
    let closed := (Bytes.trimBlank (textAfter pieces)).head? == some Byte.semicolon
    (Bytes.ofString "-styled-mixin" ++ Bytes.ofNat n ++ Bytes.ofString ": dummyValue" ++
      (if closed then [] else [Byte.semicolon]), true)
  else if trimmed.head? == some Byte.openBrace || trimmed.head? == some Byte.comma then
    (selector, false)
  else if !before.contains Byte.colon && rest.contains Byte.openBrace then (selector, false)
  else (Bytes.ofString "$dummyValue" ++ Bytes.ofNat n, false)

end Placeholder

namespace FragmentLine

/-- Pin the current end of the line to a source column. -/
def pin (line : FragmentLine) (column : Nat) : FragmentLine :=
  { line with anchors := line.anchors ++ [⟨Bytes.runeCount line.text + 1, column⟩] }

/-- Add pieces to a line, the interpolations numbered from `n`. `blank` says that the line so
far holds only filler and placeholders for whole declarations. The number of the next
interpolation is returned as well. -/
def addPieces (source : Bytes) (n : Nat) (line : FragmentLine) (blank : Bool) :
    List Part → FragmentLine × Nat
  | [] => (line, n)
  | piece :: rest =>
    let pinned := line.pin (Position.ofOffset source piece.offset).column
    if piece.interpolated then
      let (text, whole) := Placeholder.choose n line.text blank rest
      addPieces source (n + 1)
        { pinned with text := line.text ++ text, placeholder := line.placeholder || whole }
        (blank && whole) rest
    else
      addPieces source n { pinned with text := line.text ++ piece.text }
        (blank && (Bytes.trim Placeholder.isFiller piece.text).isEmpty) rest

/-- The fragment lines of body lines, before they are moved. -/
def ofBody (source : Bytes) (n : Nat) : List BodyLine → List FragmentLine × Nat
  | [] => ([], n)
  | line :: rest =>
    let origin := (Position.ofOffset source line.offset).line
    let (first, n) := addPieces source n { origin } true line.pieces
    let (others, n) := ofBody source n rest
    (first :: others, n)

/-- A line that shows nothing and stands for nothing. -/
def isVoid (line : FragmentLine) : Bool := Bytes.isBlank line.text && !line.placeholder

/-- The lines without a void first one, unless it is the only one. -/
def dropFirst : List FragmentLine → List FragmentLine
  | [] => []
  | [line] => [line]
  | line :: rest => if line.isVoid then rest else line :: rest

/-- The lines without a void last one. -/
def dropLast (lines : List FragmentLine) : List FragmentLine :=
  match lines.getLast? with
  | some line => if line.isVoid then lines.dropLast else lines
  | none => []

/-- The number of spaces and tabs that start a line. -/
def lead (line : FragmentLine) : Nat := (line.text.takeWhile Byte.isIndent).length

/-- The least lead of the lines that are not blank. -/
def commonLead (lines : List FragmentLine) : Nat :=
  (((lines.filter fun l => !Bytes.isBlank l.text).map lead).min?).getD 0

/-- A line whose common lead is replaced by an indentation. A blank line becomes empty. -/
def move (indent : Bytes) (common : Nat) (line : FragmentLine) : FragmentLine :=
  if Bytes.isBlank line.text then { line with text := [], anchors := [] }
  else
    { line with
      text := indent ++ Bytes.trimRight Byte.isIndent (line.text.drop common)
      anchors := line.anchors.map fun a =>
        { a with fragment := a.fragment + indent.length - common } }

/-- The lines moved to an indentation as a whole. -/
def reindent (indent : Bytes) (lines : List FragmentLine) : List FragmentLine :=
  lines.map (move indent (commonLead lines))

/-- A line whose last character stands for the backtick at an offset. -/
def wrapper (source text : Bytes) (offset : Nat) : FragmentLine :=
  let position := Position.ofOffset source offset
  { text, origin := position.line,
    anchors := [⟨Bytes.runeCount text, position.column⟩] }

end FragmentLine

/-- The numbers of the next block and of the next placeholder. -/
structure Counters where
  selectors : Nat := 0
  placeholders : Nat := 0
  deriving DecidableEq

/-- What opens the block of a template, if its rules are wrapped at all. -/
def Tag.header (n : Nat) : Tag → Option Bytes
  | styled => some (Bytes.ofString ".selector" ++ Bytes.ofNat n ++ Bytes.ofString " \x7b")
  | keyframes =>
    some (Bytes.ofString "@keyframes selector" ++ Bytes.ofNat n ++ Bytes.ofString " \x7b")
  | global => none

/-- The indentation of rules inside a block. -/
def blockIndent : Bytes := Bytes.ofString "  "

/-- The fragment lines of a template. -/
def Template.fragmentLines (source : Bytes) (counters : Counters) (t : Template) :
    List FragmentLine × Counters :=
  let (lines, placeholders) := FragmentLine.ofBody source counters.placeholders t.bodyLines
  let body := FragmentLine.dropLast (FragmentLine.dropFirst lines)
  let wrapped :=
    match t.tag.header counters.selectors with
    | none => FragmentLine.reindent [] body
    | some header =>
      FragmentLine.wrapper source header t.start :: FragmentLine.reindent blockIndent body ++
        [FragmentLine.wrapper source [Byte.closeBrace] t.stop]
  (wrapped, { selectors := counters.selectors + 1, placeholders })

namespace Fragment

/-- The fragment lines of several templates, one template after the other. -/
def linesOf (source : Bytes) : Counters → List Template → List FragmentLine
  | _, [] => []
  | counters, t :: rest =>
    let (lines, counters) := t.fragmentLines source counters
    lines ++ linesOf source counters rest

/-- The lines with their numbers, counted from one. -/
def numbered (lines : List FragmentLine) : List (Int × FragmentLine) :=
  lines.zipIdx.map fun (line, i) => ((i : Int) + 1, line)

/-- The fragment that consists of given lines. -/
def ofLines (lines : List FragmentLine) : Fragment where
  css := lines.flatMap fun line => line.text ++ [Byte.newline]
  placeholderLines := (numbered lines).filterMap fun (n, line) =>
    if line.placeholder then some n else none
  origins := (numbered lines).map fun (n, line) => (n, (line.origin : Int))
  anchors := (numbered lines).filterMap fun (n, line) =>
    if line.anchors.isEmpty then none else some (n, line.anchors)

end Fragment
end TemplateLint
