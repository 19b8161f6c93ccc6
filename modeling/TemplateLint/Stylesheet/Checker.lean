import TemplateLint.Number.Machine
import TemplateLint.Stylesheet.Lexer
import TemplateLint.Stylesheet.Rule

/-!
# Checking a stylesheet

The tokens are walked once. The walk keeps the blocks that are open, whether the value of a
declaration is being read, and the token before the current one. It reports what the block
and colour rules have to say and notes, for every line, the state at its first token;
indentation is judged from those notes.

The spaces that a line should start with are counted by a machine integer and made into a text. A
check breaks down at a line for which there is no such text, whatever rules are switched off.
-/
namespace TemplateLint.Stylesheet

/-- A block that is not closed yet. -/
structure OpenBlock where
  /-- Where its brace stands. -/
  position : Position
  /-- Whether anything but white space and comments has come since. -/
  hasContent : Bool
  deriving DecidableEq

/-- The state at the first token of a line that is not white space. -/
structure LineStart where
  line : Nat
  /-- The number of open blocks. -/
  depth : Nat
  /-- The line starts with a closing brace. -/
  closing : Bool
  /-- The line goes on with the value of a declaration. -/
  continuing : Bool
  deriving DecidableEq

/-- The state of a walk between two tokens. -/
structure Walk where
  /-- The open blocks, innermost first. -/
  blocks : List OpenBlock := []
  inValue : Bool := false
  /-- The token before the current one. -/
  previous : Option Token := none
  /-- The line whose first token was seen last, zero before the first. -/
  lastLine : Nat := 0
  deriving DecidableEq

/-- Whether the next boundary opens a block. Then a colon before it belongs to a selector and
starts no value. -/
def opensBlock (rest : List Token) : Bool :=
  match rest.find? Token.isBoundary with
  | some t => t.kind == .openBrace
  | none => false

/-- `#` and three, four, six or eight hexadecimal digits. -/
def isHexColor : Bytes → Bool
  | [] => false
  | b :: digits =>
    b == Byte.hash && digits.all Byte.isHexDigit &&
      (digits.length == 3 || digits.length == 4 || digits.length == 6 || digits.length == 8)

/-- The open blocks once the innermost is known to hold something. -/
def markContent : List OpenBlock → List OpenBlock
  | [] => []
  | block :: outer => { block with hasContent := true } :: outer

/-- White space that holds an empty line. -/
def isEmptyLine (t : Token) : Bool :=
  t.kind == .space && 2 ≤ t.text.count Byte.newline

/-- What is said when `closing` ends the innermost of the open blocks. -/
def closeIssues (w : Walk) (closing : Token) : List Issue :=
  match w.blocks with
  | [] => []
  | block :: _ =>
    if !block.hasContent then
      [⟨.emptyBlock, block.position.line, block.position.column,
        Bytes.ofString "Unexpected empty block"⟩]
    else if w.previous.any isEmptyLine then
      [⟨.emptyLineAtEnd, closing.position.line, closing.position.column,
        Bytes.ofString "Unexpected empty line before closing brace"⟩]
    else []

/-- What is said about a hash token: inside a value it has to be a colour. -/
def hashIssues (w : Walk) (t : Token) : List Issue :=
  if w.inValue && !isHexColor t.text then
    [⟨.invalidHex, t.position.line, t.position.column,
      Bytes.ofString "Unexpected invalid hex color " ++ Quoted.quote t.text⟩]
  else []

/-- What a token says about its place. -/
def tokenIssues (w : Walk) (t : Token) : List Issue :=
  match t.kind with
  | .closeBrace => closeIssues w t
  | .hash => hashIssues w t
  | _ => []

/-- The line start that a token makes, if it is the first one of its line. -/
def lineStarts (w : Walk) (t : Token) : List LineStart :=
  if t.kind = .space || t.position.line = w.lastLine then []
  else [⟨t.position.line, w.blocks.length, t.kind == .closeBrace, w.inValue⟩]

/-- The open blocks behind a token. -/
def blocksAfter (w : Walk) (t : Token) : List OpenBlock :=
  match t.kind with
  | .space | .comment => w.blocks
  | .openBrace => ⟨t.position, false⟩ :: markContent w.blocks
  | .closeBrace => w.blocks.tail
  | _ => markContent w.blocks

/-- Whether a value is being read behind a token that `rest` follows. -/
def inValueAfter (w : Walk) (t : Token) (rest : List Token) : Bool :=
  match t.kind with
  | .openBrace | .closeBrace | .semicolon => false
  | .colon => w.inValue || (!w.blocks.isEmpty && !opensBlock rest)
  | _ => w.inValue

/-- The state behind a token that `rest` follows. -/
def Walk.next (w : Walk) (t : Token) (rest : List Token) : Walk where
  blocks := blocksAfter w t
  inValue := inValueAfter w t rest
  previous := some t
  lastLine := if t.kind = .space then w.lastLine else t.position.line

/-- Everything the tokens say, in their order. -/
def Walk.issues : Walk → List Token → List Issue
  | _, [] => []
  | w, t :: rest => tokenIssues w t ++ (w.next t rest).issues rest

/-- The starts of all lines, in their order. -/
def Walk.starts : Walk → List Token → List LineStart
  | _, [] => []
  | w, t :: rest => lineStarts w t ++ (w.next t rest).starts rest

/-- The nesting level a line belongs to. -/
def LineStart.level (start : LineStart) : Nat :=
  if start.closing then start.depth - 1 else start.depth

/-- The number of spaces that lines of a level should start with, if a text can hold them. -/
def spaces? (width level : Nat) : Option Nat :=
  Machine.textLength? (Machine.product level width)

/-- The number of spaces that lines of a level should start with. Where no text can hold them the
check breaks down, and the number is the one that was meant. -/
def wantedSpaces (width level : Nat) : Nat := (spaces? width level).getD (level * width)

/-- What is said about the indentation of a line. -/
def indentIssues (width : Nat) (lines : List Bytes) (start : LineStart) : List Issue :=
  let wanted := wantedSpaces width start.level
  let lead := (lines[start.line - 1]?.getD []).takeWhile Byte.isIndent
  if start.continuing || (lead.length = wanted && lead.all (· == Byte.space)) then []
  else [⟨.indentation, start.line, lead.length + 1,
    Bytes.ofString "Expected indentation of " ++ Bytes.ofNat wanted ++ Bytes.ofString " spaces"⟩]

/-- All issues of a stylesheet whose nesting levels are `width` spaces deep: those of the walk
first, those of indentation last. -/
def issues (width : Nat) (css : Bytes) : List Issue :=
  let tokens := tokenize css
  let lines := Bytes.lines css
  Walk.issues {} tokens ++ (Walk.starts {} tokens).flatMap (indentIssues width lines)

/-- A check that broke down. -/
structure Breakdown where
  /-- The line it did not get beyond. -/
  line : Nat
  /-- The number of spaces that no text can hold. -/
  wanted : Int
  deriving DecidableEq

def Breakdown.message (b : Breakdown) : Bytes :=
  Bytes.ofString "line " ++ Bytes.ofNat b.line ++ Bytes.ofString " needs " ++
    Bytes.ofInt b.wanted ++ Bytes.ofString " spaces"

/-- Why a check does not get beyond a line, if it does not. -/
def LineStart.breakdown? (width : Nat) (start : LineStart) : Option Breakdown :=
  if start.continuing || (spaces? width start.level).isSome then none
  else some ⟨start.line, Machine.product start.level width⟩

/-- The first breakdown of a check, if there is one. -/
def breakdown? (width : Nat) (css : Bytes) : Option Breakdown :=
  (Walk.starts {} (tokenize css)).findSome? (LineStart.breakdown? width)

end TemplateLint.Stylesheet
