import TemplateLint.Template.Basic
import TemplateLint.Template.ModuleImport

/-!
# Finding template literals

The scanner reads a source byte by byte with one byte of look-ahead. It knows strings,
comments, regular expressions and templates well enough to tell where a template ends, and
keeps the templates and interpolations that are open on a stack, so nesting has no limit. At
the end of the source the top of the stack is the innermost construct left open.
-/
namespace TemplateLint.Scan

open ModuleImport (isIdentByte)

/-- Where the scanner is inside the innermost open construct. The flag of the first modes says
whether a slash would start a regular expression. -/
inductive Mode where
  /-- In code, between two words. -/
  | code (regex : Bool)
  /-- Inside a word, whose letters so far are given in reverse. -/
  | word (reversed : Bytes)
  | string (quote : UInt8)
  /-- Behind a backslash in a string. -/
  | stringEscape (quote : UInt8)
  | lineComment (regex : Bool)
  /-- Before the star that opens a block comment. -/
  | commentOpen (regex : Bool)
  | comment (regex : Bool)
  /-- Before the slash that closes a block comment. -/
  | commentClose (regex : Bool)
  /-- In a regular expression, inside a bracketed class or not. -/
  | regex (inClass : Bool)
  | regexEscape (inClass : Bool)
  /-- In the flags of a regular expression. -/
  | regexFlags
  /-- In the literal text of a template. -/
  | text
  | textEscape
  /-- Before the brace that opens an interpolation. -/
  | interpolationOpen
  deriving DecidableEq

/-- A construct that is open. -/
inductive Frame where
  /-- A template, with the parts read so far in reverse and the offset of the current one. -/
  | template (start : Nat) (tag : Option Tag) (parts : List Part) (textStart : Nat)
  /-- An interpolation and the number of braces open in it. -/
  | interpolation (start : Nat) (depth : Nat)
  deriving DecidableEq

/-- The state of a scan between two bytes. -/
structure State where
  /-- The bytes already read, nearest first. -/
  passed : Bytes := []
  /-- Their number. -/
  offset : Nat := 0
  mode : Mode := .code true
  /-- The open constructs, innermost first. -/
  stack : List Frame := []
  /-- The tagged templates closed so far, latest first. -/
  found : List Template := []
  deriving DecidableEq

/-- The words behind which a slash starts a regular expression. -/
def regexWords : List Bytes :=
  ["return", "typeof", "instanceof", "in", "of", "new", "delete", "void", "throw", "case", "do",
    "else", "yield", "await"].map Bytes.ofString

/-- The mode behind the last letter of a word. -/
def wordMode (reversed : Bytes) (next : Option UInt8) : Mode :=
  if next.any isIdentByte then .word reversed
  else .code (regexWords.contains reversed.reverse)

/-- The mode behind a slash in code. -/
def slashMode (regex : Bool) (previous next : Option UInt8) : Mode :=
  if next = some Byte.slash then .lineComment regex
  else if next = some Byte.star then .commentOpen regex
  else if regex && previous ≠ some Byte.less then .regex false
  else .code true

/-- The mode behind a byte of code that opens and closes nothing. -/
def codeMode (regex : Bool) (previous : Option UInt8) (b : UInt8) (next : Option UInt8) : Mode :=
  if b = Byte.singleQuote || b = Byte.doubleQuote then .string b
  else if b = Byte.slash then slashMode regex previous next
  else if isIdentByte b then wordMode [b] next
  else if Byte.isIndent b || b = Byte.newline || b = Byte.carriageReturn then .code regex
  else if b = Byte.closeParen || b = Byte.closeBracket then .code false
  else .code true

/-- The mode behind a byte of a string. A newline ends it too. -/
def stringMode (quote b : UInt8) : Mode :=
  if b = Byte.backslash then .stringEscape quote
  else if b = quote || b = Byte.newline then .code false
  else .string quote

/-- The mode behind a byte of a regular expression. -/
def regexMode (inClass : Bool) (b : UInt8) (next : Option UInt8) : Mode :=
  if b = Byte.backslash then .regexEscape inClass
  else if b = Byte.newline then .code false
  else if b = Byte.slash && !inClass then
    if next.any isIdentByte then .regexFlags else .code false
  else if b = Byte.openBracket then .regex true
  else if b = Byte.closeBracket then .regex false
  else .regex inClass

/-- The mode behind a byte of literal text that does not close the template. -/
def textMode (b : UInt8) (next : Option UInt8) : Mode :=
  if b = Byte.backslash then .textEscape
  else if b = Byte.dollar && next = some Byte.openBrace then .interpolationOpen
  else .text

namespace State

/-- The state behind the byte `b` once the mode is settled. -/
def move (s : State) (b : UInt8) (mode : Mode) : State :=
  { s with passed := b :: s.passed, offset := s.offset + 1, mode }

/-- The source from an offset up to the current byte. -/
def textSince (s : State) (start : Nat) : Bytes := (s.passed.take (s.offset - start)).reverse

/-- Read the backtick that opens a template. Only a template outside all others is tagged. -/
def openTemplate (s : State) (b : UInt8) : State :=
  let tag := if s.stack.isEmpty then Tag.behind? s.passed else none
  { s.move b .text with stack := .template s.offset tag [] (s.offset + 1) :: s.stack }

/-- Read the backtick that closes a template. -/
def closeTemplate (s : State) (b : UInt8) : State :=
  match s.stack with
  | .template start tag parts textStart :: outer =>
    let parts := (⟨false, s.textSince textStart, textStart⟩ :: parts).reverse
    let found :=
      match tag with
      | some tag => ⟨tag, start, s.offset, parts⟩ :: s.found
      | none => s.found
    { s.move b (.code false) with stack := outer, found }
  | _ => s.move b (.code false)

/-- Read the dollar sign that starts an interpolation: the literal before it is complete. -/
def startInterpolation (s : State) (b : UInt8) : State :=
  match s.stack with
  | .template start tag parts textStart :: outer =>
    let parts := ⟨false, s.textSince textStart, textStart⟩ :: parts
    { s.move b .interpolationOpen with
      stack := .interpolation s.offset 1 :: .template start tag parts s.offset :: outer }
  | _ => s.move b .interpolationOpen

/-- Read a closing brace in code. -/
def closeBrace (s : State) (b : UInt8) : State :=
  match s.stack with
  | .interpolation start (depth + 2) :: outer =>
    { s.move b (.code true) with stack := .interpolation start (depth + 1) :: outer }
  | .interpolation start _ :: .template opened tag parts _ :: outer =>
    let moved := s.move b .text
    let parts := ⟨true, moved.textSince start, start⟩ :: parts
    { moved with stack := .template opened tag parts moved.offset :: outer }
  | _ => s.move b (.code true)

/-- Read an opening brace in code. -/
def openBrace (s : State) (b : UInt8) : State :=
  match s.stack with
  | .interpolation start depth :: outer =>
    { s.move b (.code true) with stack := .interpolation start (depth + 1) :: outer }
  | _ => s.move b (.code true)

/-- Read a byte of code. -/
def readCode (s : State) (regex : Bool) (b : UInt8) (next : Option UInt8) : State :=
  if b = Byte.backtick then s.openTemplate b
  else if b = Byte.openBrace then s.openBrace b
  else if b = Byte.closeBrace then s.closeBrace b
  else s.move b (codeMode regex s.passed.head? b next)

/-- Read a byte of literal text. -/
def readText (s : State) (b : UInt8) (next : Option UInt8) : State :=
  if b = Byte.backtick then s.closeTemplate b
  else match textMode b next with
    | .interpolationOpen => s.startInterpolation b
    | mode => s.move b mode

/-- Read the byte `b` that `next` follows. -/
def read (s : State) (b : UInt8) (next : Option UInt8) : State :=
  match s.mode with
  | .code regex => s.readCode regex b next
  | .word reversed => s.move b (wordMode (b :: reversed) next)
  | .string quote => s.move b (stringMode quote b)
  | .stringEscape quote => s.move b (.string quote)
  | .lineComment regex =>
    s.move b (if b = Byte.newline then .code regex else .lineComment regex)
  | .commentOpen regex => s.move b (.comment regex)
  | .comment regex =>
    s.move b (if b = Byte.star && next = some Byte.slash then .commentClose regex
      else .comment regex)
  | .commentClose regex => s.move b (.code regex)
  | .regex inClass => s.move b (regexMode inClass b next)
  | .regexEscape inClass => s.move b (.regex inClass)
  | .regexFlags => s.move b (if next.any isIdentByte then .regexFlags else .code false)
  | .text => s.readText b next
  | .textEscape => s.move b .text
  | .interpolationOpen => s.move b (.code true)

/-- Read a whole text. -/
def run (s : State) : Bytes → State
  | [] => s
  | b :: rest => (s.read b rest.head?).run rest

end State

/-- A construct that the end of the source leaves open, with its offset. -/
inductive Unclosed where
  | template (start : Nat)
  | interpolation (start : Nat)
  deriving DecidableEq

namespace Unclosed

def offset : Unclosed → Nat
  | template start => start
  | interpolation start => start

def reason : Unclosed → Bytes
  | template _ => Bytes.ofString "Unclosed template literal"
  | interpolation _ => Bytes.ofString "Unterminated interpolation"

end Unclosed

/-- The tagged templates of a source in their order, or the innermost construct left open. -/
def templates (source : Bytes) : Except Unclosed (List Template) :=
  let final := State.run {} source
  match final.stack with
  | [] => .ok final.found.reverse
  | .template start _ _ _ :: _ => .error (.template start)
  | .interpolation start _ :: _ => .error (.interpolation start)

end TemplateLint.Scan
