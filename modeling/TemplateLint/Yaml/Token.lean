import TemplateLint.Yaml.Scalar

/-!
# Tokens of YAML

`tokens` cuts a text into tokens. Indentation becomes tokens of its own: a block starts where
its first item stands further right than the block around it, and ends where a line starts
further left.

A key is known to be one only when its colon is met. Tokens are therefore only ever appended,
and the places that turn out to be keys are remembered and marked at the end. A text that
cannot be cut further ends in a token that says why.
-/
namespace TemplateLint.Yaml

/-- A token. -/
inductive Token where
  | streamEnd
  | directive
  | documentStart
  | documentEnd
  | blockListStart
  | blockMapStart
  | blockEnd
  | flowListStart
  | flowListEnd
  | flowMapStart
  | flowMapEnd
  /-- A hyphen before an item. -/
  | item
  /-- A comma. -/
  | comma
  | key
  /-- A colon before a value. -/
  | value
  | alias (name : List Char)
  | anchor (name : List Char)
  | tag (text : List Char)
  | scalar (style : Style) (text : List Char)
  /-- The text cannot be cut further. -/
  | fault (problem : Problem)
  deriving DecidableEq

/-- A place that is a key if a colon follows. -/
structure PossibleKey where
  /-- Whether the place can be nothing else than a key. -/
  required : Bool
  /-- The number of tokens before it. -/
  position : Nat
  cursor : Cursor

/-- The state of cutting a text. -/
structure Scanner where
  cursor : Cursor
  /-- The tokens found, the last one first. -/
  reversed : List Token := []
  /-- The keys found, as numbers of tokens before them, and whether a map starts there. -/
  keys : List (Nat × Bool) := []
  /-- The number of brackets and braces that are open. -/
  flow : Nat := 0
  /-- The indentation of the current block, and those of the blocks around it. -/
  indent : Int := -1
  indents : List Int := []
  /-- Whether a key may start here. -/
  keyAllowed : Bool := true
  /-- The place that may be a key, for every open bracket and the text outside. -/
  possible : List (Option PossibleKey) := [none]

namespace Scanner

/-- One more token. -/
def push (s : Scanner) (t : Token) : Scanner := { s with reversed := t :: s.reversed }

/-- The scanner behind `n` characters. -/
def advance (s : Scanner) (n : Nat) : Scanner := { s with cursor := s.cursor.advance n }

/-- The column of the next character. -/
def column (s : Scanner) : Int := s.cursor.column

/-- Skip white space and comments. Tabs are skipped only where no key may start. The bound is a
length of text. -/
def skipSpace : (bound : Nat) → Scanner → Scanner
  | 0, s => s
  | bound + 1, s =>
    match s.cursor.rest with
    | [] => s
    | c :: _ =>
      if c = '\ufeff' && s.cursor.column = 0 then
        skipSpace bound (s.advance 1)
      else if c = ' ' || (c = '\t' && (0 < s.flow || !s.keyAllowed)) then
        skipSpace bound (s.advance 1)
      else if c = '#' then
        skipSpace bound { s with cursor := s.cursor.skipWhile fun a => !isBreak a }
      else if isBreak c then
        skipSpace bound
          { s with cursor := s.cursor.takeBreak.2, keyAllowed := s.keyAllowed || s.flow = 0 }
      else s

/-- Give up the place that may be a key. -/
def dropKey (s : Scanner) : Except Problem Scanner :=
  match s.possible with
  | some k :: outer =>
    if k.required then .error .colon else .ok { s with possible := none :: outer }
  | _ => .ok s

/-- Remember that a key may start here. -/
def saveKey (s : Scanner) : Except Problem Scanner :=
  if s.keyAllowed then do
    let s ← s.dropKey
    let k : PossibleKey := ⟨s.flow = 0 && s.indent = s.column, s.reversed.length, s.cursor⟩
    return { s with possible := some k :: s.possible.drop 1 }
  else .ok s

/-- End the blocks that are indented further than a column. -/
def unrollFrom (column : Int) : List Int → Scanner → Scanner
  | [], s => s
  | outer :: rest, s =>
    if column < s.indent then
      unrollFrom column rest { s.push .blockEnd with indent := outer, indents := rest }
    else s

/-- End the blocks that are indented further than a column, unless a bracket is open. -/
def unroll (s : Scanner) (column : Int) : Scanner :=
  if 0 < s.flow then s else unrollFrom column s.indents s

/-- Whether a block starts at a column. -/
def startsBlock (s : Scanner) (column : Int) : Bool := s.flow = 0 && s.indent < column

/-- The scanner inside a block that starts at a column. -/
def enter (s : Scanner) (column : Int) : Scanner :=
  { s with indent := column, indents := s.indent :: s.indents }

/-- Start a block with a token, if one starts here. -/
def roll (s : Scanner) (t : Token) : Scanner :=
  if s.startsBlock s.column then (s.push t).enter s.column else s

/-- The end of the text. -/
def endStream (s : Scanner) : Except Problem Scanner := do
  let s ← (s.unroll (-1)).dropKey
  return { s.push .streamEnd with keyAllowed := false }

/-- A mark between documents. -/
def documentMark (s : Scanner) (t : Token) : Except Problem Scanner := do
  let s ← (s.unroll (-1)).dropKey
  return { (s.push t).advance 3 with keyAllowed := false }

/-- A line that says something about the documents. -/
def directiveLine (s : Scanner) : Except Problem Scanner := do
  let s ← (s.unroll (-1)).dropKey
  let line := s.cursor.rest.takeWhile fun a => !isBreak a
  let name := (line.drop 1).takeWhile fun a => !isBlank a
  if name = ['Y', 'A', 'M', 'L'] || name = ['T', 'A', 'G'] then
    return { (s.push .directive).advance line.length with keyAllowed := false }
  else .error .directive

/-- An opening bracket or brace. -/
def openFlow (s : Scanner) (t : Token) : Except Problem Scanner := do
  let s ← s.saveKey
  return { (s.push t).advance 1 with
    flow := s.flow + 1, possible := none :: s.possible, keyAllowed := true }

/-- A closing bracket or brace. -/
def closeFlow (s : Scanner) (t : Token) : Except Problem Scanner := do
  let s ← s.dropKey
  let possible := if s.flow = 0 then s.possible else s.possible.drop 1
  return { (s.push t).advance 1 with flow := s.flow - 1, possible, keyAllowed := false }

/-- A comma. -/
def flowComma (s : Scanner) : Except Problem Scanner := do
  let s ← s.dropKey
  return { (s.push .comma).advance 1 with keyAllowed := true }

/-- A hyphen before an item. -/
def blockItem (s : Scanner) : Except Problem Scanner :=
  if s.flow = 0 && !s.keyAllowed then .error .entryHere
  else do
    let s ← (s.roll .blockListStart).dropKey
    return { (s.push .item).advance 1 with keyAllowed := true }

/-- A question mark before a key. -/
def explicitKey (s : Scanner) : Except Problem Scanner :=
  if s.flow = 0 && !s.keyAllowed then .error .keyHere
  else do
    let s ← (s.roll .blockMapStart).dropKey
    return { (s.push .key).advance 1 with keyAllowed := s.flow = 0 }

/-- The place that the colon here makes a key: on the same line and not too far back. -/
def key? (s : Scanner) : Except Problem (Option PossibleKey) :=
  match s.possible with
  | some k :: _ =>
    if k.cursor.line < s.cursor.line || k.cursor.index + 1024 < s.cursor.index then
      if k.required then .error .colon else .ok none
    else .ok (some k)
  | _ => .ok none

/-- A colon before a value. -/
def mapValue (s : Scanner) : Except Problem Scanner := do
  match ← s.key? with
  | some k =>
    let column : Int := k.cursor.column
    let starts := s.startsBlock column
    let s := { s with keys := (k.position, starts) :: s.keys, possible := none :: s.possible.drop 1 }
    let s := if starts then s.enter column else s
    return { (s.push .value).advance 1 with keyAllowed := false }
  | none =>
    if s.flow = 0 && !s.keyAllowed then .error .valueHere
    else
      let s := { s.roll .blockMapStart with possible := none :: s.possible.drop 1 }
      return { (s.push .value).advance 1 with keyAllowed := s.flow = 0 }

/-- A character of the name of an anchor. -/
def isAnchorCharacter (c : Char) : Bool := c.isAlphanum || c = '_' || c = '-'

/-- Whether an anchor may end before a text. -/
def endsAnchor : List Char → Bool
  | [] => true
  | c :: rest =>
    atBlank (c :: rest) || c = '?' || c = ':' || c = ',' || c = ']' || c = '\x7d' || c = '%' ||
      c = '@' || c = '\x60'

/-- A mark followed by the name of an anchor. -/
def anchorMark (s : Scanner) (t : List Char → Token) : Except Problem Scanner := do
  let s ← s.saveKey
  let behind := s.cursor.rest.drop 1
  let name := behind.takeWhile isAnchorCharacter
  if name.isEmpty || !endsAnchor (behind.drop name.length) then .error .anchor
  else return { (s.push (t name)).advance (name.length + 1) with keyAllowed := false }

/-- A tag: an exclamation mark and what follows up to white space. -/
def tagMark (s : Scanner) : Except Problem Scanner := do
  let s ← s.saveKey
  let text := s.cursor.rest.takeWhile fun a => !(isBlank a || isBreak a || (0 < s.flow && a = ','))
  return { (s.push (.tag text)).advance text.length with keyAllowed := false }

/-- A scalar that has been read. -/
def scalar (s : Scanner) (style : Style) (r : Reading) (keyAllowed : Bool) : Scanner :=
  { s.push (.scalar style r.text) with cursor := r.cursor, keyAllowed }

/-- A scalar between quotes. -/
def quoted (s : Scanner) (single : Bool) : Except Problem Scanner := do
  let s ← s.saveKey
  return s.scalar .quoted (← quotedScalar single s.cursor) false

/-- A block of text. -/
def textBlock (s : Scanner) (literal : Bool) : Except Problem Scanner := do
  let s ← s.dropKey
  return s.scalar .block (← blockScalar literal s.indent s.cursor) true

/-- A plain scalar. -/
def plain (s : Scanner) : Except Problem Scanner := do
  let s ← s.saveKey
  let r ← plainScalar (0 < s.flow) (s.indent + 1) s.cursor
  return s.scalar .plain r r.broken

/-- A character that does not start a plain scalar on its own. -/
def isIndicator (c : Char) : Bool :=
  "-?:,[]#&*!|>%@\x7b\x7d\x22\x27\x60".toList.contains c

/-- Whether a plain scalar starts with a character. -/
def startsPlain (s : Scanner) (c : Char) (rest : List Char) : Bool :=
  !(isBlank c || isBreak c || isIndicator c) ||
    (c = '-' && !rest.head?.any isBlank) ||
    (s.flow = 0 && (c = '?' || c = ':') && !atBlank rest)

/-- The next token behind white space. -/
def nextToken (s : Scanner) (c : Char) (rest : List Char) : Except Problem Scanner :=
  if c = '%' && s.cursor.column = 0 then s.directiveLine
  else if s.cursor.atMark '-' then s.documentMark .documentStart
  else if s.cursor.atMark '.' then s.documentMark .documentEnd
  else if c = '[' then s.openFlow .flowListStart
  else if c = '\x7b' then s.openFlow .flowMapStart
  else if c = ']' then s.closeFlow .flowListEnd
  else if c = '\x7d' then s.closeFlow .flowMapEnd
  else if c = ',' then s.flowComma
  else if c = '-' && atBlank rest then s.blockItem
  else if c = '?' && (0 < s.flow || atBlank rest) then s.explicitKey
  else if c = ':' && (0 < s.flow || atBlank rest) then s.mapValue
  else if c = '*' then s.anchorMark .alias
  else if c = '&' then s.anchorMark .anchor
  else if c = '!' then s.tagMark
  else if c = '|' && s.flow = 0 then s.textBlock true
  else if c = '>' && s.flow = 0 then s.textBlock false
  else if c = '\x27' then s.quoted true
  else if c = '\x22' then s.quoted false
  else if s.startsPlain c rest then s.plain
  else .error .start

/-- Skip white space and find the next token. -/
def step (s : Scanner) : Except Problem Scanner :=
  let s := s.skipSpace (s.cursor.rest.length + 1)
  let s := s.unroll s.column
  match s.cursor.rest with
  | [] => s.endStream
  | c :: rest => s.nextToken c rest

/-- Cut the rest of a text into tokens. The bound is a length of text. -/
def run : (bound : Nat) → Scanner → Scanner
  | 0, s => s
  | bound + 1, s =>
    match s.step with
    | .error p => s.push (.fault p)
    | .ok next => if next.reversed.head? = some .streamEnd then next else run bound next

/-- Tokens with the keys among them marked, counted from a number of tokens before them. -/
def markKeys (keys : List (Nat × Bool)) : (position : Nat) → List Token → List Token
  | _, [] => []
  | position, t :: rest =>
    let marked := t :: markKeys keys (position + 1) rest
    match keys.lookup position with
    | none => marked
    | some true => .blockMapStart :: .key :: marked
    | some false => .key :: marked

end Scanner

/-- The tokens of a text. The last one is the end of the text or a fault. -/
def tokens (text : List Char) : List Token :=
  let s := Scanner.run (text.length + 2) { cursor := { rest := text } }
  Scanner.markKeys s.keys 0 s.reversed.reverse

end TemplateLint.Yaml
