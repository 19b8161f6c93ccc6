import TemplateLint.Yaml.Cursor

/-!
# Scalars as they are written

A scalar is written plain, between single or double quotes, or as a block of lines. Each
function here reads one scalar from its start and gives its text and the place behind it.
-/
namespace TemplateLint.Yaml

/-- How a scalar is written. -/
inductive Style where
  | plain
  | quoted
  | block
  deriving DecidableEq

/-- A scalar that has been read. -/
structure Reading where
  text : List Char
  cursor : Cursor
  /-- Whether a line break was passed behind the scalar. -/
  broken : Bool := false

/-! ### Plain scalars -/

/-- A character that means something inside brackets and braces. -/
def isFlowMark (c : Char) : Bool :=
  c = ',' || c = '?' || c = '[' || c = ']' || c = '\x7b' || c = '\x7d'

/-- The length of the word at the start of a text. A colon before white space ends it, and so do
brackets, braces and commas inside of them. -/
def wordLength (flow : Bool) : List Char → Nat
  | [] => 0
  | c :: rest =>
    if isBlank c || isBreak c then 0
    else if c = ':' && atBlank rest then 0
    else if flow && isFlowMark c then 0
    else wordLength flow rest + 1

/-- Read words and the gaps between them. The bound is a length of text. -/
def plainFrom (flow : Bool) (indent : Int) :
    (bound : Nat) → (text : List Char) → Cursor → Except Problem Reading
  | 0, text, c => .ok ⟨text, c, false⟩
  | bound + 1, text, c => do
    let size := wordLength flow c.rest
    let text := text ++ c.rest.take size
    let c := c.advance size
    let (gap, c) ← takeGap indent (c.rest.length + 1) {} c
    let ends := !flow && (c.column : Int) < indent
    if ends || c.atDocumentMark || c.rest.head? == some '#' || wordLength flow c.rest == 0 then
      return ⟨text, c, gap.broken⟩
    else plainFrom flow indent bound (text ++ gap.fold) c

/-- Read a plain scalar. Outside brackets its later lines start at column `indent` or behind. -/
def plainScalar (flow : Bool) (indent : Int) (c : Cursor) : Except Problem Reading :=
  plainFrom flow indent (c.rest.length + 1) [] c

/-! ### Quoted scalars -/

/-- The number that hexadecimal digits write. -/
def hexValue? (digits : List Char) : Option Nat :=
  digits.foldlM
    (fun value d =>
      if Byte.isHexDigit d.toUInt8 && d.toNat < 0x80 then
        some (value * 16 + Byte.digitValue d.toUInt8)
      else none)
    0

/-- The character written by the `count` hexadecimal digits behind an escape. -/
def codedCharacter? (count : Nat) (rest : List Char) : Option Char := do
  if rest.length < count then none
  else
    let n ← hexValue? (rest.take count)
    if n.isValidChar then some (Char.ofNat n) else none

/-- The character that an escape stands for and the number of characters behind the backslash
that write it. -/
def escaped? : List Char → Option (Char × Nat)
  | [] => none
  | e :: rest =>
    match e with
    | '0' => some ('\x00', 1)
    | 'a' => some ('\x07', 1)
    | 'b' => some ('\x08', 1)
    | 't' => some ('\t', 1)
    | '\t' => some ('\t', 1)
    | 'n' => some ('\n', 1)
    | 'v' => some ('\x0b', 1)
    | 'f' => some ('\x0c', 1)
    | 'r' => some ('\r', 1)
    | 'e' => some ('\x1b', 1)
    | ' ' => some (' ', 1)
    | '\x22' => some ('\x22', 1)
    | '\x27' => some ('\x27', 1)
    | '/' => some ('/', 1)
    | '\\' => some ('\\', 1)
    | 'N' => some ('\x85', 1)
    | '_' => some ('\xa0', 1)
    | 'L' => some ('\u2028', 1)
    | 'P' => some ('\u2029', 1)
    | 'x' => (codedCharacter? 2 rest).map (·, 3)
    | 'u' => (codedCharacter? 4 rest).map (·, 5)
    | 'U' => (codedCharacter? 8 rest).map (·, 9)
    | _ => none

/-- What ends a run of characters in a quoted scalar. -/
inductive RunEnd where
  /-- The closing quote. -/
  | quote
  /-- White space or the end of the text. -/
  | gap
  /-- A line break behind a backslash. -/
  | escapedBreak

/-- Read characters up to white space or the closing quote, which are left. The bound is a
length of text. -/
def quotedRun (single : Bool) :
    (bound : Nat) → (text : List Char) → Cursor → Except Problem (List Char × Cursor × RunEnd)
  | 0, text, c => .ok (text, c, .gap)
  | bound + 1, text, c =>
    match c.rest with
    | [] => .ok (text, c, .gap)
    | a :: rest =>
      if isBlank a || isBreak a then .ok (text, c, .gap)
      else if single then
        if a = '\x27' then
          if rest.head? == some '\x27' then quotedRun single bound (text ++ [a]) (c.advance 2)
          else .ok (text, c, .quote)
        else quotedRun single bound (text ++ [a]) c.next
      else if a = '\x22' then .ok (text, c, .quote)
      else if a = '\\' then
        if rest.head?.any isBreak then .ok (text, c.next.takeBreak.2, .escapedBreak)
        else
          match escaped? rest with
          | some (e, size) => quotedRun single bound (text ++ [e]) (c.advance (size + 1))
          | none => .error .escape
      else quotedRun single bound (text ++ [a]) c.next

/-- Read runs and the gaps between them up to the closing quote. A line break behind a backslash
leaves nothing but the breaks behind it. The bound is a length of text. -/
def quotedFrom (single : Bool) :
    (bound : Nat) → (text : List Char) → Cursor → Except Problem Reading
  | 0, _, _ => .error .quote
  | bound + 1, text, c =>
    if c.atDocumentMark || c.rest.isEmpty then .error .quote
    else do
      let (text, c, ending) ← quotedRun single (c.rest.length + 1) text c
      match ending with
      | .quote => return ⟨text, c.next, false⟩
      | .gap =>
        let (gap, c) ← takeGap 0 (c.rest.length + 1) {} c
        quotedFrom single bound (text ++ gap.fold) c
      | .escapedBreak =>
        let (gap, c) ← takeGap 0 (c.rest.length + 1) { broken := true } c
        quotedFrom single bound (text ++ gap.fold) c

/-- Read a quoted scalar from its opening quote. -/
def quotedScalar (single : Bool) (c : Cursor) : Except Problem Reading :=
  quotedFrom single (c.rest.length + 1) [] c.next

/-! ### Block scalars -/

/-- What happens to line breaks at the end of a block. -/
inductive Chomping where
  /-- One is kept. -/
  | clip
  /-- None is kept. -/
  | strip
  /-- All are kept. -/
  | keep
  deriving DecidableEq

def chomping? : Option Char → Option Chomping
  | some '+' => some .keep
  | some '-' => some .strip
  | _ => none

/-- The indentation that the first line of a block asks for, zero if it does not. -/
def increment? : Option Char → Option Nat
  | some c => if c.isDigit then some (c.toNat - 0x30) else none
  | none => none

/-- The chomping and increment in the first line of a block, in either order, and the place
behind them. -/
def blockHeader (c : Cursor) : Except Problem (Chomping × Nat × Cursor) :=
  let read : Option Chomping × Option Nat × Cursor :=
    match chomping? c.rest.head? with
    | some chomping =>
      let c := c.next
      match increment? c.rest.head? with
      | some n => (some chomping, some n, c.next)
      | none => (some chomping, none, c)
    | none =>
      match increment? c.rest.head? with
      | some n =>
        let c := c.next
        match chomping? c.rest.head? with
        | some chomping => (some chomping, some n, c.next)
        | none => (none, some n, c)
      | none => (none, none, c)
  if read.2.1 = some 0 then .error .blockHeader
  else .ok (read.1.getD .clip, read.2.1.getD 0, read.2.2)

/-- The line breaks and indentation before a line of a block: the breaks, the largest column
reached and the place behind them. An `indent` of zero is not known yet. The bound is a length
of text. -/
def blockBreaks (indent : Nat) :
    (bound : Nat) → (breaks : List Char) → (largest : Nat) → Cursor →
      Except Problem (List Char × Nat × Cursor)
  | 0, breaks, largest, c => .ok (breaks, largest, c)
  | bound + 1, breaks, largest, c =>
    let spaces := (c.rest.takeWhile (· == ' ')).length
    let c := c.advance (if indent = 0 then spaces else min spaces (indent - c.column))
    let largest := max largest c.column
    match c.rest with
    | [] => .ok (breaks, largest, c)
    | a :: _ =>
      if (indent = 0 || c.column < indent) && a = '\t' then .error .tab
      else if isBreak a then
        let (written, c) := c.takeBreak
        blockBreaks indent bound (breaks ++ written) largest c
      else .ok (breaks, largest, c)

/-- The lines of a block: its text, the break behind the last line, the breaks behind that one
and the place behind them. `pending` is the break before the line at hand and `breaks` the ones
behind it. The bound is a length of text. -/
def blockLines (literal : Bool) (indent : Nat) :
    (bound : Nat) → (text pending breaks : List Char) → (indented : Bool) → Cursor →
      Except Problem (List Char × List Char × List Char × Cursor)
  | 0, text, pending, breaks, _, c => .ok (text, pending, breaks, c)
  | bound + 1, text, pending, breaks, indented, c =>
    if c.column != indent || c.rest.isEmpty then .ok (text, pending, breaks, c)
    else do
      let blank := c.rest.head?.any isBlank
      let joint :=
        if !literal && !indented && !blank && pending == ['\n'] then
          if breaks.isEmpty then [' '] else []
        else pending
      let line := c.rest.takeWhile fun a => !isBreak a
      let (pending, c) := (c.advance line.length).takeBreak
      let text := text ++ joint ++ breaks ++ line
      let (breaks, _, c) ← blockBreaks indent (c.rest.length + 1) [] 0 c
      blockLines literal indent bound text pending breaks blank c

/-- Read a block scalar from its mark. `indent` is the indentation of the block around it. -/
def blockScalar (literal : Bool) (indent : Int) (c : Cursor) : Except Problem Reading := do
  let (chomping, increment, c) ← blockHeader c.next
  let c := c.skipWhile isBlank
  let c := if c.rest.head? == some '#' then c.skipWhile fun a => !isBreak a else c
  if !c.rest.head?.all isBreak then .error .blockHeader
  else
    let c := c.takeBreak.2
    let known := if increment = 0 then 0 else (max indent 0).toNat + increment
    let (breaks, largest, c) ← blockBreaks known (c.rest.length + 1) [] 0 c
    let size := if known = 0 then max largest (max (indent + 1).toNat 1) else known
    let (text, pending, breaks, c) ← blockLines literal size (c.rest.length + 1) [] [] breaks false c
    let tail :=
      match chomping with
      | .strip => []
      | .clip => pending
      | .keep => pending ++ breaks
    return ⟨text ++ tail, c, true⟩

end TemplateLint.Yaml
