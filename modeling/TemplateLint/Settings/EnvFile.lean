import TemplateLint.Text.Blank

/-!
# Files of environment variables

A file of variables holds a statement a line: a name, an equals sign or a colon, and a value.
The word `export` may come first, and lines that start with a hash are comments. A value may
stand between quotes and then run over several lines. Without quotes it ends at the last hash
behind white space. Except between single quotes, a dollar sign and a name of capitals stand
for the value of a variable that the file has set before.
-/
namespace TemplateLint.EnvFile

/-- Why a file cannot be read. -/
inductive Problem where
  /-- A character that no name may hold. -/
  | character
  /-- A quote that does not end. -/
  | unterminated
  deriving DecidableEq

def Problem.description : Problem → Bytes
  | character => Bytes.ofString "unexpected character in variable name"
  | unterminated => Bytes.ofString "unterminated quoted value"

/-- White space inside a line. -/
def isSpace (n : Nat) : Bool :=
  n = 0x09 || n = 0x0b || n = 0x0c || n = 0x0d || n = 0x20 || n = 0x85 || n = 0xa0

/-- Drop the characters at the start of a text that pass a test. -/
def dropRunes (test : Nat → Bool) (s : Bytes) : Bytes :=
  Rune.encodeAll ((Rune.decode s).dropWhile fun r => test r.code)

/-- Drop the characters at the end of a text that pass a test. -/
def dropLastRunes (test : Nat → Bool) (s : Bytes) : Bytes :=
  Rune.encodeAll ((Rune.decode s).reverse.dropWhile fun r => test r.code).reverse

/-- Drop white space at the start of a line. -/
def dropSpace (s : Bytes) : Bytes := dropRunes isSpace s

/-- A byte that a name may hold: a letter, a number, an underscore or a dot. Bytes above ASCII
count as the letters and numbers of the same code. -/
def isNameByte (b : UInt8) : Bool :=
  Byte.isLetter b || Byte.isDigit b || b = Byte.underscore || b = Byte.dot ||
    b = 0xaa || b = 0xb2 || b = 0xb3 || b = 0xb5 || b = 0xb9 || b = 0xba ||
    (0xbc ≤ b && b ≤ 0xbe) || (0xc0 ≤ b && b != 0xd7 && b != 0xf7)

/-- Where the next statement starts, behind white space and comments. The bound is a length. -/
def statement? : (bound : Nat) → Bytes → Option Bytes
  | 0, _ => none
  | bound + 1, s =>
    match dropRunes Blank.isBlank s with
    | [] => none
    | b :: rest =>
      if b = Byte.hash then statement? bound (rest.dropWhile (· != Byte.newline))
      else some (b :: rest)

/-- Drop the word `export` at the start of a statement. -/
def dropExport (s : Bytes) : Bytes :=
  match Bytes.after? (Bytes.ofString "export") s with
  | some rest =>
    let behind := dropSpace rest
    if behind.length < rest.length then behind else s
  | none => s

/-- Split a statement at the mark behind its name, given what has been passed over. Without a
mark all of it is left. -/
def splitName (reversed : Bytes) : Bytes → Except Problem (Bytes × Bytes)
  | [] => .ok ([], reversed.reverse)
  | b :: rest =>
    if b = Byte.equals || b = Byte.colon then .ok (reversed.reverse, rest)
    else if isSpace b.toNat || isNameByte b then splitName (b :: reversed) rest
    else .error .character

/-- The name of a statement, and what follows. -/
def nameOf (s : Bytes) : Except Problem (Bytes × Bytes) := do
  let (name, rest) ← splitName [] (dropExport (dropSpace s))
  return (dropLastRunes Blank.isBlank name, dropSpace rest)

/-- A byte of a name that stands for a value. -/
def isReferenceByte (b : UInt8) : Bool := Byte.isUpper b || Byte.isDigit b || b = Byte.underscore

/-- Drop one byte if it comes first. -/
def dropByte (b : UInt8) : Bytes → Bytes
  | [] => []
  | a :: rest => if a = b then rest else a :: rest

/-- The name behind a dollar sign, and how long the reference is without the sign. It may stand
in braces, behind a parenthesis or not. -/
def referenceAt (s : Bytes) : Bytes × Nat :=
  let start := dropByte Byte.openBrace (dropByte Byte.openParen s)
  let name := start.takeWhile isReferenceByte
  (name, s.length - (dropByte Byte.closeBrace (start.drop name.length)).length)

/-- A text with every reference replaced by the value of its variable. A backslash before a
reference keeps it as it is. The first argument counts bytes that have been dealt with. -/
def expandFrom (known : List (Bytes × Bytes)) : (skip : Nat) → Bytes → Bytes
  | _, [] => []
  | skip + 1, _ :: rest => expandFrom known skip rest
  | 0, b :: rest =>
    if b = Byte.dollar then
      let (name, length) := referenceAt rest
      let written := if name.isEmpty then b :: rest.take length else (known.lookup name).getD []
      written ++ expandFrom known length rest
    else
      match b, rest with
      | 0x5c, 0x24 :: behind =>
        let length := (referenceAt behind).2
        Byte.dollar :: behind.take length ++ expandFrom known (length + 1) rest
      | _, _ => b :: expandFrom known 0 rest

/-- A text with every reference replaced. The latest value of a name comes first. -/
def expand (known : List (Bytes × Bytes)) (s : Bytes) : Bytes := expandFrom known 0 s

/-- A text with the escapes of line ends replaced. -/
def expandLineEnds : Bytes → Bytes
  | [] => []
  | [b] => [b]
  | b :: c :: rest =>
    if b = Byte.backslash && c != Byte.newline then
      let written :=
        if c = 0x6e then [Byte.newline] else if c = 0x72 then [Byte.carriageReturn] else [b, c]
      written ++ expandLineEnds rest
    else b :: expandLineEnds (c :: rest)

/-- A text without the backslashes before anything but a dollar sign. -/
def dropBackslashes : Bytes → Bytes
  | [] => []
  | [b] => [b]
  | b :: c :: rest =>
    if b = Byte.backslash && c != Byte.dollar then c :: dropBackslashes rest
    else b :: dropBackslashes (c :: rest)

/-- The value between quotes: what stands before the first quote that no backslash precedes,
without quotes at its ends, and what follows. The first argument is the byte before. -/
def untilQuote (quote : UInt8) (previous : UInt8) : (reversed : Bytes) → Bytes → Option (Bytes × Bytes)
  | _, [] => none
  | reversed, b :: rest =>
    if b = quote && previous != Byte.backslash then some (Bytes.trim (· == quote) reversed.reverse, rest)
    else untilQuote quote b (b :: reversed) rest

/-- Cut a line at its last hash behind white space. -/
def cutComment (line : List Rune) : List Rune :=
  let rec last? : (previous : Rune) → List Rune → Option Nat
    | _, [] => none
    | previous, r :: rest =>
      match last? r rest with
      | some n => some (n + 1)
      | none => if r.code = 0x23 && isSpace previous.code then some 1 else none
  match line with
  | [] => []
  | r :: rest =>
    match last? r rest with
    | some n => line.take n
    | none => line

/-- The value of a line without quotes. -/
def plainValue (known : List (Bytes × Bytes)) (line : Bytes) : Bytes :=
  let kept := Rune.encodeAll (cutComment (Rune.decode line))
  expand known (dropLastRunes isSpace (dropSpace kept))

/-- The value of a statement, and what follows. -/
def valueOf (known : List (Bytes × Bytes)) (s : Bytes) : Except Problem (Bytes × Bytes) :=
  match s with
  | b :: rest =>
    if b = Byte.doubleQuote || b = Byte.singleQuote then
      match untilQuote b b [] rest with
      | none => .error .unterminated
      | some (value, behind) =>
        if b = Byte.doubleQuote then
          .ok (expand known (dropBackslashes (expandLineEnds value)), behind)
        else .ok (value, behind)
    else
      let line := s.takeWhile fun b => b != Byte.newline && b != Byte.carriageReturn
      .ok (plainValue known line, s.drop line.length)
  | [] => .ok ([], [])

/-- Read the statements of a text, given the variables set so far, the latest first. The bound
is a length of text. -/
def readFrom : (bound : Nat) → (known : List (Bytes × Bytes)) → Bytes →
    Except Problem (List (Bytes × Bytes))
  | 0, known, _ => .ok known
  | bound + 1, known, s =>
    match statement? (s.length + 1) s with
    | none => .ok known
    | some start => do
      let (name, rest) ← nameOf start
      let (value, rest) ← valueOf known rest
      readFrom bound ((name, value) :: known) rest

/-- The variables that a file sets, the latest first. -/
def read (s : Bytes) : Except Problem (List (Bytes × Bytes)) :=
  let text := Bytes.replaceAll [Byte.carriageReturn, Byte.newline] [Byte.newline] s
  readFrom (text.length + 1) [] text

end TemplateLint.EnvFile
