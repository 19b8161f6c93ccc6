import TemplateLint.Text.Bytes

/-!
# Records of comma-separated fields

A record is a line of fields parted by commas. A field may stand between double quotes; it may
then hold commas and line ends, and a quote inside it is written twice. `read` reads the first
record of a text. Empty lines before it are passed over.
-/
namespace TemplateLint.Record

/-- Why a record cannot be read, with the line it starts in and the place of the fault. Lines
and columns start at one, and a column counts bytes. -/
inductive Problem where
  /-- A text without a record. -/
  | empty
  /-- A quote inside a field that does not start with one. -/
  | bareQuote (start line column : Nat)
  /-- A quoted field that does not end, or goes on behind its closing quote. -/
  | strayQuote (start line column : Nat)
  deriving DecidableEq

/-- The place of a fault in words. -/
def place (start line column : Nat) : Bytes :=
  let record :=
    if start = line then []
    else Bytes.ofString "record on line " ++ Bytes.ofNat start ++ Bytes.ofString "; "
  record ++ Bytes.ofString "parse error on line " ++ Bytes.ofNat line ++
    Bytes.ofString ", column " ++ Bytes.ofNat column ++ Bytes.ofString ": "

def Problem.description : Problem → Bytes
  | empty => Bytes.ofString "EOF"
  | bareQuote start line column =>
    place start line column ++ Bytes.ofString "bare \x22 in non-quoted field"
  | strayQuote start line column =>
    place start line column ++ Bytes.ofString "extraneous or missing \x22 in quoted-field"

/-- A text whose lines all end in a newline alone. A carriage return at the very end is
dropped. -/
def normalize : Bytes → Bytes
  | [] => []
  | [b] => if b = Byte.carriageReturn then [] else [b]
  | b :: c :: rest =>
    if b = Byte.carriageReturn && c = Byte.newline then c :: normalize rest
    else b :: normalize (c :: rest)

/-- Where reading stands. -/
inductive Mode where
  /-- Before a field. -/
  | start
  /-- In a field without quotes. -/
  | plain
  /-- Between quotes. -/
  | quoted
  /-- Behind a quote that may close the field. -/
  | closing

/-- A record while it is read. -/
structure State where
  first : Nat
  line : Nat
  column : Nat := 1
  /-- The fields that are done, the last one first. -/
  fields : List Bytes := []
  /-- The bytes of the current field, the last one first. -/
  field : Bytes := []

namespace State

/-- The state one column further. -/
def next (s : State) : State := { s with column := s.column + 1 }

/-- The state with one more byte in the current field. -/
def add (s : State) (b : UInt8) : State := { s.next with field := b :: s.field }

/-- The state behind the current field. -/
def close (s : State) : State := { s with fields := s.field.reverse :: s.fields, field := [] }

/-- The fields of a record that is done. -/
def result (s : State) : List Bytes := s.close.fields.reverse

end State

/-- Read the rest of a record. -/
def readFrom : Mode → State → Bytes → Except Problem (List Bytes)
  | .quoted, s, [] => .error (.strayQuote s.first s.line s.column)
  | _, s, [] => .ok s.result
  | .quoted, s, b :: rest =>
    if b = Byte.doubleQuote then readFrom .closing s.next rest
    else if b = Byte.newline && !rest.isEmpty then
      readFrom .quoted { s.add b with line := s.line + 1, column := 1 } rest
    else readFrom .quoted (s.add b) rest
  | .closing, s, b :: rest =>
    if b = Byte.doubleQuote then readFrom .quoted (s.add b) rest
    else if b = Byte.comma then readFrom .start s.next.close rest
    else if b = Byte.newline then .ok s.result
    else .error (.strayQuote s.first s.line (s.column - 1))
  | .start, s, b :: rest =>
    if b = Byte.doubleQuote then readFrom .quoted s.next rest
    else if b = Byte.comma then readFrom .start s.next.close rest
    else if b = Byte.newline then .ok s.result
    else readFrom .plain (s.add b) rest
  | .plain, s, b :: rest =>
    if b = Byte.doubleQuote then .error (.bareQuote s.first s.line s.column)
    else if b = Byte.comma then readFrom .start s.next.close rest
    else if b = Byte.newline then .ok s.result
    else readFrom .plain (s.add b) rest

/-- Read the first record of a text. -/
def read (s : Bytes) : Except Problem (List Bytes) :=
  let text := normalize s
  let blank := text.takeWhile (· == Byte.newline)
  match text.drop blank.length with
  | [] => .error .empty
  | b :: rest => readFrom .start { first := blank.length + 1, line := blank.length + 1 } (b :: rest)

end TemplateLint.Record
