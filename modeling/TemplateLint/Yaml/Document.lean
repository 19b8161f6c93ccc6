import TemplateLint.Yaml.Node
import TemplateLint.Yaml.Moment
import TemplateLint.Settings.Tree

/-!
# Documents of settings

`readSettings` reads a YAML text as a tree of settings. Plain scalars stand for nothing, truth
values, numbers and points in time where they look like them, and for texts otherwise; quoted
scalars are always texts. A map has each key once, and the document itself must be a map or
empty. The key `<<` adds the entries of another map that are not given themselves.
-/
namespace TemplateLint.Yaml

/-- A text as bytes. -/
def bytesOf (text : List Char) : Bytes := Bytes.ofString (String.ofList text)

/-- Scalars with a meaning of their own. -/
def namedScalars : List (String × Settings.Value) :=
  [("", .null), ("~", .null), ("null", .null), ("Null", .null), ("NULL", .null),
    ("true", .flag true), ("True", .flag true), ("TRUE", .flag true),
    ("false", .flag false), ("False", .flag false), ("FALSE", .flag false),
    (".nan", .number .nan), (".NaN", .number .nan), (".NAN", .number .nan),
    (".inf", .number (.infinite false)), (".Inf", .number (.infinite false)),
    (".INF", .number (.infinite false)), ("+.inf", .number (.infinite false)),
    ("+.Inf", .number (.infinite false)), ("+.INF", .number (.infinite false)),
    ("-.inf", .number (.infinite true)), ("-.Inf", .number (.infinite true)),
    ("-.INF", .number (.infinite true))]

/-- The scalar with a meaning of its own that a text is. -/
def named? (s : Bytes) : Option Settings.Value :=
  (namedScalars.find? fun e => Bytes.ofString e.1 = s).map (·.2)

/-- Whether a text behind the letter of an exponent is one. -/
def isExponent (s : Bytes) : Bool :=
  let digits := Integer.dropSign s
  !digits.isEmpty && digits.all Byte.isDigit

/-- Whether a text is empty or an exponent with its letter. -/
def isExponentPart : Bytes → Bool
  | [] => true
  | b :: rest => Byte.toLower b = 0x65 && isExponent rest

/-- Whether a text is written like a decimal number: digits, with or without a point among them
or before them, and an exponent or none. -/
def looksDecimal (s : Bytes) : Bool :=
  let s := Integer.dropSign s
  let whole := s.takeWhile Byte.isDigit
  match s.drop whole.length with
  | 0x2e :: rest =>
    let places := rest.takeWhile Byte.isDigit
    !(whole.isEmpty && places.isEmpty) && isExponentPart (rest.drop places.length)
  | rest => !whole.isEmpty && isExponentPart rest

/-- The integer that a text writes behind a mark for its base. -/
def marked? (s : Bytes) : Option Int :=
  let read (base : Nat) (rest : Bytes) : Option Int := (Integer.readBase base rest).toOption
  match s with
  | 0x30 :: 0x62 :: rest => read 2 rest
  | 0x2d :: 0x30 :: 0x62 :: rest => read 2 (Byte.hyphen :: rest)
  | 0x30 :: 0x6f :: rest => read 8 rest
  | 0x2d :: 0x30 :: 0x6f :: rest => read 8 (Byte.hyphen :: rest)
  | _ => none

/-- The number that a text writes, underscores apart. -/
def number? (s : Bytes) : Option Settings.Value :=
  let s := s.filter (· != Byte.underscore)
  match Integer.read s, Integer.readUnsigned s with
  | .ok n, _ => some (.integer n)
  | _, .ok n => some (.integer n)
  | _, _ =>
    match if looksDecimal s then Decimal.read? s else none with
    | some x => some (.number x)
    | none => (marked? s).map .integer

/-- The value of a plain scalar. -/
def plainValue (s : Bytes) : Settings.Value :=
  match named? s, s.head? with
  | some v, _ => v
  | none, some b =>
    if b = Byte.dot then
      match Decimal.read? s with
      | some x => .number x
      | none => .text s
    else if Byte.isDigit b || b = Byte.plus || b = Byte.hyphen then
      match Moment.read? s with
      | some m => .moment m.write
      | none => (number? s).getD (.text s)
    else .text s
  | none, none => .text s

/-- The value of a scalar. A tag that asks for a text makes it one. -/
def scalarValue (tag : List Char) (style : Style) (text : List Char) : Settings.Value :=
  let s := bytesOf text
  if tag = "!!str".toList || tag = "!".toList then .text s
  else if tag.isEmpty then
    match style with
    | .plain => plainValue s
    | _ => .text s
  else if tag.take 2 = "!!".toList then plainValue s
  else .text s

/-- Whether two keys are written the same. -/
def sameKey : Node → Node → Bool
  | .scalar _ _ a, .scalar _ _ b => a = b
  | .list _, .list _ => true
  | .map _, .map _ => true
  | _, _ => false

/-- Whether a key stands among others. -/
def hasRepeatedKey : List (Node × Node) → Bool
  | [] => false
  | e :: rest => rest.any (fun f => sameKey e.1 f.1) || hasRepeatedKey rest

/-- Whether a key asks for the entries of another map. -/
def isMergeKey : Node → Bool
  | .scalar tag .plain text => tag.isEmpty && text = ['<', '<']
  | _ => false

/-- The key of an entry inside the document. -/
def innerKey : Node → Except Problem (Option Bytes)
  | .scalar tag style text => .ok (some (scalarValue tag style text).render)
  | _ => .error .compoundKey

/-- The key of an entry of the document itself. One that stands for nothing is left out. -/
def outerKey : Node → Except Problem (Option Bytes)
  | .scalar tag style text =>
    match scalarValue tag style text with
    | .null => .ok none
    | _ => .ok (some (bytesOf text))
  | _ => .error .compoundKey

/-- The entries that a merged value gives; of several maps the first one wins. -/
def mergedEntries : Settings.Value → Except Problem Settings.Tree
  | .map entries => .ok entries
  | .list items =>
    items.foldrM (fun item below =>
      match item with
      | .map entries => .ok (Settings.Tree.overlay entries below)
      | _ => .error .notMap) []
  | _ => .error .notMap

mutual
/-- The value of a node. -/
def Node.value : Node → Except Problem Settings.Value
  | .scalar tag style text => .ok (scalarValue tag style text)
  | .list items => do return .list (← itemValues items)
  | .map entries =>
    if hasRepeatedKey entries then .error .duplicateKey
    else do
      let (given, merged) ← entryValues innerKey entries
      return .map (given.foldl (fun tree e => Settings.Value.setEntry e.1 e.2 tree) merged)

/-- The values of items. -/
def itemValues : List Node → Except Problem (List Settings.Value)
  | [] => .ok []
  | n :: rest => do return (← n.value) :: (← itemValues rest)

/-- The entries that are given themselves, and those that come from other maps. -/
def entryValues (key : Node → Except Problem (Option Bytes)) :
    List (Node × Node) → Except Problem (Settings.Tree × Settings.Tree)
  | [] => .ok ([], [])
  | (k, v) :: rest => do
    let value ← v.value
    let (given, merged) ← entryValues key rest
    if isMergeKey k then return (given, ← mergedEntries value)
    else
      match ← key k with
      | some name => return ((name, value) :: given, merged)
      | none => return (given, merged)
end

/-- The settings of a document. -/
def Node.settings : Node → Except Problem Settings.Tree
  | .map entries =>
    if hasRepeatedKey entries then .error .duplicateKey
    else do
      let (given, merged) ← entryValues outerKey entries
      return given.foldl (fun tree e => Settings.Value.setEntry e.1 e.2 tree) merged
  | .scalar tag style text =>
    match scalarValue tag style text with
    | .null => .ok []
    | _ => .error .notMap
  | .list _ => .error .notMap

/-- Whether a text may hold a character. -/
def isAllowed (c : Char) : Bool :=
  let n := c.toNat
  n = 0x09 || n = 0x0a || n = 0x0d || (0x20 ≤ n && n ≤ 0x7e) || n = 0x85 ||
    (0xa0 ≤ n && n ≤ 0xd7ff) || (0xe000 ≤ n && n ≤ 0xfffd) || 0x10000 ≤ n

/-- The characters of a text, without a mark of the byte order at its start. -/
def characters (s : Bytes) : Except Problem (List Char) := do
  let marked := (Bytes.after? [0xef, 0xbb, 0xbf] s).getD s
  (Rune.decode marked).mapM fun
    | .char c => if isAllowed c then .ok c else .error .character
    | .stray _ => .error .character

/-- Read the settings that a text holds. -/
def readSettings (s : Bytes) : Except Problem Settings.Tree := do
  match ← document? (← characters s) with
  | some root => root.settings
  | none => return []

end TemplateLint.Yaml
