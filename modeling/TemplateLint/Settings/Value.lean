import TemplateLint.Number.Decimal
import TemplateLint.Text.Bytes

/-!
# Values of settings

A setting is whatever its source says: nothing, a truth value, a number, a text, a list or a map.
What the program needs is asked for in one of a few forms: as a text, an integer, a truth value,
a list of texts or a map of texts. Every value answers every question, and one that has no
sensible answer gives the empty one.
-/
namespace TemplateLint.Settings

/-- A value of a setting. -/
inductive Value where
  | null
  | flag (b : Bool)
  | integer (n : Int)
  | number (x : Binary64)
  | text (s : Bytes)
  /-- A point in time, in its written form. -/
  | moment (written : Bytes)
  | list (items : List Value)
  /-- A map, each key once. -/
  | map (entries : List (Bytes × Value))

namespace Value

/-- The text of a truth value. -/
def flagText (b : Bool) : Bytes := Bytes.ofString (if b then "true" else "false")

/-- Insert an entry behind all whose keys come before it. -/
def insertEntry (e : Bytes × Bytes) : List (Bytes × Bytes) → List (Bytes × Bytes)
  | [] => [e]
  | f :: rest => if Bytes.le e.1 f.1 then e :: f :: rest else f :: insertEntry e rest

mutual
/-- The general text of a value. Items are parted by spaces, entries come in the order of their
keys. -/
def render : Value → Bytes
  | null => Bytes.ofString "<nil>"
  | flag b => flagText b
  | integer n => Bytes.ofInt n
  | number x => Decimal.write x
  | text s => s
  | moment written => written
  | list items => Byte.openBracket :: Bytes.join [Byte.space] (renderItems items) ++ [Byte.closeBracket]
  | map entries =>
    let written := (renderEntries entries).map fun e => e.1 ++ Byte.colon :: e.2
    Bytes.ofString "map[" ++ Bytes.join [Byte.space] written ++ [Byte.closeBracket]

/-- The general texts of items. -/
def renderItems : List Value → List Bytes
  | [] => []
  | v :: rest => v.render :: renderItems rest

/-- The keys of entries with the general texts of their values, in the order of the keys. -/
def renderEntries : List (Bytes × Value) → List (Bytes × Bytes)
  | [] => []
  | (k, v) :: rest => insertEntry (k, v.render) (renderEntries rest)
end

/-- A value as a text. -/
def toText : Value → Bytes
  | null => []
  | v => v.render

/-- A value as an integer of 64 bits, the least of them if it is too large. Texts may hold any
decimal number, of which the whole part counts; what is no number counts as zero. -/
def toInteger : Value → Int
  | integer n => if n < Integer.signedLimit then n else -Integer.signedLimit
  | null => 0
  | v =>
    match Decimal.read? v.render with
    | some x => x.truncate
    | none => 0

/-- The texts that stand for true. -/
def yes : List Bytes := ["1", "t", "T", "TRUE", "true", "True"].map Bytes.ofString

/-- The texts that stand for false. -/
def no : List Bytes := ["0", "f", "F", "FALSE", "false", "False"].map Bytes.ofString

/-- Read a truth value. -/
def readFlag? (s : Bytes) : Option Bool :=
  if yes.contains s then some true else if no.contains s then some false else none

/-- A value as a truth value. What is none counts as false. -/
def toFlag : Value → Bool
  | flag b => b
  | v => (readFlag? v.render).getD false

/-- A value as a list of texts. -/
def toTexts : Value → List Bytes
  | list items => items.map render
  | _ => []

/-- The text of a value that is one. -/
def text? : Value → Option Bytes
  | text s => some s
  | _ => none

/-- A value as a map of texts, which is empty if one of its values is no text. -/
def toTextMap : Value → List (Bytes × Bytes)
  | map entries => (entries.mapM fun e => (text? e.2).map (e.1, ·)).getD []
  | _ => []

/-- Set an entry, in its place if the key is there. -/
def setEntry (key : Bytes) (value : Value) : List (Bytes × Value) → List (Bytes × Value)
  | [] => [(key, value)]
  | e :: rest => if e.1 = key then (key, value) :: rest else e :: setEntry key value rest

end Value
end TemplateLint.Settings
