import TemplateLint.Command.Basic

/-!
# Choosing a command

The command is the first word of a command line that is neither a flag nor the value of one.
A flag whose kind is not known is taken to have a value. Where the word is no command, those
that look like it are suggested: those that are two edits away or less, or start with it.
-/
namespace TemplateLint.Command

/-- Whether an argument is a flag whose value is the next argument. -/
def wantsValue (flags : List Flag) (argument : Bytes) : Bool :=
  match argument with
  | 0x2d :: 0x2d :: name =>
    !name.contains Byte.equals && !(Flag.named? flags name).any Flag.isToggle
  | [0x2d, letter] => letter != Byte.equals && !(Flag.lettered? flags letter).any Flag.isToggle
  | _ => false

/-- Whether an argument starts with a hyphen. -/
def isDashed (argument : Bytes) : Bool := argument.head? = some Byte.hyphen

/-- What ends the flags. -/
def flagsEnd : Bytes := [Byte.hyphen, Byte.hyphen]

/-- The words of a command line that are neither flags nor values. A flag that wants a value
and stands before the last argument, or behind all others, ends them. -/
def words (flags : List Flag) : List Bytes → List Bytes
  | [] => []
  | argument :: rest =>
    if argument = flagsEnd then []
    else if wantsValue flags argument then
      match rest with
      | [] => []
      | _ :: tail => if tail.isEmpty then [] else words flags tail
    else if argument.isEmpty || isDashed argument then words flags rest
    else argument :: words flags rest

/-- A command line without the first occurrence of a word. -/
def dropWord (flags : List Flag) (word : Bytes) : List Bytes → List Bytes
  | [] => []
  | argument :: rest =>
    if argument = flagsEnd then argument :: rest
    else if wantsValue flags argument then
      match rest with
      | [] => [argument]
      | value :: tail => argument :: value :: dropWord flags word tail
    else if argument = word then rest
    else argument :: dropWord flags word rest

/-- One row of the table of edit distances, given the row above and the byte of the row. The
first argument is the entry to the left. -/
def distanceRow (b : UInt8) : (left : Nat) → (above : List Nat) → Bytes → List Nat
  | left, corner :: up :: above, c :: rest =>
    let entry := if b = c then corner else min corner (min left up) + 1
    entry :: distanceRow b entry (up :: above) rest
  | _, _, _ => []

/-- The least number of bytes to insert, delete or replace to get from one text to another. -/
def editDistance (s t : Bytes) : Nat :=
  let row := s.foldl (fun above b =>
    let left := above.headD 0 + 1
    left :: distanceRow b left above t) (List.range (t.length + 1))
  row.getLastD 0

/-- Whether a command is suggested for a word. -/
def isSuggested (word : Bytes) (c : Command) : Bool :=
  let typed := Bytes.toLower word
  let name := Bytes.ofString c.name
  editDistance typed name ≤ 2 || Bytes.startsWith typed name

/-- The commands that are suggested for a word. -/
def suggestions (word : Bytes) : List Command := offered.filter (isSuggested word)

/-- The message for a word that is no command. -/
def unknownMessage (word : Bytes) : Bytes :=
  let lines := (suggestions word).flatMap fun c =>
    Byte.tab :: Bytes.ofString c.name ++ [Byte.newline]
  let advice := if lines.isEmpty then [] else Bytes.ofString "\n\nDid you mean this?\n" ++ lines
  Bytes.ofString "unknown command " ++ Quoted.quote word ++ Bytes.ofString " for " ++
    Quoted.quote programName ++ advice

/-- The command of a command line and the arguments that are left for it, or the word that is
no command. -/
def select (arguments : List Bytes) : Except Bytes (Command × List Bytes) :=
  match words sharedFlags arguments with
  | [] => .ok (bare, arguments)
  | word :: _ =>
    match ofName? word with
    | some command => .ok (command, dropWord sharedFlags word arguments)
    | none => .error word

end TemplateLint.Command
