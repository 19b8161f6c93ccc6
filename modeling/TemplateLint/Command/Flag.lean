import TemplateLint.Number.Integer
import TemplateLint.Settings.Tree
import TemplateLint.Text.Quoted
import TemplateLint.Text.Record

/-!
# Flags of a command line

A flag is written with two hyphens and its name, and its value behind an equals sign or as the
next argument. A toggle takes no argument of its own. Toggles may also have a letter, and
letters may share one hyphen. Flags and other arguments may come in any order; two hyphens
alone end the flags.
-/
namespace TemplateLint.Command

/-- What a flag takes. -/
inductive FlagKind where
  | toggle
  | integer
  | text
  /-- A record of texts. Repeated flags add to it. -/
  | texts
  deriving DecidableEq

/-- A flag. -/
structure Flag where
  name : String
  kind : FlagKind
  /-- The letter of a toggle. -/
  letter : Option UInt8 := none
  /-- What the flag is for. -/
  purpose : String

namespace Flag

/-- The flag as a message names it. -/
def title (f : Flag) : Bytes :=
  let long := Bytes.ofString "--" ++ Bytes.ofString f.name
  match f.letter with
  | some b => Byte.hyphen :: b :: Bytes.ofString ", " ++ long
  | none => long

/-- Whether a flag needs no argument. -/
def isToggle (f : Flag) : Bool := f.kind = .toggle

/-- The flag of a name. -/
def named? (flags : List Flag) (name : Bytes) : Option Flag :=
  flags.find? fun f => Bytes.ofString f.name = name

/-- The flag of a letter. -/
def lettered? (flags : List Flag) (letter : UInt8) : Option Flag :=
  flags.find? fun f => f.letter = some letter

end Flag

/-- Why flags cannot be read. -/
inductive FlagError where
  /-- An argument that starts like a flag and is none. -/
  | malformed (written : Bytes)
  | unknown (name : Bytes)
  | unknownLetter (letters : Bytes)
  /-- A flag whose argument is missing. -/
  | missing (flag : Flag)
  | invalid (flag : Flag) (value cause : Bytes)

/-- The first byte of a text as a character between single quotes. A byte above ASCII shows as
the first byte of its own encoding. -/
def quotedLetter (letters : Bytes) : Bytes :=
  let b := (letters.head?.getD 0).toNat
  let code := if b < 0x80 then b else if b < 0xc0 then 0xc2 else 0xc3
  let inner :=
    if code = 0x27 then [Byte.backslash, Byte.singleQuote]
    else if code = 0x22 then [Byte.doubleQuote]
    else Quoted.quoteRune (.char (Char.ofNat code))
  Byte.singleQuote :: inner ++ [Byte.singleQuote]

def FlagError.message : FlagError → Bytes
  | malformed written => Bytes.ofString "bad flag syntax: " ++ written
  | unknown name => Bytes.ofString "unknown flag: --" ++ name
  | unknownLetter letters =>
    Bytes.ofString "unknown shorthand flag: " ++ quotedLetter letters ++ Bytes.ofString " in -" ++
      letters
  | missing flag => Bytes.ofString "flag needs an argument: --" ++ Bytes.ofString flag.name
  | invalid flag value cause =>
    Bytes.ofString "invalid argument " ++ Quoted.quote value ++ Bytes.ofString " for " ++
      Quoted.quote flag.title ++ Bytes.ofString " flag: " ++ cause

/-- What has been read of a command line. -/
structure Given where
  /-- The values of the flags that were given. -/
  values : Settings.Tree := []
  /-- The other arguments, in their order. -/
  arguments : List Bytes := []

namespace Given

/-- The texts that a flag holds so far. -/
def textsOf (g : Given) (flag : Flag) : List Settings.Value :=
  match g.values.lookup (Bytes.ofString flag.name) with
  | some (.list items) => items
  | _ => []

/-- The cause of a number or truth value that cannot be read. -/
def badNumber (reader : String) (value : Bytes) (fault : Integer.Fault) : Bytes :=
  Bytes.ofString "strconv." ++ Bytes.ofString reader ++ Bytes.ofString ": parsing " ++
    Quoted.quote value ++ Bytes.ofString ": " ++ fault.description

/-- The value that a flag takes from a text. -/
def read (g : Given) (flag : Flag) (value : Bytes) : Except Bytes Settings.Value :=
  match flag.kind with
  | .toggle =>
    match Settings.Value.readFlag? value with
    | some b => .ok (.flag b)
    | none => .error (badNumber "ParseBool" value .malformed)
  | .integer =>
    match Integer.read value with
    | .ok n => .ok (.integer n)
    | .error fault => .error (badNumber "ParseInt" value fault)
  | .text => .ok (.text value)
  | .texts =>
    if value.isEmpty then .ok (.list (g.textsOf flag))
    else
      match Record.read value with
      | .ok fields => .ok (.list (g.textsOf flag ++ fields.map .text))
      | .error p => .error p.description

/-- Set a flag. -/
def set (g : Given) (flag : Flag) (value : Bytes) : Except FlagError Given :=
  match g.read flag value with
  | .ok v => .ok { g with values := Settings.Value.setEntry (Bytes.ofString flag.name) v g.values }
  | .error cause => .error (.invalid flag value cause)

/-- The value of a flag that holds a text. -/
def text (g : Given) (name : String) (default : Bytes) : Bytes :=
  ((g.values.lookup (Bytes.ofString name)).map Settings.Value.toText).getD default

/-- The value of a toggle. -/
def toggle (g : Given) (name : String) : Bool :=
  ((g.values.lookup (Bytes.ofString name)).map Settings.Value.toFlag).getD false

end Given

/-- The value of a toggle that is given without one. -/
def on : Bytes := Bytes.ofString "true"

/-- Read the letters behind one hyphen. A value may follow the last letter behind an equals
sign. -/
def readLetters (flags : List Flag) : Bytes → Given → Except FlagError Given
  | [], g => .ok g
  | b :: rest, g =>
    match Flag.lettered? flags b with
    | none => .error (.unknownLetter (b :: rest))
    | some flag =>
      match rest with
      | 0x3d :: v :: value => g.set flag (v :: value)
      | _ => do readLetters flags rest (← g.set flag on)

/-- A command line while it is read. -/
inductive Reading where
  /-- Between arguments. -/
  | between (given : Given)
  /-- Behind a flag that takes the next argument. -/
  | behind (flag : Flag) (given : Given)
  /-- Where no more flags come. -/
  | finished (given : Given)

/-- One more argument that is no flag. -/
def Given.addArgument (g : Given) (argument : Bytes) : Given :=
  { g with arguments := g.arguments ++ [argument] }

/-- Read what stands behind two hyphens. -/
def readNamed (flags : List Flag) (written : Bytes) (g : Given) : Except FlagError Reading :=
  if written.isEmpty then .ok (.finished g)
  else if written.head? = some Byte.hyphen || written.head? = some Byte.equals then
    .error (.malformed (Byte.hyphen :: Byte.hyphen :: written))
  else
    let (name, value?) := Bytes.cut Byte.equals written
    match Flag.named? flags name, value? with
    | none, _ => .error (.unknown name)
    | some flag, some value => do return .between (← g.set flag value)
    | some flag, none => do
      if flag.isToggle then return .between (← g.set flag on) else return .behind flag g

/-- How the arguments of a test run start, which are passed over. -/
def testStart : Bytes := Bytes.ofString "test."

/-- Read one argument. -/
def readArgument (flags : List Flag) (argument : Bytes) : Reading → Except FlagError Reading
  | .finished g => .ok (.finished (g.addArgument argument))
  | .behind flag g => do return .between (← g.set flag argument)
  | .between g =>
    match argument with
    | 0x2d :: 0x2d :: written => readNamed flags written g
    | 0x2d :: b :: letters =>
      if Bytes.startsWith testStart (b :: letters) then .ok (.between g)
      else do return .between (← readLetters flags (b :: letters) g)
    | _ => .ok (.between (g.addArgument argument))

/-- Read a command line. -/
def readFlags (flags : List Flag) (arguments : List Bytes) : Except FlagError Given := do
  match ← arguments.foldlM (fun r a => readArgument flags a r) (.between {}) with
  | .between g => return g
  | .finished g => return g
  | .behind flag _ => .error (.missing flag)

end TemplateLint.Command
