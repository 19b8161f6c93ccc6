import TemplateLint.Text.Bytes

/-!
# Imports of a module

A source uses a module when it names the module in quotes right behind `from` or `import`, or
as the first argument of `require` or `import`. The search goes over the bytes of the source
and knows nothing of comments.
-/
namespace TemplateLint.ModuleImport

/-- A byte of an identifier; bytes beyond ASCII count as letters. -/
def isIdentByte (b : UInt8) : Bool :=
  b == Byte.underscore || b == Byte.dollar || 0x80 ≤ b || Byte.isLetter b || Byte.isDigit b

/-- Whether the reverse of a text starts with the reverse of a word, so that the text ends in
that word and not merely in a longer one. -/
def endsInWord (word : String) (reversed : Bytes) : Bool :=
  match Bytes.after? (Bytes.ofString word).reverse reversed with
  | none => false
  | some [] => true
  | some (b :: _) => !isIdentByte b

/-- The white space that may stand before a name. -/
def isGap (b : UInt8) : Bool :=
  Byte.isIndent b || b == Byte.carriageReturn || b == Byte.newline

/-- Whether a quoted name behind a text, given in reverse, is imported by it. -/
def announces (reversed : Bytes) : Bool :=
  match reversed.dropWhile isGap with
  | [] => false
  | b :: before =>
    if b = Byte.openParen then
      let call := before.dropWhile Byte.isIndent
      endsInWord "require" call || endsInWord "import" call
    else endsInWord "from" (b :: before) || endsInWord "import" (b :: before)

/-- Whether one of the occurrences of `needle` is announced as an import. Occurrences are
taken from the left and do not overlap: the next `skip` bytes belong to the last one. The text
already passed is given in reverse. -/
def importsFrom (needle : Bytes) : (reversed : Bytes) → (skip : Nat) → Bytes → Bool
  | _, _, [] => false
  | reversed, skip + 1, b :: s => importsFrom needle (b :: reversed) skip s
  | reversed, 0, b :: s =>
    if needle.isPrefixOf (b :: s) then
      announces reversed || importsFrom needle (b :: reversed) (needle.length - 1) s
    else importsFrom needle (b :: reversed) 0 s

/-- Whether a source imports a module, quoted one way or the other. The empty name is imported
nowhere. -/
def imports (source name : Bytes) : Bool :=
  let quoted (quote : UInt8) : Bytes := quote :: name ++ [quote]
  !name.isEmpty &&
    (importsFrom (quoted Byte.singleQuote) [] 0 source ||
      importsFrom (quoted Byte.doubleQuote) [] 0 source)

end TemplateLint.ModuleImport
