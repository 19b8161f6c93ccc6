import TemplateLint.Position

/-!
# Tokens of a stylesheet

A token is a piece of a stylesheet with the place where it starts. Its class is read off its
text alone, and only the classes that the rules look at are told apart.
-/
namespace TemplateLint.Stylesheet

/-- What a token is to the rules. -/
inductive TokenClass where
  | space
  | comment
  | openBrace
  | closeBrace
  | colon
  | semicolon
  | hash
  | other
  deriving DecidableEq

/-- White space between tokens. -/
def isSpace (b : UInt8) : Bool :=
  b == Byte.tab || b == Byte.newline || b == Byte.carriageReturn || b == Byte.formFeed ||
    b == Byte.space

/-- The class of a token with a given text. -/
def TokenClass.ofText : Bytes → TokenClass
  | [] => .other
  | b :: s =>
    if isSpace b then .space
    else if b = Byte.openBrace then .openBrace
    else if b = Byte.closeBrace then .closeBrace
    else if b = Byte.colon then .colon
    else if b = Byte.semicolon then .semicolon
    else if b = Byte.hash then if s.isEmpty then .other else .hash
    else if b = Byte.slash then if s.isEmpty then .other else .comment
    else .other

/-- A token and the position of its first byte. -/
structure Token where
  kind : TokenClass
  text : Bytes
  position : Position
  deriving DecidableEq

namespace Token

/-- Tokens that are no content of a block. -/
def isBlank (t : Token) : Bool := t.kind == .space || t.kind == .comment

/-- Tokens that end a declaration or a selector. -/
def isBoundary (t : Token) : Bool :=
  t.kind == .openBrace || t.kind == .closeBrace || t.kind == .semicolon

/-- The tokens with the given texts, laid out one after the other from `p`. -/
def place (p : Position) : List Bytes → List Token
  | [] => []
  | text :: rest => ⟨TokenClass.ofText text, text, p⟩ :: place (p.after text) rest

end Token
end TemplateLint.Stylesheet
