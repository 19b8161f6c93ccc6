import TemplateLint.Stylesheet.Token

/-!
# Cutting a stylesheet into tokens

`tokenLength` measures the token that starts a text, and `tokenize` cuts the text by it. The
measuring functions below return the number of bytes taken, zero where a form does not apply.
They look at bytes only. Every byte of the text ends up in exactly one token, and nothing is
an error: an unclosed string or comment runs to the end.
-/
namespace TemplateLint.Stylesheet

/-- A byte that ends a line. -/
def isLineEnd (b : UInt8) : Bool :=
  b == Byte.newline || b == Byte.carriageReturn || b == Byte.formFeed

/-- The length of a line end, a carriage return and a newline counting as one. -/
def lineEndLength : Bytes → Nat
  | [] => 0
  | b :: s =>
    if b = Byte.carriageReturn && s.head? == some Byte.newline then 2
    else if isLineEnd b then 1
    else 0

/-- The length of the longest run of bytes in a class. -/
def classLength (p : UInt8 → Bool) (s : Bytes) : Nat := (s.takeWhile p).length

/-- A byte that may stand in a name. -/
def isNameByte (b : UInt8) : Bool :=
  Byte.isLetter b || Byte.isDigit b || b == Byte.underscore || b == Byte.hyphen || 0x80 ≤ b

/-- A byte that may start a name. -/
def isNameStart (b : UInt8) : Bool := Byte.isLetter b || b == Byte.underscore || 0x80 ≤ b

/-- The length of a multi-byte character told by its first byte alone, cut off at the end of
the text. -/
def leadLength (lead : UInt8) (available : Nat) : Nat :=
  if available < 2 then 1
  else if lead < 0xe0 || available < 3 then 2
  else if lead < 0xf0 || available < 4 then 3
  else 4

/-- The length of an escape: a backslash with up to six hexadecimal digits and a space after
them, or with any one character that ends no line. -/
def escapeLength : Bytes → Nat
  | [] => 0
  | [_] => 0
  | a :: b :: s =>
    if a ≠ Byte.backslash || isLineEnd b then 0
    else if Byte.isHexDigit b then
      let digits := 1 + classLength Byte.isHexDigit (s.take 5)
      let space := classLength isSpace ((s.drop (digits - 1)).take 1)
      1 + digits + space
    else if 0xc0 ≤ b then 1 + leadLength b (s.length + 1)
    else 2

/-- The length of one unit of a name: a name byte or an escape. -/
def nameUnit : Bytes → Nat
  | [] => 0
  | b :: s => if isNameByte b then 1 else escapeLength (b :: s)

/-- The length of the run of name bytes and escapes that starts a text. -/
def nameLength (s : Bytes) : Nat := Bytes.runLength nameUnit s

/-- The length of an identifier: two hyphens, or an optional hyphen and a name start, and then
a name. -/
def identLength : Bytes → Nat
  | [] => 0
  | b :: s =>
    if b = Byte.hyphen then
      match s with
      | [] => 0
      | c :: t =>
        if c = Byte.hyphen then 2 + nameLength t
        else if isNameStart c || escapeLength s ≠ 0 then 1 + nameLength s
        else 0
    else if isNameStart b || escapeLength (b :: s) ≠ 0 then nameLength (b :: s)
    else 0

/-- The length of one unit inside a string. A backslash before a line end continues the
string on the next line. -/
def stringUnit (quote : UInt8) : Bytes → Nat
  | [] => 0
  | b :: s =>
    if b = quote || isLineEnd b then 0
    else if b = Byte.backslash then
      match escapeLength (b :: s) with
      | 0 => 1 + lineEndLength s
      | n => n
    else 1

/-- What a string that starts behind its opening quote takes up, and whether it is cut off by
a line end. Closing quote and line end are included. -/
def stringTail (quote : UInt8) (s : Bytes) : Nat × Bool :=
  let body := Bytes.runLength (stringUnit quote) s
  match s.drop body with
  | [] => (body, false)
  | b :: _ => (body + 1, b ≠ quote)

/-- The length of the exponent of a number: it needs at least one digit. -/
def exponentLength : Bytes → Nat
  | [] => 0
  | e :: s =>
    if e ≠ 0x65 && e ≠ 0x45 then 0
    else
      let sign := if s.head? == some Byte.plus || s.head? == some Byte.hyphen then 1 else 0
      match classLength Byte.isDigit (s.drop sign) with
      | 0 => 0
      | digits => 1 + sign + digits

/-- The length of a number without its unit. A point needs a digit behind it. -/
def numberLength (s : Bytes) : Nat :=
  let sign := if s.head? == some Byte.plus || s.head? == some Byte.hyphen then 1 else 0
  let whole := classLength Byte.isDigit (s.drop sign)
  let behind := s.drop (sign + whole)
  let fraction :=
    if behind.head? == some Byte.dot then classLength Byte.isDigit (behind.drop 1) else 0
  if whole = 0 && fraction = 0 then 0
  else
    let mantissa := sign + whole + if fraction = 0 then 0 else fraction + 1
    mantissa + exponentLength (s.drop mantissa)

/-- The length of a number with a percent sign or a unit. -/
def numericLength (s : Bytes) : Nat :=
  match numberLength s with
  | 0 => 0
  | number =>
    if (s.drop number).head? == some 0x25 then number + 1
    else number + identLength (s.drop number)

/-- The length of one unit inside a broken address: anything but the closing parenthesis. -/
def remnantUnit : Bytes → Nat
  | [] => 0
  | b :: s =>
    if b = Byte.closeParen then 0
    else match escapeLength (b :: s) with
      | 0 => 1
      | n => n

/-- What is left of a broken address, its closing parenthesis included. -/
def remnantLength (s : Bytes) : Nat :=
  let body := Bytes.runLength remnantUnit s
  if (s.drop body).isEmpty then body else body + 1

/-- The length of one unit of an unquoted address. -/
def addressUnit : Bytes → Nat
  | [] => 0
  | b :: s =>
    if b = Byte.closeParen || b = Byte.doubleQuote || b = Byte.singleQuote ||
        b = Byte.openParen || b ≤ Byte.space || b = 0x7f then 0
    else if b = Byte.backslash then escapeLength (b :: s)
    else 1

/-- The end of an address behind its content: space and a closing parenthesis. -/
def addressEnd (s : Bytes) : Nat :=
  let blank := classLength isSpace s
  match s.drop blank with
  | [] => blank
  | b :: t =>
    if b = Byte.closeParen then blank + 1 else blank + remnantLength (b :: t)

/-- The content and end of an address whose opening parenthesis is taken. -/
def addressTail (s : Bytes) : Nat :=
  let blank := classLength isSpace s
  match s.drop blank with
  | [] => blank
  | b :: t =>
    if b = Byte.doubleQuote || b = Byte.singleQuote then
      let (body, broken) := stringTail b t
      let taken := blank + 1 + body
      taken + if broken then remnantLength (s.drop taken) else addressEnd (s.drop taken)
    else
      let taken := blank + Bytes.runLength addressUnit (b :: t)
      match s.drop taken with
      | [] => taken
      | c :: u =>
        if c = Byte.closeParen || isSpace c then taken + addressEnd (c :: u)
        else taken + remnantLength (c :: u)

/-- Whether a name spells `url`, backslashes and case left aside. -/
def spellsAddress (name : Bytes) : Bool :=
  Bytes.toLower (name.filter (· ≠ Byte.backslash)) == Bytes.ofString "url"

/-- The length of an identifier, of a function name with its parenthesis, or of a whole
address. -/
def wordLength (s : Bytes) : Nat :=
  match identLength s with
  | 0 => 0
  | n =>
    if (s.drop n).head? ≠ some Byte.openParen then n
    else if spellsAddress (s.take n) then n + 1 + addressTail (s.drop (n + 1))
    else n + 1

/-- The length of a range of characters behind its `u+`: up to six digits, question marks
filling up on the right, or two numbers with a hyphen between them. -/
def rangeLength (s : Bytes) : Nat :=
  let low := classLength Byte.isHexDigit s
  let behind := s.drop low
  if behind.head? == some Byte.hyphen then
    let high := classLength Byte.isHexDigit (behind.drop 1)
    if 1 ≤ low && low ≤ 6 && 1 ≤ high && high ≤ 6 then low + 1 + high else 0
  else
    let total := low + classLength (· == Byte.question) behind
    if 1 ≤ total && total ≤ 6 then total else 0

/-- The length of a comment, which an end of text closes too. -/
def commentLength (s : Bytes) : Nat :=
  match Bytes.find? [Byte.star, Byte.slash] (s.drop 2) with
  | some n => n + 4
  | none => s.length

/-- The first length that is not zero, one if there is none. -/
def firstLength : List Nat → Nat
  | [] => 1
  | 0 :: rest => firstLength rest
  | n :: _ => n

/-- The bytes that are tokens by themselves. -/
def isSingle (b : UInt8) : Bool :=
  b == Byte.colon || b == Byte.semicolon || b == Byte.openBrace || b == Byte.closeBrace ||
    b == Byte.comma || b == Byte.openParen || b == Byte.closeParen || b == Byte.openBracket ||
    b == Byte.closeBracket

/-- The length of a token that starts with a hyphen. -/
def hyphenLength (s : Bytes) : Nat :=
  if Bytes.startsWith (Bytes.ofString "-->") s then 3
  else if Bytes.startsWith (Bytes.ofString "--") s then identLength s
  else firstLength [wordLength s, numericLength s]

/-- The bytes that a following equals sign joins to a comparison. -/
def isComparison (b : UInt8) : Bool :=
  b == Byte.dollar || b == Byte.star || b == 0x5e || b == 0x7e || b == Byte.bar

/-- The length of the token that starts a text; at least one unless the text is empty. -/
def tokenLength : Bytes → Nat
  | [] => 0
  | b :: s =>
    if isSpace b then 1 + classLength isSpace s
    else if isSingle b then 1
    else if b = Byte.hash then 1 + nameLength s
    else if b = Byte.doubleQuote || b = Byte.singleQuote then 1 + (stringTail b s).1
    else if b = Byte.dot || b = Byte.plus then firstLength [numericLength (b :: s)]
    else if b = Byte.hyphen then hyphenLength (b :: s)
    else if b = 0x40 then 1 + identLength s
    else if isComparison b then
      if s.head? == some Byte.equals then 2
      else if b = Byte.bar && s.head? == some Byte.bar then 2
      else 1
    else if b = Byte.less then
      if Bytes.startsWith (Bytes.ofString "!--") s then 4 else 1
    else if b = Byte.slash then
      if s.head? == some Byte.star then commentLength (b :: s) else 1
    else if b = Byte.backslash then firstLength [wordLength (b :: s)]
    else if b = 0x75 || b = 0x55 then
      match if s.head? == some Byte.plus then rangeLength (s.drop 1) else 0 with
      | 0 => firstLength [wordLength (b :: s)]
      | n => 2 + n
    else firstLength [numericLength (b :: s), wordLength (b :: s)]

/-- The tokens of a stylesheet. -/
def tokenize (css : Bytes) : List Token :=
  Token.place Position.start (Bytes.chunks tokenLength css)

end TemplateLint.Stylesheet
