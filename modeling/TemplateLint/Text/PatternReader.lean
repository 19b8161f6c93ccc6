import TemplateLint.Text.Pattern

/-!
# Reading regular expressions

`Pattern.read?` reads the usual notation of regular expressions: alternatives, groups, sets in
brackets, counted and uncounted repetition, classes and escapes with a backslash. A dot stands
for every character but a newline. Malformed expressions are refused, among them repetition of
nothing, repetition of a repetition, and a count above one thousand. Named classes of Unicode
are refused as well.

The reader keeps the groups that are open as a stack and takes at least one character at a
step.
-/
namespace TemplateLint
namespace PatternReader

/-! ### Characters and classes -/

/-- The largest code point. -/
def maxCode : Nat := 0x10ffff

/-- Whether a character is a letter or digit of ASCII. -/
def isAlphanumeric (c : Nat) : Bool := RuneClass.isWord c && c != 0x5f

/-- The value of an octal digit. -/
def octalDigit? (c : Nat) : Option Nat := if 0x30 ≤ c ∧ c ≤ 0x37 then some (c - 0x30) else none

/-- The value of a decimal digit. -/
def decimalDigit? (c : Nat) : Option Nat := if 0x30 ≤ c ∧ c ≤ 0x39 then some (c - 0x30) else none

/-- The value of a hexadecimal digit. -/
def hexDigit? (c : Nat) : Option Nat :=
  if 0x30 ≤ c ∧ c ≤ 0x39 then some (c - 0x30)
  else if 0x61 ≤ c ∧ c ≤ 0x66 then some (c - 0x57)
  else if 0x41 ≤ c ∧ c ≤ 0x46 then some (c - 0x37)
  else none

/-- The number written by up to `limit` digits, and the text behind them. -/
def takeDigits (base : Nat) (digit? : Nat → Option Nat) :
    (limit value : Nat) → List Nat → Nat × List Nat
  | 0, value, s => (value, s)
  | _ + 1, value, [] => (value, [])
  | limit + 1, value, c :: s =>
    match digit? c with
    | some d => takeDigits base digit? limit (value * base + d) s
    | none => (value, c :: s)

/-- The character of a hexadecimal escape in braces and the text behind it. -/
def bracedCode? (s : List Nat) : Option (Nat × List Nat) :=
  let digits := s.takeWhile fun c => (hexDigit? c).isSome
  match s.dropWhile (fun c => (hexDigit? c).isSome) with
  | c :: rest =>
    let value := (takeDigits 16 hexDigit? digits.length 0 digits).1
    if c = 0x7d && !digits.isEmpty && value ≤ maxCode then some (value, rest) else none
  | [] => none

/-- The character that an escape stands for and the text behind it. -/
def escape? : List Nat → Option (Nat × List Nat)
  | [] => none
  | c :: s =>
    if c = 0x30 then some (takeDigits 8 octalDigit? 2 0 s)
    else if 0x31 ≤ c && c ≤ 0x37 then
      match s with
      | d :: _ =>
        if (octalDigit? d).isSome then some (takeDigits 8 octalDigit? 2 (c - 0x30) s) else none
      | [] => none
    else if c = 0x78 then
      match s with
      | 0x7b :: rest => bracedCode? rest
      | a :: b :: rest =>
        match hexDigit? a, hexDigit? b with
        | some high, some low => some (high * 16 + low, rest)
        | _, _ => none
      | _ => none
    else if c = 0x61 then some (0x07, s)
    else if c = 0x66 then some (0x0c, s)
    else if c = 0x6e then some (0x0a, s)
    else if c = 0x72 then some (0x0d, s)
    else if c = 0x74 then some (0x09, s)
    else if c = 0x76 then some (0x0b, s)
    else if c < 0x80 && !isAlphanumeric c then some (c, s)
    else none

/-- The intervals outside intervals that are in order and apart, from a code point on. -/
def gaps : (start : Nat) → List (Nat × Nat) → List (Nat × Nat)
  | start, [] => if start ≤ maxCode then [(start, maxCode)] else []
  | start, (low, high) :: rest =>
    if start < low then (start, low - 1) :: gaps (high + 1) rest else gaps (high + 1) rest

/-- The class of a letter behind a backslash. -/
def letterRanges? (c : Nat) : Option (List (Nat × Nat)) :=
  if c = 0x64 then some RuneClass.digitRanges
  else if c = 0x73 then some RuneClass.spaceRanges
  else if c = 0x77 then some RuneClass.wordRanges
  else if c = 0x44 then some (gaps 0 RuneClass.digitRanges)
  else if c = 0x53 then some (gaps 0 RuneClass.spaceRanges)
  else if c = 0x57 then some (gaps 0 RuneClass.wordRanges)
  else none

/-- The classes with a name. -/
def namedRanges : List (String × List (Nat × Nat)) :=
  [("alnum", [(0x30, 0x39), (0x41, 0x5a), (0x61, 0x7a)]),
   ("alpha", [(0x41, 0x5a), (0x61, 0x7a)]),
   ("ascii", [(0x00, 0x7f)]),
   ("blank", [(0x09, 0x09), (0x20, 0x20)]),
   ("cntrl", [(0x00, 0x1f), (0x7f, 0x7f)]),
   ("digit", [(0x30, 0x39)]),
   ("graph", [(0x21, 0x7e)]),
   ("lower", [(0x61, 0x7a)]),
   ("print", [(0x20, 0x7e)]),
   ("punct", [(0x21, 0x2f), (0x3a, 0x40), (0x5b, 0x60), (0x7b, 0x7e)]),
   ("space", [(0x09, 0x0d), (0x20, 0x20)]),
   ("upper", [(0x41, 0x5a)]),
   ("word", [(0x30, 0x39), (0x41, 0x5a), (0x5f, 0x5f), (0x61, 0x7a)]),
   ("xdigit", [(0x30, 0x39), (0x41, 0x46), (0x61, 0x66)])]

/-- The text before the first colon with a bracket behind it, and the text behind both. -/
def splitName? : List Nat → Option (List Nat × List Nat)
  | [] => none
  | c :: s =>
    match c, s with
    | 0x3a, 0x5d :: rest => some ([], rest)
    | _, _ => (splitName? s).map fun (x, y) => (c :: x, y)

/-- The class of a name between colons, complemented behind a caret. -/
def namedClass? (name : List Nat) : Option (List (Nat × Nat)) :=
  let find (name : List Nat) :=
    (namedRanges.find? fun (n, _) => n.toList.map Char.toNat == name).map Prod.snd
  match name with
  | 0x5e :: rest => (find rest).map (gaps 0)
  | _ => find name

/-- One character of a set and the text behind it. -/
def setCharacter? : List Nat → Option (Nat × List Nat)
  | [] => none
  | 0x5c :: s => escape? s
  | c :: s => some (c, s)

/-- One member of a set, a single character or an interval, and the text behind it. -/
def setInterval? (s : List Nat) : Option ((Nat × Nat) × List Nat) := do
  let (low, rest) ← setCharacter? s
  match rest with
  | 0x2d :: d :: behind =>
    if d = 0x5d then return ((low, low), rest)
    else
      let (high, rest) ← setCharacter? (d :: behind)
      if high < low then none else return ((low, high), rest)
  | _ => return ((low, low), rest)

/-- The intervals of one item of a set and the text behind it. -/
def setItem? (s : List Nat) : Option (List (Nat × Nat) × List Nat) :=
  let single := (setInterval? s).map fun (i, rest) => ([i], rest)
  match s with
  | 0x5b :: 0x3a :: behind =>
    match splitName? behind with
    | none => single
    | some (name, rest) => (namedClass? name).map (·, rest)
  | 0x5c :: c :: rest =>
    if c = 0x70 || c = 0x50 then none
    else
      match letterRanges? c with
      | some ranges => some (ranges, rest)
      | none => single
  | _ => single

/-- The items of a set up to its closing bracket and the text behind it. A bracket that comes
first is a member. The bound is a length of text. -/
def setItems? : (bound : Nat) → (first : Bool) → List (Nat × Nat) → List Nat →
    Option (List (Nat × Nat) × List Nat)
  | 0, _, _, _ => none
  | bound + 1, first, ranges, s =>
    match s with
    | [] => none
    | c :: rest =>
      if c = 0x5d && !first then some (ranges, rest)
      else do
        let (more, rest) ← setItem? (c :: rest)
        setItems? bound false (ranges ++ more) rest

/-- A set behind its opening bracket and the text behind it. -/
def set? (s : List Nat) : Option (RuneClass × List Nat) :=
  match s with
  | 0x5e :: rest =>
    (setItems? (s.length + 1) true [] rest).map fun (ranges, rest) => (⟨true, ranges⟩, rest)
  | _ => (setItems? (s.length + 1) true [] s).map fun (ranges, rest) => (⟨false, ranges⟩, rest)

/-! ### Repetition -/

/-- How often something is repeated; without a largest number there is no end. -/
structure Times where
  least : Nat
  most : Option Nat

/-- A decimal number without leading zeros and the text behind it. -/
def number? (s : List Nat) : Option (Nat × List Nat) :=
  let digits := s.takeWhile fun c => (decimalDigit? c).isSome
  if digits.isEmpty || (digits.head? == some 0x30 && 1 < digits.length) then none
  else some ((takeDigits 10 decimalDigit? digits.length 0 digits).1, s.drop digits.length)

/-- A count in braces, behind the opening one, and the text behind it. -/
def times? (s : List Nat) : Option (Times × List Nat) := do
  let (least, rest) ← number? s
  match rest with
  | 0x7d :: rest => return (⟨least, some least⟩, rest)
  | 0x2c :: 0x7d :: rest => return (⟨least, none⟩, rest)
  | 0x2c :: rest =>
    let (most, rest) ← number? rest
    match rest with
    | 0x7d :: rest => return (⟨least, some most⟩, rest)
    | _ => none
  | _ => none

/-- The largest count that can be written. -/
def maxTimes : Nat := 1000

/-- Whether a count can be written. -/
def Times.isValid (t : Times) : Bool :=
  t.least ≤ maxTimes && t.most.all fun most => t.least ≤ most && most ≤ maxTimes

/-- Up to `n` repetitions. -/
def upTo (p : Pattern) : Nat → Pattern
  | 0 => .empty
  | n + 1 => .optional (.seq p (upTo p n))

/-- Exactly `n` repetitions and then something else. -/
def exactly (p : Pattern) (last : Pattern) : Nat → Pattern
  | 0 => last
  | n + 1 => .seq p (exactly p last n)

/-- A pattern repeated. -/
def Times.apply (t : Times) (p : Pattern) : Pattern :=
  match t.most with
  | none => exactly p (.star p) t.least
  | some most => exactly p (upTo p (most - t.least)) t.least

/-- The factor by which a count enlarges a pattern. -/
def Times.factor (t : Times) : Nat := max 1 (t.most.getD t.least)

/-! ### Expressions -/

/-- A part of an expression and the largest product of counts nested in it. -/
structure Item where
  pattern : Pattern
  weight : Nat := 1

/-- A group being read: its finished alternatives and the items of the current one, both in
reverse. -/
structure Frame where
  alternatives : List Item := []
  items : List Item := []

namespace Frame

/-- The items of the current alternative as one. -/
def current (f : Frame) : Item :=
  ⟨Pattern.sequence (f.items.reverse.map (·.pattern)), f.items.foldl (max · ·.weight) 1⟩

/-- The frame with the current alternative finished. -/
def finish (f : Frame) : Frame := ⟨f.current :: f.alternatives, []⟩

/-- The whole group as one item. -/
def close (f : Frame) : Item :=
  f.alternatives.foldl
    (fun item choice => ⟨.alt choice.pattern item.pattern, max choice.weight item.weight⟩) f.current

/-- The frame with one more item. -/
def push (f : Frame) (item : Item) : Frame := { f with items := item :: f.items }

/-- The frame with its last item changed. -/
def changeLast? (f : Frame) (change : Item → Option Item) : Option Frame :=
  match f.items with
  | [] => none
  | last :: rest => (change last).map fun item => { f with items := item :: rest }

end Frame

/-- An item that matches one character of a class. -/
def Item.one (k : RuneClass) : Item := ⟨.one k, 1⟩

/-- An item that matches one given character. -/
def Item.character (c : Nat) : Item := .one ⟨false, [(c, c)]⟩

/-- An item that matches the empty text where an assertion holds. -/
def Item.here (a : Assertion) : Item := ⟨.here a, 1⟩

/-- Every character but a newline. -/
def dot : RuneClass := ⟨true, [(0x0a, 0x0a)]⟩

/-- What a step of reading makes of the frame, and whether it was a repetition. -/
structure Step where
  frame : Frame
  repeated : Bool := false
  rest : List Nat

/-- The text behind a question mark, if there is one. It would only say which of several
matches is preferred. -/
def skipQuestion : List Nat → List Nat
  | 0x3f :: rest => rest
  | s => s

/-- Repetition of the last item. -/
def repeatLast? (f : Frame) (repeated : Bool) (counted : Bool) (t : Times) (rest : List Nat) :
    Option Step :=
  if repeated then none
  else
    (f.changeLast? fun item =>
      let weight := if counted then item.weight * t.factor else item.weight
      if maxTimes < weight then none else some ⟨t.apply item.pattern, weight⟩).map
      fun frame => ⟨frame, true, skipQuestion rest⟩

/-- The text before and behind the end mark of quoted text. -/
def splitQuoted : List Nat → List Nat × List Nat
  | [] => ([], [])
  | c :: s =>
    match c, s with
    | 0x5c, 0x45 :: rest => ([], rest)
    | _, _ => (c :: (splitQuoted s).1, (splitQuoted s).2)

/-- What a backslash makes of the text behind it. -/
def backslash? (f : Frame) (s : List Nat) : Option Step :=
  match s with
  | [] => none
  | c :: rest =>
    if c = 0x41 then some ⟨f.push (.here .textStart), false, rest⟩
    else if c = 0x62 then some ⟨f.push (.here .wordEdge), false, rest⟩
    else if c = 0x42 then some ⟨f.push (.here .noWordEdge), false, rest⟩
    else if c = 0x7a then some ⟨f.push (.here .textEnd), false, rest⟩
    else if c = 0x51 then
      let (quoted, rest) := splitQuoted rest
      some ⟨quoted.foldl (fun f c => f.push (.character c)) f, false, rest⟩
    else if c = 0x70 || c = 0x50 then none
    else
      match letterRanges? c with
      | some ranges => some ⟨f.push (.one ⟨false, ranges⟩), false, rest⟩
      | none => (escape? s).map fun (c, rest) => ⟨f.push (.character c), false, rest⟩

/-- One step inside a group: an item or a repetition. -/
def step? (f : Frame) (repeated : Bool) (c : Nat) (rest : List Nat) : Option Step :=
  if c = 0x2a then repeatLast? f repeated false ⟨0, none⟩ rest
  else if c = 0x2b then repeatLast? f repeated false ⟨1, none⟩ rest
  else if c = 0x3f then repeatLast? f repeated false ⟨0, some 1⟩ rest
  else if c = 0x7b then
    match times? rest with
    | none => some ⟨f.push (.character c), false, rest⟩
    | some (t, rest) => if t.isValid then repeatLast? f repeated true t rest else none
  else if c = 0x5b then (set? rest).map fun (k, rest) => ⟨f.push (.one k), false, rest⟩
  else if c = 0x2e then some ⟨f.push (.one dot), false, rest⟩
  else if c = 0x5e then some ⟨f.push (.here .textStart), false, rest⟩
  else if c = 0x24 then some ⟨f.push (.here .textEnd), false, rest⟩
  else if c = 0x5c then backslash? f rest
  else some ⟨f.push (.character c), false, rest⟩

/-- Read the rest of an expression inside the given group, the groups around it being `outer`.
The bound is a length of text. -/
def readFrom? : (bound : Nat) → (outer : List Frame) → Frame → (repeated : Bool) → List Nat →
    Option Pattern
  | 0, _, _, _, _ => none
  | bound + 1, outer, f, repeated, s =>
    match s with
    | [] => if outer.isEmpty then some f.close.pattern else none
    | c :: rest =>
      if c = 0x28 then
        match rest with
        | 0x3f :: _ => none
        | _ => readFrom? bound (f :: outer) {} false rest
      else if c = 0x7c then readFrom? bound outer f.finish false rest
      else if c = 0x29 then
        match outer with
        | [] => none
        | g :: outer => readFrom? bound outer (g.push f.close) false rest
      else do
        let next ← step? f repeated c rest
        readFrom? bound outer next.frame next.repeated next.rest

end PatternReader

/-- The pattern that a regular expression stands for, unless it is malformed. -/
def Pattern.read? (expression : Bytes) : Option Pattern :=
  let runes := Rune.decode expression
  if runes.any Rune.isStray then none
  else PatternReader.readFrom? (runes.length + 1) [] {} false (runes.map Rune.code)

end TemplateLint
