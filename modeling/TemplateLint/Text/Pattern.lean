import TemplateLint.Text.Rune

/-!
# Regular expressions

`Pattern` is the abstract form of a regular expression over code points, with assertions about
the place between two characters. `Pattern.matchesAll` decides whether a pattern matches a
whole text. It follows the set of partial derivatives, what is left to match once a character
is read, so the set stays small however often alternatives are repeated.
-/
namespace TemplateLint

/-- A set of code points: closed intervals, or everything outside them. -/
structure RuneClass where
  negated : Bool
  ranges : List (Nat × Nat)
  deriving DecidableEq

namespace RuneClass

def contains (k : RuneClass) (n : Nat) : Bool :=
  (k.ranges.any fun (low, high) => low ≤ n && n ≤ high) != k.negated

/-- Every code point. -/
def any : RuneClass := ⟨true, []⟩

/-- The characters of a string. -/
def ofChars (s : String) : RuneClass := ⟨false, s.toList.map fun c => (c.toNat, c.toNat)⟩

/-- Everything but the characters of a string. -/
def notChars (s : String) : RuneClass := { ofChars s with negated := true }

/-- Letters, digits and the underscore of ASCII. -/
def wordRanges : List (Nat × Nat) := [(0x30, 0x39), (0x41, 0x5a), (0x5f, 0x5f), (0x61, 0x7a)]

/-- The white space of ASCII without the vertical tab. -/
def spaceRanges : List (Nat × Nat) := [(0x09, 0x0a), (0x0c, 0x0d), (0x20, 0x20)]

def digitRanges : List (Nat × Nat) := [(0x30, 0x39)]

def isWord (n : Nat) : Bool := contains ⟨false, wordRanges⟩ n

end RuneClass

/-- A condition on the place between two characters. -/
inductive Assertion where
  | textStart
  | textEnd
  /-- Between a word character and another one. -/
  | wordEdge
  /-- Not at the edge of a word. -/
  | noWordEdge
  deriving DecidableEq

/-- Whether an assertion holds between two characters, of which one is missing at an end. -/
def Assertion.holds (before after : Option Nat) : Assertion → Bool
  | textStart => before.isNone
  | textEnd => after.isNone
  | wordEdge => before.any RuneClass.isWord != after.any RuneClass.isWord
  | noWordEdge => before.any RuneClass.isWord == after.any RuneClass.isWord

/-- A regular expression. -/
inductive Pattern where
  /-- The empty text. -/
  | empty
  /-- One character of a class. -/
  | one (k : RuneClass)
  /-- The empty text at a place where the assertion holds. -/
  | here (a : Assertion)
  | seq (p q : Pattern)
  | alt (p q : Pattern)
  /-- Any number of repetitions. -/
  | star (p : Pattern)
  deriving DecidableEq

namespace Pattern

/-- Whether the empty text between two characters matches. -/
def nullable (before after : Option Nat) : Pattern → Bool
  | empty => true
  | one _ => false
  | here a => a.holds before after
  | seq p q => p.nullable before after && q.nullable before after
  | alt p q => p.nullable before after || q.nullable before after
  | star _ => true

/-- A sequence without a leading empty text. -/
def andThen (p q : Pattern) : Pattern := if p = empty then q else seq p q

/-- What can be left to match once the character `c` is read behind `before`. -/
def derivatives (before : Option Nat) (c : Nat) : Pattern → List Pattern
  | empty => []
  | one k => if k.contains c then [empty] else []
  | here _ => []
  | seq p q =>
    (p.derivatives before c).map (·.andThen q) ++
      if p.nullable before (some c) then q.derivatives before c else []
  | alt p q => p.derivatives before c ++ q.derivatives before c
  | star p => (p.derivatives before c).map (·.andThen (star p))

/-- Whether one of several patterns matches all of the characters behind `before`. -/
def matchesFrom (before : Option Nat) (states : List Pattern) : List Nat → Bool
  | [] => states.any (·.nullable before none)
  | c :: rest =>
    matchesFrom (some c) (states.flatMap (·.derivatives before c)).eraseDups rest

/-- Whether a pattern matches a whole text. -/
def matchesAll (p : Pattern) (s : Bytes) : Bool :=
  matchesFrom none [p] ((Rune.decode s).map Rune.code)

/-- Any text at all. -/
def anything : Pattern := star (one .any)

/-- Whether a pattern matches some part of a text. -/
def matchesWithin (p : Pattern) (s : Bytes) : Bool :=
  (seq anything (seq p anything)).matchesAll s

/-- The characters of a string, one after the other. -/
def literal (s : String) : Pattern :=
  s.toList.foldr (fun c p => seq (one ⟨false, [(c.toNat, c.toNat)]⟩) p) empty

/-- All of some patterns, one after the other. -/
def sequence : List Pattern → Pattern
  | [] => empty
  | [p] => p
  | p :: ps => seq p (sequence ps)

/-- A pattern or nothing. -/
def optional (p : Pattern) : Pattern := alt p empty

/-- At least one repetition. -/
def plus (p : Pattern) : Pattern := seq p (star p)

end Pattern
end TemplateLint
