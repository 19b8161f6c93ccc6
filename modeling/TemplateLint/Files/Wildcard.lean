import TemplateLint.Text.Rune

/-!
# Names with wildcards

A wildcard is one segment of a glob: `*` stands for any characters, `?` for one of them, a set
in brackets for one of its members or, behind `!` or `^`, for one that is none, and a backslash
takes the next character as it is. `Wildcard.matchesName` compares a segment with a name.
-/
namespace TemplateLint

/-- A pattern of globs that is malformed. -/
inductive GlobError where
  | malformed
  deriving DecidableEq

def GlobError.message (_ : GlobError) : Bytes := Bytes.ofString "syntax error in pattern"

namespace Wildcard

/-- A part of a segment. -/
inductive Piece where
  /-- Any characters. -/
  | star
  /-- Any one character. -/
  | any
  /-- One given character. -/
  | one (c : Nat)
  /-- One character inside, or outside, some intervals. -/
  | set (negated : Bool) (ranges : List (Nat × Nat))
  /-- A set that does not end. -/
  | broken
  deriving DecidableEq

/-- What is known of a set that is being read. -/
structure OpenSet where
  negated : Bool := false
  /-- Whether an exclamation mark would negate the set. -/
  negatable : Bool := true
  /-- The member that a hyphen would extend to an interval. -/
  last : Option Nat := none
  ranges : List (Nat × Nat) := []

namespace OpenSet

/-- Whether no member has been read. -/
def isFresh (s : OpenSet) : Bool := s.ranges.isEmpty

/-- One more member. -/
def add (s : OpenSet) (c : Nat) : OpenSet :=
  { s with negatable := false, last := some c, ranges := s.ranges ++ [(c, c)] }

/-- An interval from the last member. -/
def extend (s : OpenSet) (c : Nat) : OpenSet :=
  { s with last := none, ranges := s.ranges ++ [((s.last.getD 0), c)] }

end OpenSet

/-- What a character of a segment belongs to. -/
inductive Mode where
  | outside
  /-- Behind a backslash. -/
  | quoted
  | inside (s : OpenSet)
  /-- Behind a backslash in a set. -/
  | insideQuoted (s : OpenSet)
  /-- Behind the hyphen of an interval. -/
  | ranged (s : OpenSet)
  /-- Behind a backslash behind the hyphen of an interval. -/
  | rangedQuoted (s : OpenSet)

/-- Whether a text goes on with something else than a closing bracket. -/
def continues : List Nat → Bool
  | [] => false
  | c :: _ => c != 0x5d

/-- The parts of a segment. A backslash at its very end stands for nothing. -/
def piecesIn : Mode → List Nat → List Piece
  | .outside, [] => []
  | .quoted, [] => []
  | .inside _, [] => [.broken]
  | .insideQuoted _, [] => [.broken]
  | .ranged _, [] => [.broken]
  | .rangedQuoted _, [] => [.broken]
  | .outside, c :: rest =>
    if c = 0x2a then .star :: piecesIn .outside rest
    else if c = 0x3f then .any :: piecesIn .outside rest
    else if c = 0x5b then piecesIn (.inside {}) rest
    else if c = 0x5c then piecesIn .quoted rest
    else .one c :: piecesIn .outside rest
  | .quoted, c :: rest => .one c :: piecesIn .outside rest
  | .inside s, c :: rest =>
    if s.negatable && (c = 0x21 || c = 0x5e) then
      piecesIn (.inside { s with negated := true, negatable := false }) rest
    else if c = 0x5d then
      if s.isFresh then [.broken] else .set s.negated s.ranges :: piecesIn .outside rest
    else if c = 0x2d && s.last.isSome && continues rest then piecesIn (.ranged s) rest
    else if c = 0x5c then piecesIn (.insideQuoted s) rest
    else piecesIn (.inside (s.add c)) rest
  | .insideQuoted s, c :: rest => piecesIn (.inside (s.add c)) rest
  | .ranged s, c :: rest =>
    if c = 0x5c then piecesIn (.rangedQuoted s) rest
    else piecesIn (.inside (s.extend c)) rest
  | .rangedQuoted s, c :: rest => piecesIn (.inside (s.extend c)) rest

/-- The characters of a text as numbers. -/
def codes (s : Bytes) : List Nat := (Rune.decode s).map Rune.code

/-- The parts of a segment. -/
def pieces (segment : Bytes) : List Piece := piecesIn .outside (codes segment)

/-- Whether the end of a name matches what is left of a segment: nothing or one or two stars. -/
def matchesEnd : List Piece → Bool
  | [] => true
  | [.star] => true
  | [.star, .star] => true
  | _ => false

/-- Whether a test succeeds on some suffix of a list, the whole list first. -/
def onSomeSuffix (test : List Nat → Except GlobError Bool) : List Nat → Except GlobError Bool
  | [] => test []
  | c :: rest => do
    if ← test (c :: rest) then return true
    else onSomeSuffix test rest

/-- Whether parts match a name. A set that does not end is an error once a character meets it. -/
def matchesPieces : List Piece → List Nat → Except GlobError Bool
  | [], name => .ok name.isEmpty
  | p :: ps, [] => .ok (matchesEnd (p :: ps))
  | .star :: ps, c :: rest => onSomeSuffix (matchesPieces ps) (c :: rest)
  | .any :: ps, _ :: rest => matchesPieces ps rest
  | .one a :: ps, c :: rest => if a = c then matchesPieces ps rest else .ok false
  | .set negated ranges :: ps, c :: rest =>
    if (ranges.any fun (low, high) => low ≤ c && c ≤ high) != negated then matchesPieces ps rest
    else .ok false
  | .broken :: _, _ :: _ => .error .malformed

/-- Whether a segment matches a name. -/
def matchesName (segment name : Bytes) : Except GlobError Bool :=
  matchesPieces (pieces segment) (codes name)

end Wildcard
end TemplateLint
