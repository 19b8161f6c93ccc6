import TemplateLint.Text.Pattern

/-!
# Tags of template literals

The expression in front of a template literal says whether it holds style rules and how they
are to be wrapped. Recognition works on the text before the opening backtick, of which only
the last bytes are looked at.
-/
namespace TemplateLint

/-- How the style rules of a template are wrapped. -/
inductive Tag where
  /-- The rules of one component. -/
  | styled
  /-- Rules for the whole page. -/
  | global
  /-- The steps of an animation. -/
  | keyframes
  deriving DecidableEq

namespace Tag
open Pattern

/-- A text that may stand before a name: empty, or ending in a character that cannot be part
of a longer name or of a member access. -/
def beforeName : Pattern :=
  alt empty (seq anything
    (one ⟨true, RuneClass.wordRanges ++ [(0x2e, 0x2e), (0x24, 0x24)]⟩))

/-- Type arguments between angle brackets, not nested. -/
def typeArguments : Pattern :=
  sequence [literal "<", star (one (.notChars "<>")), literal ">"]

/-- Parenthesized arguments with at most one level of parentheses inside. -/
def arguments : Pattern :=
  let outside := one (.notChars "()")
  let group := sequence [literal "(", star outside, literal ")"]
  sequence [literal "(", star (alt outside group), literal ")"]

/-- A member access or a call. -/
def target : Pattern :=
  alt (seq (literal ".") (plus (one ⟨false, RuneClass.wordRanges⟩))) arguments

/-- A call that adds attributes. -/
def attributes : Pattern :=
  sequence [literal ".attrs", optional typeArguments, arguments]

def trailingSpace : Pattern := star (one ⟨false, RuneClass.spaceRanges⟩)

/-- A styled element or component, with optional attributes and type arguments. -/
def component : Pattern :=
  sequence [beforeName, literal "styled", target, optional typeArguments, optional attributes,
    optional typeArguments, trailingSpace]

/-- One of the helper functions, by its name. -/
def helper (name : String) : Pattern :=
  sequence [beforeName, literal name, optional typeArguments, trailingSpace]

/-- The tag that a whole text ends in. -/
def ofText? (s : Bytes) : Option Tag :=
  if component.matchesAll s then some styled
  else if (helper "css").matchesAll s then some styled
  else if (alt (helper "createGlobalStyle") (helper "injectGlobal")).matchesAll s then
    some global
  else if (helper "keyframes").matchesAll s then some keyframes
  else none

/-- How many bytes before a template are looked at. -/
def window : Nat := 512

/-- The tag of a template that directly follows a text. -/
def before? (s : Bytes) : Option Tag := ofText? (s.drop (s.length - window))

/-- The tag of a template behind the bytes of a text in reverse order. -/
def behind? (reversed : Bytes) : Option Tag := ofText? (reversed.take window).reverse

end Tag
end TemplateLint
