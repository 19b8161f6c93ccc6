import TemplateLint.Text.Bytes

/-!
# Coloured text

Parts of a report are painted in a hue. Without colours they are left as they are. With
colours a tab becomes four spaces, and on a terminal that takes colour codes the text stands
between the codes of its hue and a reset.
-/
namespace TemplateLint

/-- The hues of a report. -/
inductive Hue where
  /-- Places in files. -/
  | cyan
  /-- Errors and failures. -/
  | red
  /-- Warnings and carets. -/
  | yellow
  /-- The message of a run without findings. -/
  | green
  /-- Names of rules. -/
  | gray
  deriving DecidableEq

/-- The codes that switch a hue on. All hues but gray are bold. -/
def Hue.codes : Hue → Bytes
  | cyan => Bytes.ofString "1;36"
  | red => Bytes.ofString "1;31"
  | yellow => Bytes.ofString "1;33"
  | green => Bytes.ofString "1;32"
  | gray => Bytes.ofString "90"

/-- How painted text is written. -/
structure Ink where
  /-- Whether text is painted at all. -/
  colors : Bool
  /-- Whether the terminal takes colour codes. -/
  codes : Bool
  deriving DecidableEq

namespace Ink

/-- What introduces a code. -/
def escape : Bytes := [0x1b, Byte.openBracket]

/-- A text between the codes of a hue and a reset. -/
def coded (hue : Hue) (s : Bytes) : Bytes :=
  escape ++ hue.codes ++ [0x6d] ++ s ++ escape ++ [0x30, 0x6d]

/-- A text with every tab as four spaces. -/
def expandTabs (s : Bytes) : Bytes :=
  s.flatMap fun b => if b = Byte.tab then List.replicate 4 Byte.space else [b]

/-- A text painted in a hue. -/
def paint (ink : Ink) (hue : Hue) (s : Bytes) : Bytes :=
  if !ink.colors then s
  else if ink.codes then coded hue (expandTabs s)
  else expandTabs s

/-- Whether a report is painted. A wish on the command line wins, then a non-empty
`NO_COLOR`, then a non-empty `FORCE_COLOR` or a build server; otherwise only a terminal gets
colours. An unset variable reads as the empty text. -/
def wantsColors (forced terminal : Bool) (env : String → Bytes) : Bool :=
  if forced then true
  else if !(env "NO_COLOR").isEmpty then false
  else !(env "FORCE_COLOR").isEmpty || env "GITHUB_ACTIONS" == Bytes.ofString "true" ||
    terminal

/-- Whether colour codes are written: on a terminal or when they are forced, unless they are
switched off. -/
def wantsCodes (terminal : Bool) (env : String → Bytes) : Bool :=
  let force := env "CLICOLOR_FORCE"
  let forced := !force.isEmpty && force != Bytes.ofString "0"
  let off := !(env "NO_COLOR").isEmpty ||
    (env "CLICOLOR" == Bytes.ofString "0" && !forced)
  !off && (forced || terminal)

end Ink
end TemplateLint
