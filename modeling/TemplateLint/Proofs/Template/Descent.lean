import Mathlib
import TemplateLint.Position
import TemplateLint.Template.Scan

/-!
# Readers that call each other

The scanner is a machine that takes one byte at a time and keeps what is open on a stack. The same
language can be read by functions that move a position over the source, one for each construct,
where the reader of templates calls that of interpolations and the other way round. Nothing in how
they are written says that they ever return, or that they look only at bytes that the source has:
an escape jumps over two bytes and may jump over the end. So they are attempts, which fault when
they look at a byte that is not there, and when they call each other deeper than they are allowed to.
A reader that would run forever faults however many calls it is allowed, and one that returns does
not mind being allowed more.
-/
namespace TemplateLint.Scan
open ModuleImport (isIdentByte)

namespace Descent

/-! ## The readers -/

/-- What stops a reader. -/
inductive Fault where
  /-- An index or a range that the text does not have. -/
  | outOfRange
  /-- More calls inside each other than are allowed. -/
  | outOfCalls

/-- A computation that may fault. -/
abbrev Attempt := Except Fault

def elementAt {α : Type} (xs : List α) (i : Nat) : Attempt α :=
  match xs[i]? with
  | some x => pure x
  | none => throw .outOfRange

/-- The text from one offset up to another. -/
def slice (source : Bytes) (start stop : Nat) : Attempt Bytes :=
  if start ≤ stop ∧ stop ≤ source.length then pure ((source.take stop).drop start)
  else throw .outOfRange

/-- Whether a byte stands at an offset, which may be behind the end. -/
def holdsAt (source : Bytes) (pos : Nat) (b : UInt8) : Attempt Bool := do
  if pos < source.length then
    let c ← elementAt source pos
    return c = b
  else return false

/-- The byte before an offset, if there is one. -/
def byteBefore (source : Bytes) (pos : Nat) : Attempt (Option UInt8) :=
  if pos = 0 then pure none else some <$> elementAt source (pos - 1)

/-- A position in a source, and whether a slash there would start a regular expression. -/
structure Cursor where
  pos : Nat
  regex : Bool

/-- Move to the end of a string. A newline ends it too. -/
def stringEnd (source : Bytes) (calls : Nat) (quote : UInt8) (regex : Bool) (pos : Nat) :
    Attempt Cursor :=
  match calls with
  | 0 => throw .outOfCalls
  | calls + 1 => do
    if pos < source.length then
      let b ← elementAt source pos
      if b = Byte.backslash then stringEnd source calls quote regex (pos + 2)
      else if b = quote || b = Byte.newline then return ⟨pos + 1, false⟩
      else stringEnd source calls quote regex (pos + 1)
    else return ⟨pos, regex⟩

/-- Move past a string. -/
def skipString (source : Bytes) (calls : Nat) (quote : UInt8) (c : Cursor) : Attempt Cursor :=
  stringEnd source calls quote c.regex (c.pos + 1)

/-- The offset behind the bytes of an identifier. -/
def identifierEnd (source : Bytes) (calls pos : Nat) : Attempt Nat :=
  match calls with
  | 0 => throw .outOfCalls
  | calls + 1 => do
    if pos < source.length then
      let b ← elementAt source pos
      if isIdentByte b then identifierEnd source calls (pos + 1) else return pos
    else return pos

/-- Move past an identifier, or past one byte of anything else. -/
def advance (source : Bytes) (calls : Nat) (c : Cursor) : Attempt Cursor := do
  let b ← elementAt source c.pos
  if isIdentByte b then
    let stop ← identifierEnd source calls c.pos
    let word ← slice source c.pos stop
    return ⟨stop, regexWords.contains word⟩
  else if Byte.isIndent b || b = Byte.newline || b = Byte.carriageReturn then
    return ⟨c.pos + 1, c.regex⟩
  else if b = Byte.closeParen || b = Byte.closeBracket then return ⟨c.pos + 1, false⟩
  else return ⟨c.pos + 1, true⟩

/-- The offset behind a regular expression and its flags. It stops at the end of its line. -/
def regexEnd (source : Bytes) (calls : Nat) (inClass : Bool) (pos : Nat) : Attempt Nat :=
  match calls with
  | 0 => throw .outOfCalls
  | calls + 1 => do
    if pos < source.length then
      let b ← elementAt source pos
      if b = Byte.backslash then regexEnd source calls inClass (pos + 2)
      else if b = Byte.newline then return pos
      else if b = Byte.slash && !inClass then identifierEnd source calls (pos + 1)
      else if b = Byte.openBracket then regexEnd source calls true (pos + 1)
      else if b = Byte.closeBracket then regexEnd source calls false (pos + 1)
      else regexEnd source calls inClass (pos + 1)
    else return min pos source.length

/-- Move past a regular expression. -/
def skipRegex (source : Bytes) (calls : Nat) (c : Cursor) : Attempt Cursor := do
  let stop ← regexEnd source calls false (c.pos + 1)
  return { c with pos := stop }

/-- The offset of the newline that ends a line. -/
def lineEnd (source : Bytes) (calls pos : Nat) : Attempt Nat :=
  match calls with
  | 0 => throw .outOfCalls
  | calls + 1 => do
    if pos < source.length then
      let b ← elementAt source pos
      if b = Byte.newline then return pos else lineEnd source calls (pos + 1)
    else return pos

/-- The offset behind a block comment. -/
def commentEnd (source : Bytes) (calls pos : Nat) : Attempt Nat :=
  match calls with
  | 0 => throw .outOfCalls
  | calls + 1 => do
    if pos < source.length then
      let b ← elementAt source pos
      if b = Byte.star && (← holdsAt source (pos + 1) Byte.slash) then return pos + 2
      else commentEnd source calls (pos + 1)
    else return pos

/-- Move past a comment, whose kind the second byte tells. -/
def skipComment (source : Bytes) (calls : Nat) (c : Cursor) : Attempt Cursor := do
  let rest ← slice source c.pos source.length
  if ← holdsAt rest 1 Byte.slash then
    let stop ← lineEnd source calls c.pos
    return { c with pos := stop }
  else if ← holdsAt rest 1 Byte.star then
    let stop ← commentEnd source calls (c.pos + 2)
    return { c with pos := stop }
  else return { c with pos := c.pos + 1 }

/-- Move past a comment, a regular expression or a lone slash. -/
def skipSlash (source : Bytes) (calls : Nat) (c : Cursor) : Attempt Cursor := do
  let rest ← slice source c.pos source.length
  if [Byte.slash, Byte.slash].isPrefixOf rest || [Byte.slash, Byte.star].isPrefixOf rest then
    skipComment source calls c
  else
    let previous ← byteBefore source c.pos
    if c.regex && previous ≠ some Byte.less then
      let moved ← skipRegex source calls c
      return { moved with regex := false }
    else return ⟨c.pos + 1, true⟩

/-- Move past a string, past what a slash starts or past anything else. -/
def skipCode (source : Bytes) (calls : Nat) (b : UInt8) (c : Cursor) : Attempt Cursor :=
  if b = Byte.singleQuote || b = Byte.doubleQuote then skipString source calls b c
  else if b = Byte.slash then skipSlash source calls c
  else advance source calls c

/-- The offsets behind the newlines of a text that starts at `pos`. -/
def lineStarts (pos : Nat) : Bytes → List Nat
  | [] => []
  | b :: s =>
    if b = Byte.newline then (pos + 1) :: lineStarts (pos + 1) s else lineStarts (pos + 1) s

/-- The position of an offset, by the last line that starts before it. -/
def locate (source : Bytes) (offset : Nat) : Attempt Position :=
  let starts := 0 :: lineStarts 0 source
  match starts.findIdx (offset < ·) with
  | 0 => throw .outOfRange
  | line + 1 => do
    let start ← elementAt starts line
    let before ← slice source start offset
    return ⟨line + 1, Bytes.runeCount before + 1⟩

/-- A construct that is never closed, and the position of its start. -/
structure Failure where
  construct : Unclosed
  position : Position

/-- A template without its tag. -/
structure Untagged where
  start : Nat
  stop : Nat
  parts : List Part

/-- How the reader of an interpolation ends. -/
inductive Ending where
  | closed
  /-- The source ends first. -/
  | unterminated
  /-- A template in it is never closed, or an interpolation of that template. -/
  | failed (failure : Failure)

mutual

/-- Read on in a template that has started. The parts read so far stand in front of the text that
is being read. -/
def textEnd (source : Bytes) (calls start : Nat) (parts : List Part) (textStart : Nat)
    (c : Cursor) : Attempt (Cursor × Except Failure Untagged) :=
  match calls with
  | 0 => throw .outOfCalls
  | calls + 1 => do
    if c.pos < source.length then
      let b ← elementAt source c.pos
      if b = Byte.backslash then
        textEnd source calls start parts textStart { c with pos := c.pos + 2 }
      else if b = Byte.backtick then
        let text ← slice source textStart c.pos
        return (⟨c.pos + 1, false⟩, .ok ⟨start, c.pos, parts ++ [⟨false, text, textStart⟩]⟩)
      else if b = Byte.dollar && (← holdsAt source (c.pos + 1) Byte.openBrace) then
        let text ← slice source textStart c.pos
        let (c', ending) ← expressionEnd source calls 1 ⟨c.pos + 2, true⟩
        match ending with
        | .closed =>
          let expression ← slice source c.pos c'.pos
          textEnd source calls start
            (parts ++ [⟨false, text, textStart⟩, ⟨true, expression, c.pos⟩]) c'.pos c'
        | .unterminated =>
          let position ← locate source c.pos
          return (c', .error ⟨.interpolation c.pos, position⟩)
        | .failed failure => return (c', .error failure)
      else textEnd source calls start parts textStart { c with pos := c.pos + 1 }
    else
      let position ← locate source start
      return (c, .error ⟨.template start, position⟩)

/-- Move past the brace that closes an interpolation in which `depth` braces are open. -/
def expressionEnd (source : Bytes) (calls depth : Nat) (c : Cursor) :
    Attempt (Cursor × Ending) :=
  match calls with
  | 0 => throw .outOfCalls
  | calls + 1 => do
    if c.pos < source.length then
      let b ← elementAt source c.pos
      if b = Byte.backtick then
        let (c', result) ← textEnd source calls c.pos [] (c.pos + 1) { c with pos := c.pos + 1 }
        match result with
        | .ok _ => expressionEnd source calls depth c'
        | .error failure => return (c', .failed failure)
      else if b = Byte.openBrace then expressionEnd source calls (depth + 1) ⟨c.pos + 1, true⟩
      else if b = Byte.closeBrace then
        if depth = 1 then return (⟨c.pos + 1, true⟩, .closed)
        else expressionEnd source calls (depth - 1) ⟨c.pos + 1, true⟩
      else
        let c' ← skipCode source calls b c
        expressionEnd source calls depth c'
    else return (c, .unterminated)

end

/-- Read the template that starts at a cursor. -/
def readTemplate (source : Bytes) (calls : Nat) (c : Cursor) :
    Attempt (Cursor × Except Failure Untagged) :=
  textEnd source calls c.pos [] (c.pos + 1) { c with pos := c.pos + 1 }

/-- Move past the interpolation in which a cursor stands. -/
def skipExpression (source : Bytes) (calls : Nat) (c : Cursor) : Attempt (Cursor × Ending) :=
  expressionEnd source calls 1 c

/-- The tagged templates from a cursor on, behind those that have been found. -/
def templatesFrom (source : Bytes) (calls : Nat) (found : List Template) (c : Cursor) :
    Attempt (Except Failure (List Template)) :=
  match calls with
  | 0 => throw .outOfCalls
  | calls + 1 => do
    if c.pos < source.length then
      let b ← elementAt source c.pos
      if b = Byte.backtick then
        let before ← slice source (c.pos - Tag.window) c.pos
        let (c', result) ← readTemplate source calls c
        match result with
        | .error failure => return .error failure
        | .ok t =>
          match Tag.ofText? before with
          | some tag =>
            templatesFrom source calls (found ++ [⟨tag, t.start, t.stop, t.parts⟩]) c'
          | none => templatesFrom source calls found c'
      else
        let c' ← skipCode source calls b c
        templatesFrom source calls found c'
    else return .ok found

/-- The tagged templates of a source. -/
def templates (source : Bytes) (calls : Nat) : Attempt (Except Failure (List Template)) :=
  templatesFrom source calls [] ⟨0, true⟩

/-! ## More calls -/

/-- An attempt returns what another one returns, where that does not fault. -/
structure Below {α : Type} (x y : Attempt α) : Prop where
  eq_pure : ∀ r, x = pure r → y = pure r

section Below
variable {α β : Type} {x y x' y' : Attempt α}

theorem Below.refl (x : Attempt α) : Below x x := ⟨fun _ h => h⟩

theorem Below.throw (fault : Fault) (y : Attempt α) : Below (throw fault) y := by
  refine ⟨fun r h => ?_⟩
  cases h

theorem Below.bind {f g : α → Attempt β} (h : Below x y) (hf : ∀ a, Below (f a) (g a)) :
    Below (x >>= f) (y >>= g) := by
  refine ⟨fun r hr => ?_⟩
  cases x with
  | error fault => cases hr
  | ok a =>
    rw [h.eq_pure a rfl, pure_bind]
    exact (hf a).eq_pure r hr

theorem Below.ite {p : Prop} [Decidable p] (h : Below x y) (h' : Below x' y') :
    Below (if p then x else x') (if p then y else y') := by
  split_ifs
  · exact h
  · exact h'

/-- What is returned with some calls is returned with more. -/
theorem eq_pure_of_le {attempt : Nat → Attempt α}
    (h : ∀ calls, Below (attempt calls) (attempt (calls + 1))) {n m : Nat} (hle : n ≤ m) {r : α}
    (hr : attempt n = pure r) : attempt m = pure r :=
  Nat.le_induction hr (fun calls _ => (h calls).eq_pure r) m hle

end Below

section MoreCalls
variable (source : Bytes) (calls : Nat)

theorem stringEnd_below (quote : UInt8) (regex : Bool) (pos : Nat) :
    Below (stringEnd source calls quote regex pos)
      (stringEnd source (calls + 1) quote regex pos) := by
  induction calls generalizing pos with
  | zero => exact .throw _ _
  | succ calls ih =>
    exact .ite (.bind (.refl _) fun b => .ite (ih _) (.ite (.refl _) (ih _))) (.refl _)

theorem identifierEnd_below (pos : Nat) :
    Below (identifierEnd source calls pos) (identifierEnd source (calls + 1) pos) := by
  induction calls generalizing pos with
  | zero => exact .throw _ _
  | succ calls ih => exact .ite (.bind (.refl _) fun b => .ite (ih _) (.refl _)) (.refl _)

theorem advance_below (c : Cursor) :
    Below (advance source calls c) (advance source (calls + 1) c) :=
  .bind (.refl _) fun _ => .ite (.bind (identifierEnd_below ..) fun _ => .refl _) (.refl _)

theorem regexEnd_below (inClass : Bool) (pos : Nat) :
    Below (regexEnd source calls inClass pos) (regexEnd source (calls + 1) inClass pos) := by
  induction calls generalizing inClass pos with
  | zero => exact .throw _ _
  | succ calls ih =>
    refine .ite (.bind (.refl _) fun b => ?_) (.refl _)
    exact .ite (ih _ _) (.ite (.refl _) (.ite (identifierEnd_below ..)
      (.ite (ih _ _) (.ite (ih _ _) (ih _ _)))))

theorem skipRegex_below (c : Cursor) :
    Below (skipRegex source calls c) (skipRegex source (calls + 1) c) :=
  .bind (regexEnd_below ..) fun _ => .refl _

theorem lineEnd_below (pos : Nat) :
    Below (lineEnd source calls pos) (lineEnd source (calls + 1) pos) := by
  induction calls generalizing pos with
  | zero => exact .throw _ _
  | succ calls ih => exact .ite (.bind (.refl _) fun b => .ite (.refl _) (ih _)) (.refl _)

theorem commentEnd_below (pos : Nat) :
    Below (commentEnd source calls pos) (commentEnd source (calls + 1) pos) := by
  induction calls generalizing pos with
  | zero => exact .throw _ _
  | succ calls ih =>
    exact .ite (.bind (.refl _) fun b => .bind (.refl _) fun _ => .ite (.refl _) (ih _)) (.refl _)

theorem skipComment_below (c : Cursor) :
    Below (skipComment source calls c) (skipComment source (calls + 1) c) := by
  refine .bind (.refl _) fun rest => .bind (.refl _) fun _ => .ite ?_ ?_
  · exact .bind (lineEnd_below ..) fun _ => .refl _
  · exact .bind (.refl _) fun _ => .ite (.bind (commentEnd_below ..) fun _ => .refl _) (.refl _)

theorem skipSlash_below (c : Cursor) :
    Below (skipSlash source calls c) (skipSlash source (calls + 1) c) := by
  refine .bind (.refl _) fun rest => .ite (skipComment_below ..) ?_
  exact .bind (.refl _) fun _ => .ite (.bind (skipRegex_below ..) fun _ => .refl _) (.refl _)

theorem skipCode_below (b : UInt8) (c : Cursor) :
    Below (skipCode source calls b c) (skipCode source (calls + 1) b c) :=
  .ite (stringEnd_below ..) (.ite (skipSlash_below ..) (advance_below ..))

theorem textEnd_expressionEnd_below :
    (∀ start parts textStart c, Below (textEnd source calls start parts textStart c)
      (textEnd source (calls + 1) start parts textStart c)) ∧
    ∀ depth c, Below (expressionEnd source calls depth c)
      (expressionEnd source (calls + 1) depth c) := by
  induction calls with
  | zero => exact ⟨fun _ _ _ _ => .throw _ _, fun _ _ => .throw _ _⟩
  | succ calls ih =>
    obtain ⟨htext, hexpression⟩ := ih
    constructor
    · intro start parts textStart c
      refine .ite (.bind (.refl _) fun b => .ite (htext ..) (.ite (.refl _) ?_)) (.refl _)
      refine .bind (.refl _) fun _ => .ite (.bind (.refl _) fun text => ?_) (htext ..)
      refine .bind (hexpression ..) fun ⟨c', ending⟩ => ?_
      cases ending with
      | closed => exact .bind (.refl _) fun _ => htext ..
      | unterminated => exact .refl _
      | failed failure => exact .refl _
    · intro depth c
      refine .ite (.bind (.refl _) fun b => .ite ?_ (.ite (hexpression ..) (.ite ?_ ?_))) (.refl _)
      · refine .bind (htext ..) fun ⟨c', result⟩ => ?_
        cases result with
        | ok t => exact hexpression ..
        | error failure => exact .refl _
      · exact .ite (.refl _) (hexpression ..)
      · exact .bind (skipCode_below ..) fun c' => hexpression ..

end MoreCalls

section Primitives
variable {source : Bytes} {pos start stop : Nat} {b : UInt8}

theorem elementAt_eq {α : Type} {xs : List α} {i : Nat} {x : α} (h : xs[i]? = some x) :
    elementAt xs i = pure x := by
  rw [elementAt, h]

theorem slice_eq (hstart : start ≤ stop) (hstop : stop ≤ source.length) :
    slice source start stop = pure ((source.take stop).drop start) :=
  if_pos ⟨hstart, hstop⟩

/-- Looking for a byte never faults. -/
theorem holdsAt_eq (source : Bytes) (pos : Nat) (b : UInt8) :
    holdsAt source pos b = pure (decide (source[pos]? = some b)) := by
  unfold holdsAt
  split_ifs with hpos
  · rw [elementAt_eq (List.getElem?_eq_getElem hpos), pure_bind, List.getElem?_eq_getElem hpos]
    simp
  · rw [List.getElem?_eq_none (Nat.le_of_not_lt hpos)]
    simp

theorem byteBefore_eq (h : pos ≤ source.length) :
    byteBefore source pos = pure (source.take pos).getLast? := by
  unfold byteBefore
  split_ifs with hpos
  · rw [hpos]
    rfl
  · obtain ⟨n, rfl⟩ := Nat.exists_eq_succ_of_ne_zero hpos
    rw [List.getLast?_eq_getElem?, List.length_take_of_le h, Nat.succ_sub_one,
      List.getElem?_take_of_lt (Nat.lt_succ_self n), List.getElem?_eq_getElem h,
      elementAt_eq (List.getElem?_eq_getElem h), map_pure]

theorem lt_of_getElem? (h : source[pos]? = some b) : pos < source.length :=
  (List.getElem?_eq_some_iff.1 h).1

theorem exists_getElem? (h : pos < source.length) : ∃ b, source[pos]? = some b :=
  ⟨_, List.getElem?_eq_getElem h⟩

end Primitives

end Descent
end TemplateLint.Scan
