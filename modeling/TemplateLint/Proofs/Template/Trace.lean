import Mathlib
import TemplateLint.Proofs.Anchor
import TemplateLint.Proofs.Template.Body
import TemplateLint.Proofs.Text.Bytes

/-!
# Where the text of a fragment comes from

A trace says of every piece of a fragment line where it comes from. A line keeps a trace when
the anchors of the line lead every literal rune to the source column it was taken from, and the
source line of the rune is the one of the line, moved on by the newlines inside the
interpolations before it.

Lines keep a trace while pieces are added to them, when void lines are dropped and when the
lines are moved to an indentation. None of these steps loses a character or a placeholder.
-/
namespace TemplateLint
open Bytes Rune

/-- A piece of a fragment line and where it comes from. -/
inductive Glyph where
  /-- A rune of a literal, with its offset in the source. -/
  | kept (rune : Rune) (offset : Nat)
  /-- The placeholder of an interpolation. -/
  | placeholder (part : Part) (text : Bytes)
  /-- The indentation of a line inside a block. -/
  | indent (text : Bytes)
  /-- The line that opens or closes a block. Its last character stands for the backtick at an
  offset. -/
  | brace (text : Bytes) (offset : Nat)

namespace Glyph

def text : Glyph → Bytes
  | kept rune _ => rune.encode
  | placeholder _ text => text
  | indent text => text
  | brace text _ => text

/-- The text that glyphs make up. -/
def spell (glyphs : List Glyph) : Bytes := glyphs.flatMap text

/-- What a glyph says of its template. -/
def items : Glyph → List Item
  | kept rune offset => Item.ofRunes [(rune, offset)]
  | placeholder part _ => [.interpolation part]
  | _ => []

/-- The newlines of the source that a glyph leaves out. -/
def newlineCount : Glyph → Nat
  | placeholder part _ => part.text.count Byte.newline
  | _ => 0

/-- The number of newlines inside the interpolations that glyphs stand for. -/
def newlines (glyphs : List Glyph) : Nat := (glyphs.map newlineCount).sum

@[simp] theorem spell_nil : spell [] = [] := rfl

@[simp] theorem spell_append (gs hs : List Glyph) : spell (gs ++ hs) = spell gs ++ spell hs := by
  simp [spell]

@[simp] theorem spell_cons (g : Glyph) (gs : List Glyph) : spell (g :: gs) = g.text ++ spell gs :=
  rfl

@[simp] theorem newlines_append (gs hs : List Glyph) :
    newlines (gs ++ hs) = newlines gs + newlines hs := by
  simp [newlines]

theorem isUtf8_spell {gs : List Glyph} (h : ∀ g ∈ gs, isUtf8 g.text) : isUtf8 (spell gs) :=
  isUtf8_flatMap h

/-- The glyphs of a literal. -/
def ofRunes (rs : List (Rune × Nat)) : List Glyph := rs.map fun (r, o) => kept r o

theorem spell_ofRunes_placed (offset : Nat) (rs : List Rune) :
    spell (ofRunes (placed offset rs)) = encodeAll rs := by
  induction rs generalizing offset with
  | nil => rfl
  | cons r rs ih => simpa [ofRunes, placed, text] using ih (offset + r.width)

theorem flatMap_items_ofRunes (rs : List (Rune × Nat)) :
    (ofRunes rs).flatMap items = Item.ofRunes rs := by
  induction rs with
  | nil => rfl
  | cons r rs ih =>
    rw [← List.singleton_append, Item.ofRunes_append, ← ih]
    rfl

@[simp] theorem newlines_ofRunes (rs : List (Rune × Nat)) : newlines (ofRunes rs) = 0 := by
  simp [newlines, ofRunes, Function.comp_def, newlineCount]

theorem ofRunes_eq_append_kept {rs : List (Rune × Nat)} {first behind : List Glyph} {r : Rune}
    {o : Nat} (h : ofRunes rs = first ++ .kept r o :: behind) :
    ∃ xs ys, rs = xs ++ (r, o) :: ys ∧ first = ofRunes xs := by
  obtain ⟨xs, zs, rfl, hxs, hzs⟩ := List.map_eq_append_iff.1 h
  obtain ⟨z, ys, rfl, hz, -⟩ := List.map_eq_cons_iff.1 hzs
  cases hz
  exact ⟨xs, ys, rfl, hxs.symm⟩

end Glyph

/-! ## Placeholders -/

namespace Placeholder

/-- The texts that may stand for the `n`th interpolation. -/
inductive IsText (n : Nat) : Bytes → Prop
  /-- A whole declaration that the text behind it closes. -/
  | declaration :
    IsText n (Bytes.ofString "-styled-mixin" ++ Bytes.ofNat n ++ Bytes.ofString ": dummyValue")
  /-- A whole declaration that closes itself. -/
  | closed :
    IsText n (Bytes.ofString "-styled-mixin" ++ Bytes.ofNat n ++ Bytes.ofString ": dummyValue" ++
      [Byte.semicolon])
  | selector : IsText n (Bytes.ofString ".sc-selector" ++ Bytes.ofNat n)
  | value : IsText n (Bytes.ofString "$dummyValue" ++ Bytes.ofNat n)

theorem isText_choose (n : Nat) (before : Bytes) (blank : Bool) (pieces : List Part) :
    IsText n (choose n before blank pieces).1 := by
  unfold choose
  dsimp only
  split
  · split
    · rw [List.append_nil]
      exact .declaration
    · exact .closed
  · split
    · exact .selector
    · split
      · exact .selector
      · exact .value

/-- The bytes that placeholders are made of. -/
def isByte (b : UInt8) : Bool :=
  Byte.isLetter b || Byte.isDigit b || b == Byte.hyphen || b == Byte.dot || b == Byte.dollar ||
    b == Byte.colon || b == Byte.semicolon || b == Byte.space

theorem isIndent_of_isDigit {b : UInt8} (h : Byte.isDigit b = true) :
    Byte.isIndent b = false := by
  simp only [Byte.isDigit, Bool.and_eq_true, decide_eq_true_eq, UInt8.le_iff_toNat_le] at h
  simp only [Byte.isIndent, Bool.or_eq_false_iff, beq_eq_false_iff_ne, ne_eq,
    ← UInt8.toNat_inj, Byte.space, Byte.tab, UInt8.reduceToNat] at h ⊢
  omega

theorem isByte_of_mem {n : Nat} {text : Bytes} (h : IsText n text) :
    ∀ b ∈ text, isByte b = true := by
  have digits : ∀ b ∈ Bytes.ofNat n, isByte b = true := by
    intro b hb
    simp [isByte, Bytes.isDigit_of_mem_ofNat hb]
  have words : ∀ w ∈ ["-styled-mixin", ": dummyValue", ".sc-selector", "$dummyValue"],
      ∀ b ∈ Bytes.ofString w, isByte b = true := by decide +kernel
  simp only [List.forall_mem_cons] at words
  obtain ⟨mixin, value, selector, dummy, -⟩ := words
  have semicolon : ∀ b ∈ [Byte.semicolon], isByte b = true := by decide +kernel
  cases h with
  | declaration => simpa only [List.forall_mem_append] using ⟨⟨mixin, digits⟩, value⟩
  | closed =>
    simpa only [List.forall_mem_append] using ⟨⟨⟨mixin, digits⟩, value⟩, semicolon⟩
  | selector => simpa only [List.forall_mem_append] using ⟨selector, digits⟩
  | value => simpa only [List.forall_mem_append] using ⟨dummy, digits⟩

theorem ascii_of_isByte {b : UInt8} (h : isByte b = true) : b < 0x80 ∧ b ≠ Byte.newline := by
  simp only [isByte, Byte.isLetter, Byte.isLower, Byte.isUpper, Byte.isDigit, Byte.hyphen,
    Byte.dot, Byte.dollar, Byte.colon, Byte.semicolon, Byte.space, Byte.newline,
    Bool.or_eq_true, Bool.and_eq_true, decide_eq_true_eq, beq_iff_eq, UInt8.le_iff_toNat_le,
    UInt8.lt_iff_toNat_lt, ne_eq, ← UInt8.toNat_inj, UInt8.reduceToNat] at h ⊢
  omega

theorem ascii_of_isText {n : Nat} {text : Bytes} (h : IsText n text) : ∀ b ∈ text, b < 0x80 :=
  fun b hb => (ascii_of_isByte (isByte_of_mem h b hb)).1

theorem newline_not_mem {n : Nat} {text : Bytes} (h : IsText n text) : Byte.newline ∉ text :=
  fun hm => (ascii_of_isByte (isByte_of_mem h _ hm)).2 rfl

/-- A placeholder starts and ends with a byte that is no white space. -/
theorem ends_of_isText {n : Nat} {text : Bytes} (h : IsText n text) :
    ∃ a b, text.head? = some a ∧ text.getLast? = some b ∧
      (a = Byte.hyphen ∨ a = Byte.dot ∨ a = Byte.dollar) ∧ Byte.isIndent b = false := by
  have digit : ∃ b, (Bytes.ofNat n).getLast? = some b ∧ Byte.isIndent b = false := by
    refine ⟨_, List.getLast?_eq_some_getLast (Bytes.ofNat_ne_nil n), ?_⟩
    exact isIndent_of_isDigit (Bytes.isDigit_of_mem_ofNat (List.getLast_mem (Bytes.ofNat_ne_nil n)))
  obtain ⟨d, hd, hindent⟩ := digit
  cases h with
  | declaration =>
    refine ⟨Byte.hyphen, 0x65, rfl, ?_, .inl rfl, by decide⟩
    rw [List.getLast?_append]
    rfl
  | closed =>
    refine ⟨Byte.hyphen, Byte.semicolon, rfl, ?_, .inl rfl, by decide⟩
    rw [List.getLast?_append]
    rfl
  | selector =>
    refine ⟨Byte.dot, d, rfl, ?_, .inr (.inl rfl), hindent⟩
    rw [List.getLast?_append, hd]
    rfl
  | value =>
    refine ⟨Byte.dollar, d, rfl, ?_, .inr (.inr rfl), hindent⟩
    rw [List.getLast?_append, hd]
    rfl

end Placeholder

/-! ## Lines with a trace -/

namespace Glyph

/-- A glyph of a template's own text. -/
def IsBody : Glyph → Prop
  | kept rune _ => ∃ c, rune = .char c
  | placeholder _ text => ∃ n, Placeholder.IsText n text
  | indent _ => False
  | brace _ _ => False

theorem isUtf8_of_isBody {g : Glyph} (h : g.IsBody) : isUtf8 g.text = true := by
  cases g with
  | kept r o =>
    obtain ⟨c, rfl⟩ := h
    exact isUtf8_iff.2 ⟨[c], by simp [text, encode]⟩
  | placeholder p text =>
    obtain ⟨n, h⟩ := h
    exact isUtf8_of_ascii (Placeholder.ascii_of_isText h)
  | indent text => exact h.elim
  | brace text o => exact h.elim

/-- The runes of a valid text are characters. -/
theorem isBody_of_mem_ofRunes {s : Bytes} (h : isUtf8 s) {offset : Nat} {g : Glyph}
    (hg : g ∈ ofRunes (placed offset (decode s))) : g.IsBody := by
  obtain ⟨first, behind, heq⟩ := List.append_of_mem hg
  obtain ⟨⟨r, o⟩, -, rfl⟩ := List.mem_map.1 hg
  obtain ⟨xs, ys, hxs, -⟩ := ofRunes_eq_append_kept heq
  obtain ⟨before, rest, hrs, -, -⟩ := placed_eq_append_cons hxs
  have hr : r ∈ decode s := by simp [hrs]
  cases r with
  | char c => exact ⟨c, rfl⟩
  | stray b => simpa [isStray] using List.all_eq_true.1 h _ hr

end Glyph

/-- A line that keeps a trace. -/
structure FragmentLine.Traced (source : Bytes) (line : FragmentLine) (glyphs : List Glyph) :
    Prop where
  text : line.text = Glyph.spell glyphs
  valid : ∀ g ∈ glyphs, isUtf8 g.text
  single : Byte.newline ∉ line.text
  anchored : glyphs ≠ [] → line.anchors ≠ []
  column : ∀ before r o behind, glyphs = before ++ .kept r o :: behind →
    Anchor.sourceColumn (runeCount (Glyph.spell before) + 1) line.anchors =
      (Position.ofOffset source o).column
  row : ∀ before r o behind, glyphs = before ++ .kept r o :: behind →
    (Position.ofOffset source o).line = line.origin + Glyph.newlines before

/-- A line that keeps a trace up to an offset of the source, where it goes on. -/
structure FragmentLine.Reaches (source : Bytes) (line : FragmentLine) (glyphs : List Glyph)
    (stop : Nat) : Prop extends line.Traced source glyphs where
  body : ∀ g ∈ glyphs, g.IsBody
  here : (Position.ofOffset source stop).line = line.origin + Glyph.newlines glyphs
  covered : ∀ a ∈ line.anchors, a.fragment ≤ runeCount line.text + 1

namespace FragmentLine
open Glyph
variable {source : Bytes} {line : FragmentLine} {glyphs : List Glyph}

/-- Where a literal rune can stand among the glyphs of a line and of what is added to it. -/
theorem append_eq_kept {gs hs before behind : List Glyph} {r : Rune} {o : Nat}
    (h : gs ++ hs = before ++ .kept r o :: behind) :
    (∃ rest, gs = before ++ .kept r o :: rest) ∨
      ∃ first, before = gs ++ first ∧ hs = first ++ .kept r o :: behind := by
  rcases List.append_eq_append_iff.1 h with ⟨first, rfl, hhs⟩ | ⟨rest, rfl, hrest⟩
  · exact .inr ⟨first, rfl, hhs⟩
  · cases rest with
    | nil => exact .inr ⟨[], by simp, by simpa using hrest.symm⟩
    | cons g rest =>
      obtain ⟨rfl, -⟩ := List.cons.inj hrest
      exact .inl ⟨rest, rfl⟩

@[simp] theorem origin_pin (line : FragmentLine) (column : Nat) :
    (line.pin column).origin = line.origin := rfl

@[simp] theorem placeholder_pin (line : FragmentLine) (column : Nat) :
    (line.pin column).placeholder = line.placeholder := rfl

theorem runeCount_spell_le {before behind : List Glyph} {g : Glyph}
    (h : ∀ x ∈ before ++ g :: behind, isUtf8 x.text) (hg : 0 < runeCount g.text) :
    runeCount (spell before) + 1 ≤ runeCount (spell (before ++ g :: behind)) := by
  have hb : isUtf8 (spell before) := isUtf8_spell fun x hx => h x (by simp [hx])
  have hg' : isUtf8 g.text := h g (by simp)
  rw [spell_append, runeCount_append hb, spell_cons, runeCount_append hg']
  omega

/-- Glyphs are added to a line behind an anchor that pins their first column. -/
theorem Reaches.add {stop stop' : Nat} (h : line.Reaches source glyphs stop) {more : List Glyph}
    {column : Nat} (placeholder : Bool) (hne : 1 ≤ column)
    (hbody : ∀ g ∈ more, g.IsBody) (hsingle : Byte.newline ∉ spell more)
    (hkept : ∀ first r o behind, more = first ++ .kept r o :: behind →
      Position.ofOffset source o =
        ⟨line.origin + newlines glyphs + newlines first, column + runeCount (spell first)⟩)
    (hhere : (Position.ofOffset source stop').line =
      line.origin + newlines glyphs + newlines more) :
    Reaches source { line.pin column with text := line.text ++ spell more, placeholder }
      (glyphs ++ more) stop' := by
  have htext : isUtf8 line.text := by rw [h.text]; exact isUtf8_spell h.valid
  refine { text := ?_, valid := ?_, single := ?_, anchored := ?_, column := ?_, row := ?_,
           body := ?_, here := ?_, covered := ?_ }
  · rw [spell_append, h.text]
  · exact List.forall_mem_append.2 ⟨h.valid, fun g hg => isUtf8_of_isBody (hbody g hg)⟩
  · exact fun hm => (List.mem_append.1 hm).elim h.single hsingle
  · intro _
    simp [pin]
  · intro before r o behind heq
    rcases append_eq_kept heq with ⟨rest, hgs⟩ | ⟨first, rfl, hmore⟩
    · -- an old glyph: the new anchor lies behind its column
      have hanchors : line.anchors ≠ [] := h.anchored (by simp [hgs])
      have hle : runeCount (spell before) + 1 ≤ runeCount line.text := by
        rw [h.text, hgs]
        exact runeCount_spell_le (hgs ▸ h.valid) (by simp [Glyph.text, runeCount_encode])
      rw [pin, Anchor.sourceColumn_append_of_lt (by simp only; omega) hanchors]
      exact h.column before r o rest hgs
    · -- a new glyph: the new anchor decides
      have hcount : runeCount (spell (glyphs ++ first)) =
          runeCount line.text + runeCount (spell first) := by
        rw [spell_append, ← h.text, runeCount_append htext]
      rw [pin, Anchor.sourceColumn_append_of_le (by omega) (by simp only; omega) ?_,
        hkept first r o behind hmore]
      · simp only
        omega
      · intro b hb
        have := h.covered b hb
        omega
  · intro before r o behind heq
    rcases append_eq_kept heq with ⟨rest, hgs⟩ | ⟨first, rfl, hmore⟩
    · exact h.row before r o rest hgs
    · rw [hkept first r o behind hmore, newlines_append, ← Nat.add_assoc]
      rfl
  · exact List.forall_mem_append.2 ⟨h.body, hbody⟩
  · rw [hhere, newlines_append, ← Nat.add_assoc]
    rfl
  · intro a ha
    rw [pin, List.mem_append, List.mem_singleton] at ha
    simp only [runeCount_append htext]
    rcases ha with ha | rfl
    · have := h.covered a ha
      omega
    · simp only
      omega

/-- Adding a literal piece: its first column is pinned and the others follow. -/
theorem Reaches.literal {p : Part} (h : line.Reaches source glyphs p.offset)
    (hs : p.SitsIn source) (hsingle : Byte.newline ∉ p.text) (placeholder : Bool) :
    Reaches source
      { line.pin (Position.ofOffset source p.offset).column with
        text := line.text ++ p.text, placeholder }
      (glyphs ++ ofRunes (placed p.offset (decode p.text))) (p.offset + p.text.length) := by
  have htext : spell (ofRunes (placed p.offset (decode p.text))) = p.text := by
    rw [spell_ofRunes_placed, encodeAll_decode]
  have hkept : ∀ first r o behind,
      ofRunes (placed p.offset (decode p.text)) = first ++ .kept r o :: behind →
      Position.ofOffset source o = ⟨line.origin + newlines glyphs + newlines first,
        (Position.ofOffset source p.offset).column + runeCount (spell first)⟩ := by
    intro first r o behind heq
    obtain ⟨xs, ys, hxs, rfl⟩ := ofRunes_eq_append_kept heq
    obtain ⟨before, rest, hrs, rfl, rfl⟩ := placed_eq_append_cons hxs
    have hsplit : p.text = encodeAll before ++ encodeAll (r :: rest) := by
      rw [← encodeAll_append, ← hrs, encodeAll_decode]
    have hn : Byte.newline ∉ encodeAll before := fun hm =>
      hsingle (by rw [hsplit]; exact List.mem_append_left _ hm)
    rw [hs.ofOffset_add hsplit, Position.after_of_not_mem _ hn, h.here, newlines_ofRunes,
      spell_ofRunes_placed, Nat.add_zero]
  have hhere : (Position.ofOffset source (p.offset + p.text.length)).line =
      line.origin + newlines glyphs + newlines (ofRunes (placed p.offset (decode p.text))) := by
    rw [hs.ofOffset_add (List.append_nil p.text).symm, Position.after_of_not_mem _ hsingle, h.here,
      newlines_ofRunes, Nat.add_zero]
  have added := h.add placeholder (Position.one_le_column_ofOffset source p.offset)
    (fun g hg => isBody_of_mem_ofRunes hs.valid hg) (by rwa [htext]) hkept hhere
  rwa [htext] at added

/-- Adding a placeholder. -/
theorem Reaches.placeholder {p : Part} (h : line.Reaches source glyphs p.offset)
    (hs : p.SitsIn source) {n : Nat} {text : Bytes} (ht : Placeholder.IsText n text)
    (placeholder : Bool) :
    Reaches source
      { line.pin (Position.ofOffset source p.offset).column with
        text := line.text ++ text, placeholder }
      (glyphs ++ [.placeholder p text]) (p.offset + p.text.length) := by
  have hbody : ∀ g ∈ [Glyph.placeholder p text], g.IsBody := by
    simpa [IsBody] using ⟨n, ht⟩
  have hsingle : Byte.newline ∉ spell [Glyph.placeholder p text] := by
    simpa [Glyph.text] using Placeholder.newline_not_mem ht
  have hhere : (Position.ofOffset source (p.offset + p.text.length)).line =
      line.origin + newlines glyphs + newlines [.placeholder p text] := by
    rw [hs.ofOffset_add (List.append_nil p.text).symm, Position.line_after, h.here]
    simp [newlines, newlineCount]
  have added := h.add placeholder (Position.one_le_column_ofOffset source p.offset) hbody
    hsingle (fun first r o behind heq => absurd heq (by cases first <;> simp)) hhere
  simpa [Glyph.text] using added

/-! ## Building a line -/

/-- The pieces of a line keep a trace that loses none of them. -/
theorem Reaches.addPieces {pieces : List Part} {first stop : Nat}
    (h : line.Reaches source glyphs first) (hab : Abut source first pieces stop)
    (hs : ∀ p ∈ pieces, p.SitsIn source)
    (hsingle : ∀ p ∈ pieces, p.interpolated = false → Byte.newline ∉ p.text)
    (n : Nat) (blank : Bool) :
    ∃ more, Reaches source (addPieces source n line blank pieces).1 (glyphs ++ more) stop ∧
      more.flatMap Glyph.items = pieces.flatMap Part.items := by
  induction pieces generalizing line glyphs first n blank with
  | nil =>
    rw [Abut] at hab
    subst hab
    exact ⟨[], by simpa [FragmentLine.addPieces] using h, rfl⟩
  | cons p rest ih =>
    obtain ⟨rfl, -, hab⟩ := hab
    rw [List.forall_mem_cons] at hs hsingle
    rw [FragmentLine.addPieces]
    cases hi : p.interpolated with
    | true =>
      obtain ⟨more, hmore, hitems⟩ :=
        ih (h.placeholder hs.1 (Placeholder.isText_choose n line.text blank rest)
          (line.placeholder || (Placeholder.choose n line.text blank rest).2)) hab hs.2 hsingle.2
          (n + 1) (blank && (Placeholder.choose n line.text blank rest).2)
      refine ⟨[.placeholder p (Placeholder.choose n line.text blank rest).1] ++ more, ?_, ?_⟩
      · simpa using hmore
      · rw [List.flatMap_append, hitems, List.flatMap_cons, List.flatMap_cons,
          Part.items_interpolation hi]
        rfl
    | false =>
      obtain ⟨more, hmore, hitems⟩ :=
        ih (h.literal hs.1 (hsingle.1 hi) line.placeholder) hab hs.2 hsingle.2 n
          (blank && (Bytes.trim Placeholder.isFiller p.text).isEmpty)
      refine ⟨ofRunes (placed p.offset (decode p.text)) ++ more, ?_, ?_⟩
      · simpa using hmore
      · rw [List.flatMap_append, hitems, flatMap_items_ofRunes, List.flatMap_cons,
          Part.items_literal hi]

end FragmentLine
end TemplateLint
