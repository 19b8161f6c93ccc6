import Mathlib
import TemplateLint.Proofs.Position
import TemplateLint.Proofs.Template.Scan
import TemplateLint.Template.Fragment

/-!
# The lines of a template

Cutting a template into lines loses none of its literal characters but newlines and carriage
returns, keeps every interpolation, and leaves the pieces of a line abutting in the source. So
the source line of a piece is that of its line start, moved on by the newlines inside the
interpolations between them.
-/
namespace TemplateLint

namespace Rune

/-- Runes that stand at an offset one behind the other, each with its own offset. -/
def placed : Nat → List Rune → List (Rune × Nat)
  | _, [] => []
  | offset, r :: rs => (r, offset) :: placed (offset + r.width) rs

/-- The runes that are no white space. -/
def visible (rs : List (Rune × Nat)) : List (Rune × Nat) :=
  rs.filter fun r => !Blank.isBlankRune r.1

theorem placed_append (offset : Nat) (rs ss : List Rune) :
    placed offset (rs ++ ss) = placed offset rs ++ placed (offset + (encodeAll rs).length) ss := by
  induction rs generalizing offset with
  | nil => rfl
  | cons r rs ih =>
    rw [List.cons_append, placed, ih, placed, encodeAll_cons, List.length_append, width,
      List.cons_append, Nat.add_assoc]

/-- The runes of a text that starts with a valid one. -/
theorem placed_decode_append (offset : Nat) {s : Bytes} (h : Bytes.isUtf8 s) (t : Bytes) :
    placed offset (decode (s ++ t)) =
      placed offset (decode s) ++ placed (offset + s.length) (decode t) := by
  rw [Bytes.decode_append h, placed_append, encodeAll_decode]

/-- A rune among placed runes: what comes before it is placed too. -/
theorem placed_eq_append_cons {offset o : Nat} {r : Rune} {rs : List Rune}
    {first behind : List (Rune × Nat)} (h : placed offset rs = first ++ (r, o) :: behind) :
    ∃ before rest, rs = before ++ r :: rest ∧ first = placed offset before ∧
      o = offset + (encodeAll before).length := by
  induction first generalizing offset rs with
  | nil =>
    cases rs with
    | nil => cases h
    | cons x rs =>
      obtain ⟨hx, -⟩ := List.cons.inj h
      obtain ⟨rfl, rfl⟩ := Prod.mk.inj hx
      exact ⟨[], rs, rfl, rfl, rfl⟩
  | cons y first ih =>
    cases rs with
    | nil => cases h
    | cons x rs =>
      obtain ⟨rfl, htail⟩ := List.cons.inj h
      obtain ⟨before, rest, rfl, rfl, rfl⟩ := ih htail
      refine ⟨x :: before, rest, rfl, rfl, ?_⟩
      rw [encodeAll_cons, List.length_append, width, Nat.add_assoc]

@[simp] theorem visible_nil : visible [] = [] := rfl

@[simp] theorem visible_append (rs ss : List (Rune × Nat)) :
    visible (rs ++ ss) = visible rs ++ visible ss :=
  List.filter_append ..

theorem visible_cons_of_isBlank {r : Rune} (h : Blank.isBlankRune r = true) (offset : Nat)
    (rs : List (Rune × Nat)) : visible ((r, offset) :: rs) = visible rs := by
  rw [visible, List.filter_cons_of_neg (by simp [h]), visible]

end Rune

/-- What a template says, white space aside: characters of its literals and interpolations. -/
inductive Item where
  /-- A character with its offset in the source. -/
  | character (rune : Rune) (offset : Nat)
  | interpolation (part : Part)

namespace Item
open Rune

/-- The characters among runes. -/
def ofRunes (rs : List (Rune × Nat)) : List Item := (visible rs).map fun r => character r.1 r.2

@[simp] theorem ofRunes_nil : ofRunes [] = [] := rfl

@[simp] theorem ofRunes_append (rs ss : List (Rune × Nat)) :
    ofRunes (rs ++ ss) = ofRunes rs ++ ofRunes ss := by
  simp [ofRunes]

theorem ofRunes_cons_of_isBlank {r : Rune} (h : Blank.isBlankRune r = true) (offset : Nat)
    (rs : List (Rune × Nat)) : ofRunes ((r, offset) :: rs) = ofRunes rs := by
  rw [ofRunes, visible_cons_of_isBlank h, ofRunes]

end Item

namespace Part
open Bytes Rune

/-- A part that is a piece of the source between two characters of it. -/
structure SitsIn (source : Bytes) (p : Part) : Prop where
  cut : isUtf8 (source.take p.offset)
  text : p.text <+: source.drop p.offset
  valid : isUtf8 p.text

/-- What a part says. -/
def items (p : Part) : List Item :=
  if p.interpolated then [.interpolation p] else Item.ofRunes (placed p.offset (decode p.text))

theorem items_interpolation {p : Part} (h : p.interpolated = true) :
    p.items = [.interpolation p] := by
  rw [items, if_pos h]

theorem items_literal {p : Part} (h : p.interpolated = false) :
    p.items = Item.ofRunes (placed p.offset (decode p.text)) := by
  rw [items, if_neg (by simp [h])]

/-- The source up to a place inside a piece of it. -/
theorem SitsIn.take_add {source : Bytes} {p : Part} (h : p.SitsIn source) {n : Nat}
    (hn : n ≤ p.text.length) :
    source.take (p.offset + n) = source.take p.offset ++ p.text.take n := by
  obtain ⟨behind, hb⟩ := h.text
  rw [List.take_add, ← hb, List.take_append_of_le_length hn]

/-- Inside a piece of the source positions go on with its text. -/
theorem SitsIn.ofOffset_add {source : Bytes} {p : Part} (h : p.SitsIn source) {s t : Bytes}
    (hs : p.text = s ++ t) :
    Position.ofOffset source (p.offset + s.length) =
      (Position.ofOffset source p.offset).after s := by
  have hn : s.length ≤ p.text.length := by rw [hs, List.length_append]; omega
  rw [Position.ofOffset, h.take_add hn, Position.after_append _ h.cut, hs, List.take_left,
    Position.ofOffset]

/-- A valid text at the start of a piece is a piece too. -/
theorem SitsIn.initial {source : Bytes} {p : Part} (h : p.SitsIn source) {s t : Bytes}
    (hs : p.text = s ++ t) (hv : isUtf8 s) (i : Bool) :
    SitsIn source ⟨i, s, p.offset⟩ where
  cut := h.cut
  text := (hs ▸ List.prefix_append s t : s <+: p.text).trans h.text
  valid := hv

/-- A text behind a valid one is a piece too. -/
theorem SitsIn.behind {source : Bytes} {p : Part} (h : p.SitsIn source) {s t : Bytes}
    (hs : p.text = s ++ t) (hv : isUtf8 s) (i : Bool) :
    SitsIn source ⟨i, t, p.offset + s.length⟩ where
  cut := by
    have hn : s.length ≤ p.text.length := by rw [hs, List.length_append]; omega
    rw [h.take_add hn, hs, List.take_left, isUtf8_append h.cut, hv]
  text := by
    obtain ⟨rest, hr⟩ := h.text
    rw [← List.drop_drop, ← hr, hs, List.append_assoc, List.drop_left]
    exact List.prefix_append t rest
  valid := by
    have := h.valid
    rw [hs] at this
    exact isUtf8_of_append this hv

end Part

namespace Template
open Bytes Rune

/-- A valid source can be cut before and behind a byte of ASCII. -/
theorem cut_at_ascii {source : Bytes} (hv : isUtf8 source) {o : Nat} {b : UInt8}
    (h : source[o]? = some b) (hb : b < 0x80) :
    isUtf8 (source.take o) = true ∧ isUtf8 (source.take (o + 1)) = true := by
  obtain ⟨hlt, rfl⟩ := List.getElem?_eq_some_iff.1 h
  have split : source = source.take o ++ source[o] :: source.drop (o + 1) := by
    rw [List.getElem_cons_drop, List.take_append_drop]
  have before : isUtf8 (source.take o) = true := by
    rw [split] at hv
    exact isUtf8_of_append_cons hv (isTail_of_ascii hb)
  refine ⟨before, ?_⟩
  rw [List.take_add_one, h, Option.toList_some, isUtf8_append before, isUtf8_ascii_cons hb]
  rfl

theorem getElem?_of_isPrefix {source s : Bytes} {a k : Nat} {b : UInt8}
    (h : s <+: source.drop a) (hk : s[k]? = some b) : source[a + k]? = some b := by
  obtain ⟨rest, hrest⟩ := h
  rw [← List.getElem?_drop, ← hrest,
    List.getElem?_append_left (List.getElem?_eq_some_iff.1 hk).1, hk]

/-- Abutting parts that alternate sit in a valid source, when the first of them starts where the
source can be cut and a byte of ASCII follows the last. -/
theorem sitsIn_of_abut {source : Bytes} (hv : isUtf8 source) {a b : Nat} {i : Bool}
    {parts : List Part} (hab : Abut source a parts b) (halt : Alternate i parts true)
    (hdel : ∀ p ∈ parts, p.IsDelimited) (ha : isUtf8 (source.take a)) {e : UInt8}
    (he : source[b]? = some e) (hascii : e < 0x80) :
    ∀ p ∈ parts, p.SitsIn source := by
  induction parts generalizing a i with
  | nil => simp
  | cons p ps ih =>
    obtain ⟨rfl, htext, hab⟩ := hab
    obtain ⟨rfl, halt⟩ := halt
    -- the source can be cut behind the part: a literal is followed by a delimiter or by the
    -- end of the template, and an interpolation ends in a brace
    have behind : isUtf8 (source.take (p.offset + p.text.length)) = true := by
      cases hp : p.interpolated with
      | true =>
        have hlast := (hdel p (by simp) hp).2
        rw [List.getLast?_eq_getElem?] at hlast
        have hlt := (List.getElem?_eq_some_iff.1 hlast).1
        have := (cut_at_ascii hv (getElem?_of_isPrefix htext hlast) (by decide)).2
        rwa [show p.offset + (p.text.length - 1) + 1 = p.offset + p.text.length by omega] at this
      | false =>
        cases ps with
        | nil =>
          rw [Abut] at hab
          rw [hab]
          exact (cut_at_ascii hv he hascii).1
        | cons q ps =>
          have hhead := (hdel q (by simp) (by rw [halt.1, hp]; rfl)).1
          rw [List.head?_eq_getElem?] at hhead
          exact (cut_at_ascii hv (getElem?_of_isPrefix hab.2.1 hhead) (by decide)).1
    have sits : p.SitsIn source := {
      cut := ha
      text := htext
      valid := by
        obtain ⟨rest, hrest⟩ := htext
        rw [List.take_add, ← hrest, List.take_left, isUtf8_append ha] at behind
        exact behind }
    intro q hq
    rcases List.mem_cons.1 hq with rfl | hq
    · exact sits
    · exact ih hab halt (fun q hq => hdel q (List.mem_cons_of_mem _ hq)) behind q hq

/-- The parts of a template that lies in a valid source are pieces of it. -/
theorem LiesIn.sitsIn {source : Bytes} {t : Template} (h : t.LiesIn source)
    (hv : isUtf8 source) : ∀ p ∈ t.parts, p.SitsIn source :=
  sitsIn_of_abut hv h.abut h.alternate h.delimited (cut_at_ascii hv h.opening (by decide)).2
    h.closing (by decide)

end Template

namespace BodyLine
open Bytes Rune

/-! ## Pieces of a line -/

/-- A line whose pieces abut in the source up to an offset, from a place on the source line that
the line counts for. -/
structure LaidIn (source : Bytes) (line : BodyLine) (stop : Nat) : Prop where
  abut : ∃ first, Abut source first line.pieces stop ∧
    (Position.ofOffset source first).line = (Position.ofOffset source line.offset).line
  sits : ∀ p ∈ line.pieces, p.SitsIn source
  single : ∀ p ∈ line.pieces, p.interpolated = false → Byte.newline ∉ p.text
  delimited : ∀ p ∈ line.pieces, p.IsDelimited

theorem laidIn_nil (source : Bytes) (offset : Nat) : LaidIn source ⟨offset, []⟩ offset where
  abut := ⟨offset, rfl, rfl⟩
  sits := by simp
  single := by simp
  delimited := by simp

theorem push_of_nil (line : BodyLine) {p : Part} (h : p.text = []) : line.push p = line := by
  simp [push, h]

theorem push_of_ne_nil (line : BodyLine) {p : Part} (h : p.text ≠ []) :
    line.push p = ⟨line.offset, line.pieces ++ [p]⟩ := by
  simp [push, h]

/-- A piece is added where the line ends so far. -/
theorem LaidIn.push {source : Bytes} {line : BodyLine} {p : Part}
    (h : line.LaidIn source p.offset) (hs : p.SitsIn source)
    (hsingle : p.interpolated = false → Byte.newline ∉ p.text) (hdel : p.IsDelimited) :
    (line.push p).LaidIn source (p.offset + p.text.length) := by
  by_cases hp : p.text = []
  · rw [push_of_nil line hp, hp]
    exact h
  · rw [push_of_ne_nil line hp]
    obtain ⟨first, habut, hline⟩ := h.abut
    exact {
      abut := ⟨first, habut.snoc rfl hs.text, hline⟩
      sits := by simpa [or_imp, forall_and] using ⟨h.sits, hs⟩
      single := by simpa [or_imp, forall_and] using ⟨h.single, hsingle⟩
      delimited := by simpa [or_imp, forall_and] using ⟨h.delimited, hdel⟩ }

/-- What a line says. -/
def items (line : BodyLine) : List Item := line.pieces.flatMap Part.items

theorem items_push (line : BodyLine) {p : Part} (h : p.IsDelimited) :
    (line.push p).items = line.items ++ p.items := by
  by_cases hp : p.text = []
  · cases hi : p.interpolated with
    | true => simpa [hp] using (h hi).1
    | false => simp [push_of_nil line hp, Part.items_literal hi, hp, placed]
  · simp [push_of_ne_nil line hp, items]

/-! ## Lines of a literal -/

/-- Dropping the carriage return of a line end drops at most that byte. -/
theorem withoutReturn_append (s : Bytes) :
    ∃ t, s = withoutReturn s ++ t ∧ (t = [] ∨ t = [Byte.carriageReturn]) := by
  unfold withoutReturn
  split
  · next b hb =>
    split
    · next hr =>
      refine ⟨[b], ?_, .inr (by rw [hr])⟩
      rw [List.getLast?_eq_some_iff] at hb
      obtain ⟨ys, rfl⟩ := hb
      rw [List.dropLast_concat]
    · exact ⟨[], by simp, .inl rfl⟩
  · exact ⟨[], by simp, .inl rfl⟩

theorem isUtf8_withoutReturn {s : Bytes} (h : isUtf8 s) : isUtf8 (withoutReturn s) = true := by
  obtain ⟨t, hs, rfl | rfl⟩ := withoutReturn_append s
  · rw [List.append_nil] at hs
    rwa [hs] at h
  · rw [hs] at h
    exact isUtf8_of_append_cons h (isTail_of_ascii (by decide))

/-- No character is lost with the carriage return. -/
theorem ofRunes_withoutReturn {s : Bytes} (h : isUtf8 s) (offset : Nat) :
    Item.ofRunes (placed offset (decode (withoutReturn s))) =
      Item.ofRunes (placed offset (decode s)) := by
  have hv := isUtf8_withoutReturn h
  obtain ⟨t, hs, rfl | rfl⟩ := withoutReturn_append s
  · rw [List.append_nil] at hs
    rw [← hs]
  · conv_rhs => rw [hs, placed_decode_append offset hv, Item.ofRunes_append]
    rw [decode_ascii_cons (by decide), placed, Item.ofRunes_cons_of_isBlank (by decide)]
    simp [placed]

theorem addLines_cons_lines (line : BodyLine) (offset : Nat) (text more : Bytes) :
    line.addLines offset (text :: lines more) =
      (line.push ⟨false, withoutReturn text, offset⟩ ::
          (addLines ⟨offset + text.length + 1, []⟩ (offset + text.length + 1) (lines more)).1,
        (addLines ⟨offset + text.length + 1, []⟩ (offset + text.length + 1) (lines more)).2) := by
  obtain ⟨next, rest, h⟩ := List.exists_cons_of_ne_nil (List.splitOn_ne_nil Byte.newline more)
  rw [lines, h]
  rfl

/-- The lines of a literal are laid in the source when the literal sits in it. -/
theorem laidIn_addLines {source : Bytes} {line : BodyLine} {offset : Nat} {text : Bytes}
    (hline : line.LaidIn source offset) (hs : Part.SitsIn source ⟨false, text, offset⟩) :
    (∀ l ∈ (line.addLines offset (lines text)).1, ∃ stop, l.LaidIn source stop) ∧
      (line.addLines offset (lines text)).2.LaidIn source (offset + text.length) := by
  induction text using lineInduction generalizing line offset with
  | last text hn =>
    rw [lines_of_not_mem hn]
    refine ⟨by simp [addLines], ?_⟩
    exact hline.push hs (fun _ => hn) (fun h => absurd h (by simp))
  | line s t hn ih =>
    have hsv : isUtf8 s = true := isUtf8_before_newline hs.valid
    have hbehind : Part.SitsIn source ⟨false, t, offset + s.length + 1⟩ := by
      have := hs.behind (s := s ++ [Byte.newline]) (t := t) (by simp)
        (by rw [isUtf8_append hsv]; decide) false
      simpa [Nat.add_assoc] using this
    obtain ⟨hcomplete, hlast⟩ := ih (laidIn_nil source (offset + s.length + 1)) hbehind
    rw [lines_append_newline hn, addLines_cons_lines]
    refine ⟨?_, ?_⟩
    · intro l hl
      rcases List.mem_cons.1 hl with rfl | hl
      · obtain ⟨r, hr, -⟩ := withoutReturn_append s
        have hpiece := hs.initial (s := withoutReturn s) (t := r ++ Byte.newline :: t)
          (by rw [← List.append_assoc, ← hr]) (isUtf8_withoutReturn hsv) false
        refine ⟨_, hline.push hpiece (fun _ hm => hn ?_) (fun h => absurd h (by simp))⟩
        rw [hr]
        exact List.mem_append_left _ hm
      · exact hcomplete l hl
    · have : offset + (s ++ Byte.newline :: t).length = offset + s.length + 1 + t.length := by
        simp only [List.length_append, List.length_cons]
        omega
      rw [this]
      exact hlast

/-- The lines of a literal hold its characters in their order. -/
theorem items_addLines (line : BodyLine) (offset : Nat) {text : Bytes} (h : isUtf8 text) :
    (line.addLines offset (lines text)).1.flatMap items ++
        (line.addLines offset (lines text)).2.items =
      line.items ++ Item.ofRunes (placed offset (decode text)) := by
  have push (line : BodyLine) (offset : Nat) (s : Bytes) :
      (line.push ⟨false, s, offset⟩).items =
        line.items ++ Item.ofRunes (placed offset (decode s)) := by
    rw [items_push line (fun h => absurd h (by simp)), Part.items_literal rfl]
  induction text using lineInduction generalizing line offset with
  | last text hn =>
    rw [lines_of_not_mem hn]
    simp [addLines, push]
  | line s t hn ih =>
    have hsv : isUtf8 s = true := isUtf8_before_newline h
    rw [lines_append_newline hn, addLines_cons_lines]
    simp only [List.flatMap_cons, List.append_assoc]
    rw [ih _ _ (isUtf8_behind_newline h), push, ofRunes_withoutReturn hsv,
      placed_decode_append offset hsv, decode_newline_cons, placed, Item.ofRunes_append,
      Item.ofRunes_cons_of_isBlank (by decide)]
    simp [items, width, encode]
    rfl

/-! ## Lines of a template -/

theorem ofParts_interpolation (line : BodyLine) {p : Part} (h : p.interpolated = true)
    (rest : List Part) : ofParts line (p :: rest) = ofParts (line.push p) rest := by
  rw [ofParts, if_pos h]

theorem ofParts_literal (line : BodyLine) {p : Part} (h : p.interpolated = false)
    (rest : List Part) :
    ofParts line (p :: rest) =
      (line.addLines p.offset (lines p.text)).1 ++
        ofParts (line.addLines p.offset (lines p.text)).2 rest := by
  rw [ofParts, if_neg (by simp [h])]

theorem literal_eq {p : Part} (h : p.interpolated = false) :
    (⟨false, p.text, p.offset⟩ : Part) = p := by
  rw [← h]

/-- Every line of abutting parts is laid in the source. -/
theorem laidIn_of_mem_ofParts {source : Bytes} {line : BodyLine} {offset stop : Nat}
    {parts : List Part} (hline : line.LaidIn source offset)
    (hab : Abut source offset parts stop) (hs : ∀ p ∈ parts, p.SitsIn source)
    (hdel : ∀ p ∈ parts, p.IsDelimited) :
    ∀ l ∈ ofParts line parts, ∃ stop, l.LaidIn source stop := by
  induction parts generalizing line offset with
  | nil =>
    intro l hl
    rw [ofParts, List.mem_singleton] at hl
    exact ⟨offset, hl ▸ hline⟩
  | cons p rest ih =>
    obtain ⟨rfl, -, hab⟩ := hab
    rw [List.forall_mem_cons] at hs hdel
    cases hi : p.interpolated with
    | true =>
      rw [ofParts_interpolation line hi]
      exact ih (hline.push hs.1 (by simp [hi]) hdel.1) hab hs.2 hdel.2
    | false =>
      rw [ofParts_literal line hi]
      have hsits := hs.1
      rw [← literal_eq hi] at hsits
      obtain ⟨hcomplete, hlast⟩ := laidIn_addLines hline hsits
      intro l hl
      rcases List.mem_append.1 hl with hl | hl
      · exact hcomplete l hl
      · exact ih hlast hab hs.2 hdel.2 l hl

/-- The lines hold what the parts say, in its order. -/
theorem items_ofParts (line : BodyLine) {parts : List Part} (hv : ∀ p ∈ parts, isUtf8 p.text)
    (hdel : ∀ p ∈ parts, p.IsDelimited) :
    (ofParts line parts).flatMap items = line.items ++ parts.flatMap Part.items := by
  induction parts generalizing line with
  | nil => simp [ofParts]
  | cons p rest ih =>
    rw [List.forall_mem_cons] at hv hdel
    rw [List.flatMap_cons, ← List.append_assoc]
    cases hi : p.interpolated with
    | true => rw [ofParts_interpolation line hi, ih _ hv.2 hdel.2, items_push line hdel.1]
    | false =>
      rw [ofParts_literal line hi, List.flatMap_append, ih _ hv.2 hdel.2, ← List.append_assoc,
        items_addLines line p.offset hv.1, Part.items_literal hi]

end BodyLine

namespace Template
open Bytes Rune
variable {source : Bytes} {t : Template}

/-- The text behind the opening backtick is on the line of that backtick. -/
theorem LiesIn.laidIn_first (h : t.LiesIn source) (hv : isUtf8 source) :
    BodyLine.LaidIn source ⟨t.start, []⟩ (t.start + 1) where
  abut := by
    refine ⟨t.start + 1, rfl, ?_⟩
    have cut := (cut_at_ascii hv h.opening (by decide)).1
    have hd : (source.drop t.start).take 1 = [Byte.backtick] := by
      rw [List.take_one, List.head?_drop, h.opening]
      rfl
    rw [Position.ofOffset_add cut 1, hd, Position.after_of_not_mem _ (by decide)]
  sits := by simp
  single := by simp
  delimited := by simp

theorem LiesIn.laidIn_bodyLines (h : t.LiesIn source) (hv : isUtf8 source) :
    ∀ l ∈ t.bodyLines, ∃ stop, l.LaidIn source stop :=
  BodyLine.laidIn_of_mem_ofParts (h.laidIn_first hv) h.abut (h.sitsIn hv) h.delimited

/-- What a template says. -/
def items (t : Template) : List Item := t.parts.flatMap Part.items

theorem LiesIn.items_bodyLines (h : t.LiesIn source) (hv : isUtf8 source) :
    t.bodyLines.flatMap BodyLine.items = t.items :=
  BodyLine.items_ofParts ⟨t.start, []⟩ (fun p hp => (h.sitsIn hv p hp).valid) h.delimited

end Template
end TemplateLint
