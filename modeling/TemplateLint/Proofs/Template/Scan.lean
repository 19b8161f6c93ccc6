import Mathlib
import TemplateLint.Template.Scan

/-!
# What the scanner finds

`State.Reading` lists everything that reading one byte can do. From it follows what a scan
keeps: the parts of an open template are pieces of the source that abut on each other, from
behind the opening backtick up to the part that is being read, and an interpolation that is
open starts where the last of them ends. So a template that is found lies in the source
between two backticks and its parts make up the text between them.
-/
namespace TemplateLint

/-- Parts that lie in a source one behind the other, from offset `a` to offset `b`. -/
def Abut (source : Bytes) : Nat → List Part → Nat → Prop
  | a, [], b => a = b
  | a, p :: ps, b =>
    p.offset = a ∧ p.text <+: source.drop a ∧ Abut source (a + p.text.length) ps b

namespace Abut
variable {source : Bytes} {a b c : Nat} {p : Part} {ps qs : List Part}

theorem append (hp : Abut source a ps b) (hq : Abut source b qs c) :
    Abut source a (ps ++ qs) c := by
  induction ps generalizing a with
  | nil => rw [Abut] at hp; subst hp; exact hq
  | cons p ps ih => exact ⟨hp.1, hp.2.1, ih hp.2.2⟩

/-- One more part at the end. -/
theorem snoc (hp : Abut source a ps b) (ho : p.offset = b) (ht : p.text <+: source.drop b) :
    Abut source a (ps ++ [p]) (b + p.text.length) :=
  hp.append ⟨ho, ht, rfl⟩

/-- Parts stay where they are when the source goes on. -/
theorem extend (hp : Abut source a ps b) (more : Bytes) : Abut (source ++ more) a ps b := by
  induction ps generalizing a with
  | nil => exact hp
  | cons p ps ih =>
    refine ⟨hp.1, ?_, ih hp.2.2⟩
    rw [List.drop_append]
    exact hp.2.1.trans (List.prefix_append _ _)

end Abut

/-- Parts that are literals and interpolations by turns. The first one is an interpolation when
`i` says so, and the one that would come next when `j` says so. -/
def Alternate : Bool → List Part → Bool → Prop
  | i, [], j => i = j
  | i, p :: ps, j => p.interpolated = i ∧ Alternate (!i) ps j

theorem Alternate.snoc {i j : Bool} {p : Part} {ps : List Part} (h : Alternate i ps j)
    (hp : p.interpolated = j) : Alternate i (ps ++ [p]) (!j) := by
  induction ps generalizing i with
  | nil => rw [Alternate] at h; subst h; exact ⟨hp, rfl⟩
  | cons q ps ih => exact ⟨h.1, ih h.2⟩

/-- An interpolation is written with its delimiters. -/
def Part.IsDelimited (p : Part) : Prop :=
  p.interpolated = true →
    p.text.head? = some Byte.dollar ∧ p.text.getLast? = some Byte.closeBrace

/-- A template as it lies in a source. Its first and its last part are literals. -/
structure Template.LiesIn (source : Bytes) (t : Template) : Prop where
  opening : source[t.start]? = some Byte.backtick
  closing : source[t.stop]? = some Byte.backtick
  abut : Abut source (t.start + 1) t.parts t.stop
  alternate : Alternate false t.parts true
  delimited : ∀ p ∈ t.parts, p.IsDelimited

theorem Template.LiesIn.extend {source : Bytes} {t : Template} (h : t.LiesIn source)
    (more : Bytes) : t.LiesIn (source ++ more) where
  opening := by
    have := h.opening
    rw [List.getElem?_append_left (List.getElem?_eq_some_iff.1 this).1, this]
  closing := by
    have := h.closing
    rw [List.getElem?_append_left (List.getElem?_eq_some_iff.1 this).1, this]
  abut := h.abut.extend more
  alternate := h.alternate
  delimited := h.delimited

namespace Scan

/-! ## One byte -/

/-- Everything that reading the byte `b` can do to a state. -/
inductive State.Reading (s : State) (b : UInt8) : State → Prop
  | moved (mode : Mode) : Reading s b (s.move b mode)
  | opened (h : b = Byte.backtick) : Reading s b (s.openTemplate b)
  | closed (h : b = Byte.backtick) : Reading s b (s.closeTemplate b)
  | started (h : b = Byte.dollar) : Reading s b (s.startInterpolation b)
  | deeper (h : b = Byte.openBrace) : Reading s b (s.openBrace b)
  | ended (h : b = Byte.closeBrace) : Reading s b (s.closeBrace b)

theorem dollar_of_textMode {b : UInt8} {next : Option UInt8}
    (h : textMode b next = .interpolationOpen) : b = Byte.dollar := by
  unfold textMode at h
  split at h
  · cases h
  · split at h
    · next hb => simp only [Bool.and_eq_true, decide_eq_true_eq] at hb; exact hb.1
    · cases h

theorem State.reading_readCode (s : State) (regex : Bool) (b : UInt8) (next : Option UInt8) :
    s.Reading b (s.readCode regex b next) := by
  unfold readCode
  split
  · next h => exact .opened h
  · split
    · next h => exact .deeper h
    · split
      · next h => exact .ended h
      · exact .moved _

theorem State.reading_readText (s : State) (b : UInt8) (next : Option UInt8) :
    s.Reading b (s.readText b next) := by
  unfold readText
  split
  · next h => exact .closed h
  · split
    · next h => exact .started (dollar_of_textMode h)
    · exact .moved _

theorem State.reading_read (s : State) (b : UInt8) (next : Option UInt8) :
    s.Reading b (s.read b next) := by
  unfold read
  split
  case h_1 => exact s.reading_readCode _ b next
  case h_12 => exact s.reading_readText b next
  all_goals exact .moved _

/-! ## What a scan keeps -/

/-- The parts of an open template abut up to the one that is being read, which is an
interpolation when `inside` says so. -/
structure OpenTemplate (source : Bytes) (start : Nat) (parts : List Part) (textStart : Nat)
    (inside : Bool) : Prop where
  opening : source[start]? = some Byte.backtick
  abut : Abut source (start + 1) parts textStart
  alternate : Alternate false parts inside
  reached : textStart ≤ source.length
  delimited : ∀ p ∈ parts, p.IsDelimited

theorem OpenTemplate.extend {source : Bytes} {start textStart : Nat} {parts : List Part}
    {inside : Bool} (h : OpenTemplate source start parts textStart inside) (more : Bytes) :
    OpenTemplate (source ++ more) start parts textStart inside where
  opening := by
    have := h.opening
    rw [List.getElem?_append_left (List.getElem?_eq_some_iff.1 this).1, this]
  abut := h.abut.extend more
  alternate := h.alternate
  reached := by have := h.reached; rw [List.length_append]; omega
  delimited := h.delimited

/-- One more part of an open template, read up to the end of the source. -/
theorem OpenTemplate.snoc {source : Bytes} {start textStart : Nat} {parts : List Part}
    {inside : Bool} (h : OpenTemplate source start parts textStart inside) {p : Part}
    (hi : p.interpolated = inside) (ho : p.offset = textStart)
    (ht : p.text = source.drop textStart) (hd : p.IsDelimited) :
    OpenTemplate source start (parts ++ [p]) source.length (!inside) where
  opening := h.opening
  abut := by
    have length_eq : textStart + p.text.length = source.length := by
      have := h.reached
      rw [ht, List.length_drop]
      omega
    rw [← length_eq]
    exact h.abut.snoc ho (by rw [ht])
  alternate := h.alternate.snoc hi
  reached := Nat.le_refl _
  delimited := by
    intro q hq
    rcases List.mem_append.1 hq with hq | hq
    · exact h.delimited q hq
    · rw [List.mem_singleton.1 hq]; exact hd

/-- What is found when a template is closed. -/
theorem OpenTemplate.liesIn {source : Bytes} {start textStart : Nat} {parts : List Part}
    (h : OpenTemplate source start parts textStart false) (tag : Tag) :
    Template.LiesIn (source ++ [Byte.backtick])
      ⟨tag, start, source.length, parts ++ [⟨false, source.drop textStart, textStart⟩]⟩ := by
  have closed := h.snoc (p := ⟨false, source.drop textStart, textStart⟩) rfl rfl rfl
    (fun hp => absurd hp (by simp))
  have extended := closed.extend [Byte.backtick]
  exact {
    opening := extended.opening
    closing := List.getElem?_concat_length ..
    abut := extended.abut
    alternate := extended.alternate
    delimited := extended.delimited }

/-- The open constructs fit the source read so far: templates hold the parts read, and an
interpolation starts where the text of its template was left. -/
def Fits (source : Bytes) : List Frame → Prop
  | [] => True
  | .template start _ parts textStart :: outer =>
    OpenTemplate source start parts.reverse textStart false ∧ Fits source outer
  | .interpolation start _ :: .template opened _ parts textStart :: outer =>
    source[start]? = some Byte.dollar ∧ textStart = start ∧
      OpenTemplate source opened parts.reverse textStart true ∧ Fits source outer
  | .interpolation _ _ :: outer => Fits source outer

theorem Fits.extend {source : Bytes} {stack : List Frame} (h : Fits source stack)
    (more : Bytes) : Fits (source ++ more) stack := by
  fun_induction Fits source stack with
  | case1 => trivial
  | case2 start tag parts textStart outer ih => exact ⟨h.1.extend more, ih h.2⟩
  | case3 start depth opened tag parts textStart outer ih =>
    refine ⟨?_, h.2.1, h.2.2.1.extend more, ih h.2.2.2⟩
    rw [List.getElem?_append_left (List.getElem?_eq_some_iff.1 h.1).1, h.1]
  | case4 start depth outer hne ih =>
    cases outer with
    | nil => trivial
    | cons frame outer =>
      cases frame with
      | template opened tag parts textStart =>
        exact absurd rfl (hne opened tag parts textStart outer)
      | interpolation opened depth => exact ih h

namespace State

/-- The source that a state has read. -/
def source (s : State) : Bytes := s.passed.reverse

/-- A state that agrees with the source it has read. -/
structure Agrees (s : State) : Prop where
  offset_eq : s.offset = s.source.length
  fits : Fits s.source s.stack
  found : ∀ t ∈ s.found, t.LiesIn s.source

@[simp] theorem source_move (s : State) (b : UInt8) (mode : Mode) :
    (s.move b mode).source = s.source ++ [b] := by
  simp [move, source]

theorem textSince_eq {s : State} (h : s.offset = s.source.length) (start : Nat) :
    s.textSince start = s.source.drop start := by
  rw [textSince, h, source, List.drop_reverse, List.length_reverse]

theorem Agrees.move {s : State} (h : s.Agrees) (b : UInt8) (mode : Mode) :
    (s.move b mode).Agrees where
  offset_eq := by simp [State.move, source, h.offset_eq]
  fits := by rw [source_move]; exact h.fits.extend [b]
  found := by rw [source_move]; exact fun t ht => (h.found t ht).extend [b]

/-- A state that differs from a plain move in its stack and in what was found. -/
theorem Agrees.of_move {s : State} (h : s.Agrees) {b : UInt8} (mode : Mode)
    {stack : List Frame} {found : List Template} (fits : Fits (s.source ++ [b]) stack)
    (lies : ∀ t ∈ found, t.LiesIn (s.source ++ [b])) :
    Agrees { s.move b mode with stack, found } where
  offset_eq := (h.move b mode).offset_eq
  fits := by rw [← source_move s b mode] at fits; exact fits
  found := by rw [← source_move s b mode] at lies; exact lies

theorem getElem?_offset {s : State} (h : s.offset = s.source.length) (b : UInt8) :
    (s.source ++ [b])[s.offset]? = some b := by
  rw [h, List.getElem?_concat_length]

theorem Agrees.openTemplate {s : State} (h : s.Agrees) {b : UInt8} (hb : b = Byte.backtick) :
    (s.openTemplate b).Agrees := by
  refine h.of_move _ ⟨?_, h.fits.extend [b]⟩ fun t ht => (h.found t ht).extend [b]
  exact {
    opening := by rw [getElem?_offset h.offset_eq, hb]
    abut := rfl
    alternate := rfl
    reached := by simp [h.offset_eq]
    delimited := by simp }

theorem Agrees.closeTemplate {s : State} (h : s.Agrees) {b : UInt8} (hb : b = Byte.backtick) :
    (s.closeTemplate b).Agrees := by
  unfold State.closeTemplate
  split
  · next start tag parts textStart outer hstack =>
    have fits := h.fits
    rw [hstack] at fits
    refine h.of_move _ (fits.2.extend [b]) ?_
    intro t ht
    split at ht
    · next tag =>
      rcases List.mem_cons.1 ht with rfl | ht
      · rw [hb, h.offset_eq, textSince_eq h.offset_eq, List.reverse_cons]
        exact fits.1.liesIn tag
      · exact (h.found t ht).extend [b]
    · exact (h.found t ht).extend [b]
  · exact h.move b _

theorem Agrees.startInterpolation {s : State} (h : s.Agrees) {b : UInt8}
    (hb : b = Byte.dollar) : (s.startInterpolation b).Agrees := by
  unfold State.startInterpolation
  split
  · next start tag parts textStart outer hstack =>
    have fits := h.fits
    rw [hstack] at fits
    refine h.of_move _ ⟨?_, rfl, ?_, fits.2.extend [b]⟩ fun t ht => (h.found t ht).extend [b]
    · rw [getElem?_offset h.offset_eq, hb]
    · rw [textSince_eq h.offset_eq, List.reverse_cons, h.offset_eq]
      exact (fits.1.snoc rfl rfl rfl (fun hp => absurd hp (by simp))).extend [b]
  · exact h.move b _

theorem Agrees.openBrace {s : State} (h : s.Agrees) (b : UInt8) : (s.openBrace b).Agrees := by
  unfold State.openBrace
  split
  · next start depth outer hstack =>
    have fits := h.fits.extend [b]
    rw [hstack] at fits
    refine h.of_move _ ?_ fun t ht => (h.found t ht).extend [b]
    cases outer with
    | nil => trivial
    | cons frame outer => cases frame <;> exact fits
  · exact h.move b _

/-- The interpolation that a closing brace ends is written with its delimiters. -/
theorem isDelimited_of_closed {source : Bytes} {start : Nat}
    (h : source[start]? = some Byte.dollar) :
    Part.IsDelimited ⟨true, (source ++ [Byte.closeBrace]).drop start, start⟩ := by
  obtain ⟨hlt, hget⟩ := List.getElem?_eq_some_iff.1 h
  intro _
  constructor
  · rw [List.head?_drop, List.getElem?_append_left hlt, h]
  · rw [List.getLast?_drop, if_neg (by simp; omega), List.getLast?_concat]

theorem Agrees.closeBrace {s : State} (h : s.Agrees) {b : UInt8} (hb : b = Byte.closeBrace) :
    (s.closeBrace b).Agrees := by
  unfold State.closeBrace
  split
  · next start depth outer hstack =>
    have fits := h.fits.extend [b]
    rw [hstack] at fits
    refine h.of_move _ ?_ fun t ht => (h.found t ht).extend [b]
    cases outer with
    | nil => trivial
    | cons frame outer => cases frame <;> exact fits
  · next start depth opened tag parts textStart outer hstack =>
    have fits := h.fits
    rw [hstack] at fits
    obtain ⟨hdollar, rfl, hopen, houter⟩ := fits
    have moved := (h.move b .text).offset_eq
    refine h.of_move .text ⟨?_, houter.extend [b]⟩ fun t ht => (h.found t ht).extend [b]
    rw [textSince_eq moved, moved, source_move, List.reverse_cons, hb]
    exact (hopen.extend [Byte.closeBrace]).snoc rfl rfl rfl (isDelimited_of_closed hdollar)
  · exact h.move b _

/-- Before the first byte there is nothing to disagree with. -/
theorem Agrees.initial : Agrees {} := ⟨rfl, trivial, by simp⟩

/-- Reading a byte keeps the agreement. -/
theorem Agrees.of_reading {s t : State} {b : UInt8} (h : s.Agrees) (hr : s.Reading b t) :
    t.Agrees := by
  cases hr with
  | moved mode => exact h.move b mode
  | opened hb => exact h.openTemplate hb
  | closed hb => exact h.closeTemplate hb
  | started hb => exact h.startInterpolation hb
  | deeper hb => exact h.openBrace b
  | ended hb => exact h.closeBrace hb

/-- Every byte is taken into the source that was read. -/
theorem source_of_reading {s t : State} {b : UInt8} (hr : s.Reading b t) :
    t.source = s.source ++ [b] := by
  cases hr with
  | moved mode => exact source_move s b mode
  | opened hb => simp [State.openTemplate, State.move, source]
  | closed hb => unfold State.closeTemplate; split <;> simp [State.move, source]
  | started hb => unfold State.startInterpolation; split <;> simp [State.move, source]
  | deeper hb => unfold State.openBrace; split <;> simp [State.move, source]
  | ended hb => unfold State.closeBrace; split <;> simp [State.move, source]

/-- Reading a whole text keeps the agreement. -/
theorem Agrees.run {s : State} (h : s.Agrees) (text : Bytes) : (s.run text).Agrees := by
  induction text generalizing s with
  | nil => exact h
  | cons b rest ih => exact ih (h.of_reading (s.reading_read b rest.head?))

theorem source_run (s : State) (text : Bytes) : (s.run text).source = s.source ++ text := by
  induction text generalizing s with
  | nil => simp [State.run]
  | cons b rest ih =>
    rw [State.run, ih, source_of_reading (s.reading_read b rest.head?), List.append_assoc,
      List.singleton_append]

end State

/-- The templates that are found lie in the source. -/
theorem liesIn_of_mem_templates {source : Bytes} {found : List Template} {t : Template}
    (h : templates source = .ok found) (ht : t ∈ found) : t.LiesIn source := by
  have agrees : (State.run {} source).Agrees :=
    State.Agrees.initial.run source
  have read : (State.run {} source).source = source := State.source_run {} source
  simp only [templates] at h
  split at h
  · cases h
    have := agrees.found t (List.mem_reverse.1 ht)
    rwa [read] at this
  · cases h
  · cases h

end Scan
end TemplateLint
