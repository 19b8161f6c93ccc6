import Mathlib
import TemplateLint.Proofs.Stylesheet.Joint

/-!
# Nested blocks, one item a line

A stylesheet written with one declaration or brace a line is cut into the texts it was written
from, and a walk over it starts every line at the depth that its row is nested at. So the rule of
indentation says nothing about it exactly when every row starts with the spaces of its level.
-/
namespace TemplateLint.Stylesheet
open Bytes

/-! ## Names -/

/-- A name without escapes. -/
structure Ident where
  text : Bytes
  bytes : ∀ b ∈ text, isNameByte b = true
  ident : identLength text ≠ 0
  utf8 : isUtf8 text = true

/-- The bytes that stand behind names in a row. -/
def stops : List UInt8 := [Byte.colon, Byte.semicolon, Byte.space]

theorem eq_of_mem_stops {c : UInt8} (hc : c ∈ stops) :
    c = Byte.colon ∨ c = Byte.semicolon ∨ c = Byte.space := by
  simpa [stops] using hc

theorem escapeLength_of_ne {b : UInt8} (hb : b ≠ Byte.backslash) (s : Bytes) :
    escapeLength (b :: s) = 0 := by
  cases s with
  | nil => rfl
  | cons c s => rw [escapeLength, if_pos (by simp [hb])]

theorem ne_of_isNameByte {b c : UInt8} (hb : isNameByte b = true) (hc : isNameByte c = false) :
    b ≠ c := by
  rintro rfl
  exact absurd hb (by simp [hc])

theorem nameLength_append {x : Bytes} (hx : ∀ b ∈ x, isNameByte b = true) {c : UInt8}
    (hc : c ∈ stops) (r : Bytes) : nameLength (x ++ c :: r) = x.length := by
  have hstop : ¬isNameByte c = true ∧ c ≠ Byte.backslash := by
    rcases eq_of_mem_stops hc with rfl | rfl | rfl <;> decide
  rw [nameLength, runLength]
  induction x with
  | nil =>
    have hunit : nameUnit (c :: r) = 0 := by
      rw [nameUnit, if_neg hstop.1, escapeLength_of_ne hstop.2]
    rw [List.nil_append, runFrom, hunit]
    rfl
  | cons b x ih =>
    rw [List.forall_mem_cons] at hx
    have hunit : nameUnit (b :: (x ++ c :: r)) = 1 := by rw [nameUnit, if_pos hx.1]
    rw [List.cons_append, runFrom, hunit]
    simp only
    rw [ih hx.2, List.length_cons]

namespace Ident

/-- How names start. -/
theorem cases_text (x : Ident) :
    (∃ s, x.text = Byte.hyphen :: Byte.hyphen :: s) ∨
      (∃ b s, x.text = Byte.hyphen :: b :: s ∧ b ≠ Byte.hyphen ∧ isNameStart b = true) ∨
      ∃ b s, x.text = b :: s ∧ b ≠ Byte.hyphen ∧ isNameStart b = true := by
  have hident := x.ident
  have hbytes := x.bytes
  have start {b : UInt8} {s : Bytes} (hb : isNameByte b = true)
      (h : isNameStart b = true ∨ escapeLength (b :: s) ≠ 0) : isNameStart b = true :=
    h.resolve_right fun h => h (escapeLength_of_ne (ne_of_isNameByte hb (by decide)) s)
  cases htext : x.text with
  | nil => exact absurd (by rw [htext]; rfl) hident
  | cons b s =>
    rw [htext, List.forall_mem_cons] at hbytes
    rw [htext, identLength.eq_def] at hident
    by_cases hb : b = Byte.hyphen
    · subst hb
      cases s with
      | nil => exact absurd rfl hident
      | cons c s =>
        rw [List.forall_mem_cons] at hbytes
        by_cases hc : c = Byte.hyphen
        · exact .inl ⟨s, by rw [hc]⟩
        · simp only [if_true, if_neg hc, Bool.or_eq_true, decide_eq_true_eq, ne_eq,
            ite_eq_right_iff, not_forall] at hident
          exact .inr (.inl ⟨c, s, rfl, hc, start hbytes.2.1 hident.1⟩)
    · simp only [if_neg hb, Bool.or_eq_true, decide_eq_true_eq, ne_eq, ite_eq_right_iff,
        not_forall] at hident
      exact .inr (.inr ⟨b, s, rfl, hb, start hbytes.1 hident.1⟩)

/-- A name ends where a byte stops it. -/
theorem identLength_append (x : Ident) {c : UInt8} (hc : c ∈ stops) (r : Bytes) :
    identLength (x.text ++ c :: r) = x.text.length := by
  have hbytes := x.bytes
  rcases x.cases_text with ⟨s, hs⟩ | ⟨b, s, hs, hb, hstart⟩ | ⟨b, s, hs, hb, hstart⟩
  · rw [hs] at hbytes ⊢
    simp only [List.forall_mem_cons] at hbytes
    simp only [List.cons_append, identLength, if_true]
    rw [nameLength_append hbytes.2.2 hc]
    simp only [List.length_cons]
    omega
  · rw [hs] at hbytes ⊢
    rw [List.forall_mem_cons] at hbytes
    simp only [List.cons_append, identLength, if_true, if_neg hb, hstart, Bool.true_or]
    rw [← List.cons_append, nameLength_append hbytes.2 hc, List.length_cons (a := Byte.hyphen),
      Nat.add_comm]
  · rw [hs] at hbytes ⊢
    rw [List.cons_append, identLength_of_isNameStart hb hstart, ← List.cons_append,
      nameLength_append hbytes hc]

theorem text_ne_nil (x : Ident) : x.text ≠ [] := by
  intro h
  exact x.ident (by rw [h]; rfl)

theorem head?_append (x : Ident) (s : Bytes) :
    ∃ b ∈ x.text, (x.text ++ s).head? = some b ∧ Byte.isDigit b = false := by
  have start : ∀ b, isNameStart b = true → Byte.isDigit b = false := by decide +kernel
  rcases x.cases_text with ⟨t, ht⟩ | ⟨b, t, ht, -, -⟩ | ⟨b, t, ht, -, hb⟩
  · exact ⟨Byte.hyphen, by simp [ht], by simp [ht], rfl⟩
  · exact ⟨Byte.hyphen, by simp [ht], by simp [ht], rfl⟩
  · exact ⟨b, by simp [ht], by simp [ht], start b hb⟩

theorem wordLength_append (x : Ident) {c : UInt8} (hc : c ∈ stops) (r : Bytes) :
    wordLength (x.text ++ c :: r) = x.text.length := by
  have hstop : some c ≠ some Byte.openParen := by
    rcases eq_of_mem_stops hc with rfl | rfl | rfl <;> decide
  have hpos : x.text.length ≠ 0 := by simpa using x.text_ne_nil
  rw [wordLength, x.identLength_append hc]
  split
  · next h => exact h.symm
  · rw [List.drop_left, List.head?_cons, if_pos hstop]

end Ident

theorem classLength_eq_zero {p : UInt8 → Bool} {s : Bytes} (h : s.head?.any p = false) :
    classLength p s = 0 := by
  cases s with
  | nil => rfl
  | cons b s => rw [classLength, List.takeWhile_cons_of_neg (by simpa using h), List.length_nil]

/-- No number starts with anything but a digit, a sign or a point before a digit. -/
theorem numericLength_eq_zero {b : UInt8} {s : Bytes}
    (hb : (Byte.isDigit b || b == Byte.plus || b == Byte.hyphen) = false)
    (hs : b = Byte.dot → s.head?.any Byte.isDigit = false) : numericLength (b :: s) = 0 := by
  simp only [Bool.or_eq_false_iff, beq_eq_false_iff_ne] at hb
  obtain ⟨⟨hdigit, hplus⟩, hhyphen⟩ := hb
  have hwhole : classLength Byte.isDigit (b :: s) = 0 := classLength_eq_zero (by simp [hdigit])
  have hnumber : numberLength (b :: s) = 0 := by
    by_cases hdot : b = Byte.dot
    · simp [numberLength, hplus, hhyphen, hwhole, classLength_eq_zero (hs hdot)]
    · simp [numberLength, hplus, hhyphen, hwhole, hdot]
  simp only [numericLength, hnumber]

/-- The token that a name start starts is a word. -/
theorem tokenLength_of_isNameStart {b : UInt8} {s : Bytes} (hb : isNameStart b = true)
    (hs : s.head? ≠ some Byte.plus) :
    tokenLength (b :: s) = firstLength [wordLength (b :: s)] := by
  have hbyte : ∀ b, isNameStart b = true → (isSpace b || isSingle b || b == Byte.hash ||
      b == Byte.doubleQuote || b == Byte.singleQuote || b == Byte.dot || b == Byte.plus ||
      b == Byte.hyphen || b == 0x40 || isComparison b || b == Byte.less || b == Byte.slash ||
      b == Byte.backslash || Byte.isDigit b) = false := by decide +kernel
  replace hbyte := hbyte b hb
  simp only [Bool.or_eq_false_iff, beq_eq_false_iff_ne] at hbyte
  have hnumeric : numericLength (b :: s) = 0 :=
    numericLength_eq_zero (by simp [hbyte]) (by simp [hbyte])
  simp [tokenLength, hbyte, hnumeric, firstLength, hs]

/-- What stands behind the first bytes of a name. -/
theorem exists_cons_of_stop {s : Bytes} (hs : ∀ b ∈ s, isNameByte b = true) {c : UInt8}
    (hc : c ∈ stops) (r : Bytes) :
    ∃ d t, s ++ c :: r = d :: t ∧ d ≠ Byte.greater ∧ d ≠ Byte.plus := by
  cases s with
  | nil =>
    refine ⟨c, r, rfl, ?_⟩
    rcases eq_of_mem_stops hc with rfl | rfl | rfl <;> decide
  | cons b s =>
    have hb := hs b (by simp)
    exact ⟨b, s ++ c :: r, rfl, ne_of_isNameByte hb (by decide), ne_of_isNameByte hb (by decide)⟩

theorem firstLength_cons {n : Nat} (hn : n ≠ 0) (lengths : List Nat) :
    firstLength (n :: lengths) = n := by
  cases n with
  | zero => exact absurd rfl hn
  | succ n => rfl

/-- **A name is a token.** -/
theorem Ident.tokenLength_append (x : Ident) {c : UInt8} (hc : c ∈ stops) (r : Bytes) :
    tokenLength (x.text ++ c :: r) = x.text.length := by
  have harrow : Bytes.ofString "-->" = [Byte.hyphen, Byte.hyphen, Byte.greater] := by
    decide +kernel
  have hhyphens : Bytes.ofString "--" = [Byte.hyphen, Byte.hyphen] := by decide +kernel
  have hhyphen (s : Bytes) :
      tokenLength (Byte.hyphen :: s) = hyphenLength (Byte.hyphen :: s) := by
    rw [tokenLength, if_neg (by decide), if_neg (by decide), if_neg (by decide),
      if_neg (by decide), if_neg (by decide), if_pos rfl]
  have hpos : x.text.length ≠ 0 := by simpa using x.text_ne_nil
  have hbytes := x.bytes
  have hident := x.identLength_append hc r
  have hword := x.wordLength_append hc r
  -- a name that starts with two hyphens is measured by its own rule, any other one as a word
  rcases x.cases_text with ⟨s, hs⟩ | ⟨b, s, hs, hb, -⟩ | ⟨b, s, hs, -, hstart⟩
  · rw [hs] at hbytes hident ⊢
    simp only [List.forall_mem_cons] at hbytes
    obtain ⟨d, t, hd, hgreater, -⟩ := exists_cons_of_stop hbytes.2.2 hc r
    simp only [List.cons_append, hd] at hident ⊢
    rw [hhyphen, hyphenLength, if_neg, if_pos, hident]
    · simp [startsWith, hhyphens]
    · simp [startsWith, harrow, hgreater.symm]
  · rw [hs] at hpos hword ⊢
    simp only [List.cons_append] at hword ⊢
    rw [hhyphen, hyphenLength, if_neg, if_neg, hword, firstLength_cons hpos]
    · simp [startsWith, hhyphens, hb.symm]
    · simp [startsWith, harrow, hb.symm]
  · rw [hs] at hbytes hpos hword ⊢
    rw [List.forall_mem_cons] at hbytes
    obtain ⟨d, t, hd, -, hplus⟩ := exists_cons_of_stop hbytes.2 hc r
    rw [List.cons_append, tokenLength_of_isNameStart hstart (by simp [hd, hplus]),
      ← List.cons_append, hword, firstLength_cons hpos]

/-! ## Rows -/

/-- What stands before a block: the name of an element or of a class. -/
inductive Selector where
  | element (name : Ident)
  | cls (name : Ident)

/-- A line of a stylesheet with the level it is nested at. -/
inductive Row where
  | declaration (level : Nat) (property value : Ident)
  | opening (level : Nat) (selector : Selector)
  | closing (level : Nat)

/-- Declarations and blocks in their order, at least one of them. -/
inductive Content where
  | declaration (property value : Ident)
  | block (selector : Selector) (inner : Content)
  | both (first second : Content)

/-- The rows of a content at a level. -/
def Content.rows : Nat → Content → List Row
  | d, declaration property value => [.declaration d property value]
  | d, block selector inner => .opening d selector :: inner.rows (d + 1) ++ [.closing d]
  | d, both first second => first.rows d ++ second.rows d

/-- The tokens of a selector. -/
def Selector.texts : Selector → List Bytes
  | element name => [name.text]
  | cls name => [[Byte.dot], name.text]

namespace Row

def level : Row → Nat
  | declaration level _ _ => level
  | opening level _ => level
  | closing level => level

/-- The tokens of a row. -/
def texts : Row → List Bytes
  | declaration _ property value =>
    [property.text, [Byte.colon], [Byte.space], value.text, [Byte.semicolon]]
  | opening _ selector => selector.texts ++ [[Byte.space], [Byte.openBrace]]
  | closing _ => [[Byte.closeBrace]]

def text (row : Row) : Bytes := row.texts.flatten

/-- A row behind as many spaces as its level asks for. -/
def line (lead : Nat → Nat) (row : Row) : Bytes :=
  List.replicate (lead row.level) Byte.space ++ row.text

end Row

/-- The rows line by line. -/
def layout (lead : Nat → Nat) (rows : List Row) : Bytes :=
  rows.flatMap fun row => row.line lead ++ [Byte.newline]

/-- The tokens of a row are names and single bytes. -/
theorem Row.forall_mem_texts {P : Bytes → Prop} (row : Row) (hident : ∀ x : Ident, P x.text)
    (hsingle : ∀ b ∈ [Byte.dot, Byte.colon, Byte.space, Byte.semicolon, Byte.openBrace,
      Byte.closeBrace], P [b]) : ∀ x ∈ row.texts, P x := by
  simp only [List.forall_mem_cons, List.not_mem_nil, false_implies, implies_true, and_true]
    at hsingle
  obtain ⟨hdot, hcolon, hspace, hsemicolon, hopen, hclose⟩ := hsingle
  cases row with
  | declaration level property value =>
    simp [texts, hident, hcolon, hspace, hsemicolon]
  | opening level selector =>
    cases selector with
    | element name => simp [texts, Selector.texts, hident, hspace, hopen]
    | cls name => simp [texts, Selector.texts, hident, hdot, hspace, hopen]
  | closing level => simp [texts, hclose]

/-- The bytes that rows are made of. -/
def isRowByte (b : UInt8) : Bool :=
  isNameByte b || b == Byte.space || b == Byte.dot || b == Byte.colon || b == Byte.semicolon ||
    b == Byte.openBrace || b == Byte.closeBrace

theorem Row.isRowByte_of_mem (row : Row) {b : UInt8} (hb : b ∈ row.text) : isRowByte b = true := by
  obtain ⟨x, hx, hb⟩ := List.mem_flatten.1 hb
  refine row.forall_mem_texts (P := fun x => ∀ b ∈ x, isRowByte b = true) ?_ ?_ x hx b hb
  · intro x b hb
    simp [isRowByte, x.bytes b hb]
  · simp [isRowByte]

/-! ## Tokens of rows -/

theorem chunks_append_of_tokenLength {x r : Bytes} (hx : x ≠ [])
    (h : tokenLength (x ++ r) = x.length) :
    chunks tokenLength (x ++ r) = x :: chunks tokenLength r := by
  cases x with
  | nil => exact absurd rfl hx
  | cons b x =>
    rw [List.cons_append] at h ⊢
    rw [chunks_cons (tokenLength_pos b _), h, ← List.cons_append, List.take_left, List.drop_left]

theorem chunks_ident (x : Ident) {c : UInt8} (hc : c ∈ stops) (r : Bytes) :
    chunks tokenLength (x.text ++ c :: r) = x.text :: chunks tokenLength (c :: r) :=
  chunks_append_of_tokenLength x.text_ne_nil (x.tokenLength_append hc r)

theorem chunks_single {b : UInt8} (hb : b ∈ [Byte.colon, Byte.semicolon, Byte.openBrace,
    Byte.closeBrace]) (r : Bytes) :
    chunks tokenLength (b :: r) = [b] :: chunks tokenLength r := by
  refine chunks_append_of_tokenLength (x := [b]) (by simp) ?_
  simp only [List.mem_cons, List.not_mem_nil, or_false] at hb
  rcases hb with rfl | rfl | rfl | rfl <;> rfl

theorem isSpace_of_isNameByte {b : UInt8} (h : isNameByte b = true) : isSpace b = false := by
  revert b
  decide +kernel

theorem isSpace_head_ident (x : Ident) (r : Bytes) :
    (x.text ++ r).head?.any isSpace = false := by
  obtain ⟨b, hb, hhead, -⟩ := x.head?_append r
  rw [hhead, Option.any_some, isSpace_of_isNameByte (x.bytes b hb)]

theorem chunks_space {s : Bytes} (hs : s.head?.any isSpace = false) :
    chunks tokenLength (Byte.space :: s) = [Byte.space] :: chunks tokenLength s :=
  chunks_of_isSpace (w := [Byte.space]) (by simp) (List.forall_mem_singleton.2 rfl) hs

theorem tokenLength_dot {s : Bytes} (hs : s.head?.any Byte.isDigit = false) :
    tokenLength (Byte.dot :: s) = 1 := by
  rw [tokenLength, if_neg (by decide), if_neg (by decide), if_neg (by decide),
    if_neg (by decide), if_pos (by decide), numericLength_eq_zero rfl fun _ => hs]
  rfl

theorem chunks_selector (x : Selector) (r : Bytes) :
    chunks tokenLength (x.texts.flatten ++ Byte.space :: r) =
      x.texts ++ chunks tokenLength (Byte.space :: r) := by
  have hspace : Byte.space ∈ stops := by decide
  cases x with
  | element name => simpa [Selector.texts] using chunks_ident name hspace r
  | cls name =>
    obtain ⟨b, -, hhead, hdigit⟩ := name.head?_append (Byte.space :: r)
    have hdot := tokenLength_dot (s := name.text ++ Byte.space :: r) (by simp [hhead, hdigit])
    have hchunks : chunks tokenLength (Byte.dot :: (name.text ++ Byte.space :: r)) =
        [Byte.dot] :: chunks tokenLength (name.text ++ Byte.space :: r) :=
      chunks_append_of_tokenLength (x := [Byte.dot]) (by simp) hdot
    simp only [Selector.texts, List.flatten_cons, List.flatten_nil, List.append_nil,
      List.cons_append, List.nil_append]
    rw [hchunks, chunks_ident name hspace]

/-- **A row is cut into the tokens it is written from.** -/
theorem chunks_row (row : Row) (r : Bytes) :
    chunks tokenLength (row.text ++ r) = row.texts ++ chunks tokenLength r := by
  cases row with
  | declaration level property value =>
    simp only [Row.text, Row.texts, List.flatten_cons, List.flatten_nil, List.append_assoc,
      List.cons_append, List.nil_append]
    rw [chunks_ident property (by decide), chunks_single (by decide),
      chunks_space (isSpace_head_ident value _), chunks_ident value (by decide),
      chunks_single (by decide)]
  | opening level selector =>
    simp only [Row.text, Row.texts, List.flatten_append, List.flatten_cons, List.flatten_nil,
      List.append_assoc, List.cons_append, List.nil_append]
    rw [chunks_selector, chunks_space (by rfl), chunks_single (by decide)]
  | closing level => exact chunks_single (by decide) r

/-- The white space between a row and the rows behind it. -/
def gap (lead : Nat → Nat) (rest : List Row) : Bytes :=
  Byte.newline :: List.replicate (rest.head?.elim 0 fun row => lead row.level) Byte.space

/-- The tokens of rows, without the spaces before the first of them. -/
def pieces (lead : Nat → Nat) : List Row → List Bytes
  | [] => []
  | row :: rest => row.texts ++ gap lead rest :: pieces lead rest

theorem flatten_pieces (lead : Nat → Nat) (row : Row) (rest : List Row) :
    List.replicate (lead row.level) Byte.space ++ (pieces lead (row :: rest)).flatten =
      layout lead (row :: rest) := by
  induction rest generalizing row with
  | nil => simp [pieces, layout, gap, Row.line, Row.text]
  | cons next rest ih =>
    rw [layout, List.flatMap_cons, ← layout, ← ih next, pieces]
    simp [gap, Row.line, Row.text]

theorem isSpace_of_mem_gap {lead : Nat → Nat} {rest : List Row} {b : UInt8}
    (hb : b ∈ gap lead rest) : isSpace b = true := by
  rcases List.mem_cons.1 hb with rfl | hb
  · rfl
  · rw [List.eq_of_mem_replicate hb]
    rfl

/-- No row starts with white space. -/
theorem Row.isSpace_head (row : Row) (s : Bytes) : (row.text ++ s).head?.any isSpace = false := by
  cases row with
  | declaration level property value =>
    rw [text, texts, List.flatten_cons, List.append_assoc]
    exact isSpace_head_ident property _
  | opening level selector =>
    cases selector with
    | element name =>
      rw [text, texts, Selector.texts, List.singleton_append, List.flatten_cons, List.append_assoc]
      exact isSpace_head_ident name _
    | cls name => rfl
  | closing level => rfl

/-- **Rows are cut into the tokens they are written from.** -/
theorem chunks_pieces (lead : Nat → Nat) (rows : List Row) :
    chunks tokenLength (pieces lead rows).flatten = pieces lead rows := by
  induction rows with
  | nil => rfl
  | cons row rest ih =>
    have hspace : (pieces lead rest).flatten.head?.any isSpace = false := by
      cases rest with
      | nil => rfl
      | cons next rest =>
        rw [pieces, List.flatten_append]
        exact next.isSpace_head _
    rw [pieces, List.flatten_append, ← Row.text, chunks_row, List.flatten_cons,
      chunks_of_isSpace (by simp [gap]) (fun b hb => isSpace_of_mem_gap hb) hspace, ih]

theorem tokenize_layout {lead : Nat → Nat} {row : Row} (hrow : lead row.level = 0)
    (rest : List Row) : tokenize (layout lead (row :: rest)) =
      Token.place Position.start (pieces lead (row :: rest)) := by
  rw [tokenize, ← flatten_pieces, hrow, List.replicate_zero, List.nil_append, chunks_pieces]

/-! ## The walk over a line -/

/-- The number of open blocks behind a token of a class. -/
def TokenClass.nest : TokenClass → Nat → Nat
  | openBrace, n => n + 1
  | closeBrace, n => n - 1
  | _, n => n

theorem length_markContent (blocks : List OpenBlock) :
    (markContent blocks).length = blocks.length := by
  cases blocks <;> rfl

theorem length_blocksAfter (w : Walk) (t : Token) :
    (blocksAfter w t).length = t.kind.nest w.blocks.length := by
  rw [blocksAfter]
  cases t.kind <;> simp [TokenClass.nest, length_markContent]

namespace Walk

/-- The state behind tokens that `rest` follows. -/
def through : Walk → List Token → List Token → Walk
  | w, [], _ => w
  | w, t :: tokens, rest => (w.next t (tokens ++ rest)).through tokens rest

theorem length_blocks_through (w : Walk) (tokens rest : List Token) :
    (w.through tokens rest).blocks.length =
      (tokens.map Token.kind).foldl (fun n kind => kind.nest n) w.blocks.length := by
  induction tokens generalizing w with
  | nil => rfl
  | cons t tokens ih =>
    rw [through, ih, List.map_cons, List.foldl_cons, next, length_blocksAfter]

/-- No value goes on behind a boundary. -/
theorem inValue_through (w : Walk) {tokens : List Token} {last : Token}
    (hlast : tokens.getLast? = some last) (hboundary : last.isBoundary = true)
    (rest : List Token) : (w.through tokens rest).inValue = false := by
  induction tokens generalizing w with
  | nil => cases hlast
  | cons t tokens ih =>
    cases tokens with
    | nil =>
      rw [List.getLast?_singleton, Option.some.injEq] at hlast
      subst hlast
      simp only [Token.isBoundary, Bool.or_eq_true, beq_iff_eq, or_assoc] at hboundary
      rcases hboundary with hkind | hkind | hkind <;> simp [through, next, inValueAfter, hkind]
    | cons u tokens =>
      rw [List.getLast?_cons_cons] at hlast
      exact ih _ hlast

theorem lastLine_through (w : Walk) {tokens : List Token}
    (hline : ∀ t ∈ tokens, t.position.line = w.lastLine) (rest : List Token) :
    (w.through tokens rest).lastLine = w.lastLine := by
  induction tokens generalizing w with
  | nil => rfl
  | cons t tokens ih =>
    rw [List.forall_mem_cons] at hline
    have hnext : (w.next t (tokens ++ rest)).lastLine = w.lastLine := by simp [next, hline.1]
    rw [through, ih _ (by rw [hnext]; exact hline.2), hnext]

/-- Tokens on the line that was started last start no line. -/
theorem starts_append (w : Walk) {tokens : List Token}
    (hline : ∀ t ∈ tokens, t.position.line = w.lastLine) (rest : List Token) :
    w.starts (tokens ++ rest) = (w.through tokens rest).starts rest := by
  induction tokens generalizing w with
  | nil => rfl
  | cons t tokens ih =>
    rw [List.forall_mem_cons] at hline
    have hnext : (w.next t (tokens ++ rest)).lastLine = w.lastLine := by simp [next, hline.1]
    rw [List.cons_append, starts, lineStarts, if_pos (by simp [hline.1]), List.nil_append,
      ih _ (by rw [hnext]; exact hline.2), through]

/-- A line starts at its first token, and only there. -/
theorem starts_line (w : Walk) {t : Token} (hkind : t.kind ≠ .space)
    (hnew : t.position.line ≠ w.lastLine) {tokens : List Token}
    (hline : ∀ u ∈ tokens, u.position.line = t.position.line) (rest : List Token) :
    w.starts (t :: tokens ++ rest) =
      ⟨t.position.line, w.blocks.length, t.kind == .closeBrace, w.inValue⟩ ::
        (w.through (t :: tokens) rest).starts rest := by
  have hnext : (w.next t (tokens ++ rest)).lastLine = t.position.line := by simp [next, hkind]
  rw [List.cons_append, starts, lineStarts, if_neg (by simp [hkind, hnew]),
    starts_append _ (by rwa [hnext]), through]
  rfl

theorem starts_space (w : Walk) {t : Token} (hkind : t.kind = .space) (rest : List Token) :
    w.starts (t :: rest) = (w.next t rest).starts rest := by
  rw [starts, lineStarts, if_pos (by simp [hkind]), List.nil_append]

end Walk

/-! ## The walk over rows -/

/-- The number of blocks that are open before a row. -/
def Row.depth : Row → Nat
  | declaration level _ _ => level
  | opening level _ => level
  | closing level => level + 1

/-- The number of blocks that are open behind a row. -/
def Row.depthAfter : Row → Nat
  | declaration level _ _ => level
  | opening level _ => level + 1
  | closing level => level

/-- Whether a row closes a block. -/
def Row.isClosing : Row → Bool
  | closing _ => true
  | _ => false

/-- What a walk notes at a row on a line. -/
def Row.start (line : Nat) (row : Row) : LineStart := ⟨line, row.depth, row.isClosing, false⟩

theorem Row.level_start (line : Nat) (row : Row) : (row.start line).level = row.level := by
  cases row <;> rfl

theorem Ident.kind (x : Ident) : TokenClass.ofText x.text = .other := by
  obtain ⟨b, s, hs⟩ := List.exists_cons_of_ne_nil x.text_ne_nil
  have hb := x.bytes b (by simp [hs])
  rw [hs, TokenClass.ofText, if_neg (by simp [isSpace_of_isNameByte hb]),
    if_neg (ne_of_isNameByte hb (by decide)), if_neg (ne_of_isNameByte hb (by decide)),
    if_neg (ne_of_isNameByte hb (by decide)), if_neg (ne_of_isNameByte hb (by decide)),
    if_neg (ne_of_isNameByte hb (by decide)), if_neg (ne_of_isNameByte hb (by decide))]

/-- The classes of the tokens of a row. -/
theorem Row.kinds (row : Row) :
    ∃ kind kinds last, row.texts.map TokenClass.ofText = kind :: kinds ∧ kind ≠ .space ∧
      (kind == .closeBrace) = row.isClosing ∧
      (kind :: kinds).foldl (fun n kind => kind.nest n) row.depth = row.depthAfter ∧
      (kind :: kinds).getLast? = some last ∧
      (last == .openBrace || last == .closeBrace || last == .semicolon) = true := by
  cases row with
  | declaration level property value =>
    have hkinds : (declaration level property value).texts.map TokenClass.ofText =
        [.other, .colon, .space, .other, .semicolon] := by
      simp only [texts, List.map_cons, List.map_nil, property.kind, value.kind]
      rfl
    exact ⟨_, _, _, hkinds, by decide, rfl, rfl, rfl, rfl⟩
  | opening level selector =>
    cases selector with
    | element name =>
      have hkinds : (opening level (.element name)).texts.map TokenClass.ofText =
          [.other, .space, .openBrace] := by
        simp only [texts, Selector.texts, List.map_cons, List.map_nil, List.cons_append,
          List.nil_append, name.kind]
        rfl
      exact ⟨_, _, _, hkinds, by decide, rfl, rfl, rfl, rfl⟩
    | cls name =>
      have hkinds : (opening level (.cls name)).texts.map TokenClass.ofText =
          [.other, .other, .space, .openBrace] := by
        simp only [texts, Selector.texts, List.map_cons, List.map_nil, List.cons_append,
          List.nil_append, name.kind]
        rfl
      exact ⟨_, _, _, hkinds, by decide, rfl, rfl, rfl, rfl⟩
  | closing level => exact ⟨_, _, _, rfl, by decide, rfl, rfl, rfl, rfl⟩

theorem map_kind_place (p : Position) (xs : List Bytes) :
    (Token.place p xs).map Token.kind = xs.map TokenClass.ofText := by
  induction xs generalizing p with
  | nil => rfl
  | cons x xs ih => rw [Token.place, List.map_cons, List.map_cons, ih]

theorem Row.count_newline (row : Row) : row.text.count Byte.newline = 0 :=
  List.count_eq_zero.2 fun h => absurd (row.isRowByte_of_mem h) (by decide)

theorem Row.line_of_mem_place {row : Row} {p : Position} {t : Token}
    (ht : t ∈ Token.place p row.texts) : t.position.line = p.line := by
  have hline := Stylesheet.line_of_mem_place ht
  rw [← Row.text, row.count_newline] at hline
  omega

theorem Row.line_behind (row : Row) (p : Position) (lead : Nat → Nat) (rest : List Row) :
    ((row.texts.foldl Position.after p).after (gap lead rest)).line = p.line + 1 := by
  have hspaces (n : Nat) : (List.replicate n Byte.space).count Byte.newline = 0 :=
    List.count_eq_zero.2 fun h => absurd (List.eq_of_mem_replicate h) (by decide)
  rw [Position.line_after, Position.line_foldl_after, ← Row.text, row.count_newline, gap,
    List.count_cons_self, hspaces]

/-- A walk before the row on a line. -/
structure Walk.IsBefore (w : Walk) (depth line : Nat) : Prop where
  depth : w.blocks.length = depth
  inValue : w.inValue = false
  lastLine : w.lastLine < line

theorem Walk.IsBefore.next_space {w : Walk} {depth line : Nat} (h : w.IsBefore depth line)
    {t : Token} (ht : t.kind = .space) (rest : List Token) :
    (w.next t rest).IsBefore depth line where
  depth := by simp [Walk.next, blocksAfter, ht, h.depth]
  inValue := by simp [Walk.next, inValueAfter, ht, h.inValue]
  lastLine := by simp [Walk.next, ht, h.lastLine]

/-- **The walk over a row notes its start and is then before the next row.** -/
theorem exists_starts_row {w : Walk} {row : Row} {p : Position}
    (h : w.IsBefore row.depth p.line) (rest : List Token) :
    ∃ v : Walk, v.IsBefore row.depthAfter (p.line + 1) ∧
      w.starts (Token.place p row.texts ++ rest) = row.start p.line :: v.starts rest := by
  obtain ⟨kind, kinds, last, hkinds, hspace, hclosing, hdepth, hlast, hboundary⟩ := row.kinds
  rw [← map_kind_place p] at hkinds
  have hlines : ∀ t ∈ Token.place p row.texts, t.position.line = p.line :=
    fun t ht => row.line_of_mem_place ht
  obtain ⟨t, tokens, hplace, rfl, rfl⟩ := List.map_eq_cons_iff.1 hkinds
  rw [hplace, List.forall_mem_cons] at hlines
  rw [← List.map_cons, List.getLast?_map, Option.map_eq_some_iff] at hlast
  obtain ⟨u, hu, rfl⟩ := hlast
  have hnext : (w.next t (tokens ++ rest)).lastLine = p.line := by
    simp [Walk.next, hspace, hlines.1]
  -- the last token is a boundary, so no value reaches into the next row
  refine ⟨w.through (t :: tokens) rest, ⟨?_, ?_, ?_⟩, ?_⟩
  · rw [w.length_blocks_through, h.depth, List.map_cons, hdepth]
  · exact w.inValue_through hu hboundary rest
  · rw [Walk.through, Walk.lastLine_through _ (by rw [hnext]; exact hlines.2), hnext]
    exact Nat.lt_succ_self p.line
  · have hnew := h.lastLine
    rw [hplace, w.starts_line hspace (by omega) (by rw [hlines.1]; exact hlines.2), hlines.1,
      h.depth, h.inValue, hclosing]
    rfl

/-- Rows of which each leaves as many blocks open as the next one finds. -/
def Nested : Nat → List Row → Nat → Prop
  | a, [], b => a = b
  | a, row :: rest, b => row.depth = a ∧ Nested row.depthAfter rest b

theorem Nested.append {a b c : Nat} {xs ys : List Row} (hx : Nested a xs b) (hy : Nested b ys c) :
    Nested a (xs ++ ys) c := by
  induction xs generalizing a with
  | nil =>
    cases hx
    exact hy
  | cons row xs ih => exact ⟨hx.1, ih hx.2⟩

theorem Content.nested_rows (content : Content) (d : Nat) : Nested d (content.rows d) d := by
  induction content generalizing d with
  | declaration property value => exact ⟨rfl, rfl⟩
  | block selector inner ih => exact ⟨rfl, (ih (d + 1)).append ⟨rfl, rfl⟩⟩
  | both first second ihf ihs => exact (ihf d).append (ihs d)

/-- **The walk over nested rows starts every line at the depth of its row.** -/
theorem starts_pieces {lead : Nat → Nat} {a b : Nat} {rows : List Row} (h : Nested a rows b)
    {w : Walk} {p : Position} (hw : w.IsBefore a p.line) :
    w.starts (Token.place p (pieces lead rows)) =
      (rows.zipIdx p.line).map fun (row, line) => row.start line := by
  induction rows generalizing a w p with
  | nil => rfl
  | cons row rest ih =>
    obtain ⟨rfl, hrest⟩ := h
    rw [pieces, place_append, Token.place]
    obtain ⟨v, hv, hstarts⟩ := exists_starts_row hw _
    rw [hstarts, v.starts_space (by rfl), ih hrest, row.line_behind]
    · rfl
    · rw [row.line_behind]
      exact hv.next_space rfl _

/-! ## Indentation -/

/-- No issue is about indentation exactly when nothing is said about the start of a line. -/
theorem rule_ne_indentation_iff (width : Nat) (css : Bytes) :
    (∀ i ∈ issues width css, i.rule ≠ .indentation) ↔
      ∀ start ∈ Walk.starts {} (tokenize css), indentIssues width (lines css) start = [] := by
  rw [issues]
  constructor
  · intro h start hstart
    rw [List.eq_nil_iff_forall_not_mem]
    intro i hi
    exact h i (List.mem_append_right _ (List.mem_flatMap.2 ⟨start, hstart, hi⟩))
      (of_mem_indentIssues hi).1
  · intro h i hi hrule
    rcases List.mem_append.1 hi with hi | hi
    · obtain ⟨t, -, hstands⟩ := standsAt_of_mem_issues hi
      have hkind := hstands.kind
      rw [hrule] at hkind
      cases hkind
    · obtain ⟨start, hstart, hi⟩ := List.mem_flatMap.1 hi
      rw [h start hstart] at hi
      cases hi

theorem Row.takeWhile_line (lead : Nat → Nat) (row : Row) :
    (row.line lead).takeWhile Byte.isIndent = List.replicate (lead row.level) Byte.space := by
  have hspaces : ∀ b ∈ List.replicate (lead row.level) Byte.space, Byte.isIndent b = true := by
    intro b hb
    rw [List.eq_of_mem_replicate hb]
    rfl
  have hindent : ∀ b, isSpace b = false → Byte.isIndent b = false := by decide +kernel
  have hhead := row.isSpace_head []
  rw [List.append_nil] at hhead
  rw [line, List.takeWhile_append_of_pos hspaces]
  cases htext : row.text with
  | nil => simp
  | cons b s =>
    rw [htext, List.head?_cons, Option.any_some] at hhead
    rw [List.takeWhile_cons_of_neg (by simp [hindent b hhead]), List.append_nil]

/-- A row is indented well when it stands at its level. -/
theorem indentIssues_row_iff {width : Nat} {lead : Nat → Nat} {ls : List Bytes} {row : Row}
    {n : Nat} (h : ls[n]? = some (row.line lead)) :
    indentIssues width ls (row.start (n + 1)) = [] ↔
      lead row.level = wantedSpaces width row.level := by
  simp only [indentIssues, row.level_start]
  rw [Row.start, Nat.add_sub_cancel, h, Option.getD_some, row.takeWhile_line]
  simp

theorem Row.newline_not_mem_line (lead : Nat → Nat) (row : Row) :
    Byte.newline ∉ row.line lead := by
  rw [line, List.mem_append, not_or]
  refine ⟨fun h => absurd (List.eq_of_mem_replicate h) (by decide), ?_⟩
  exact List.count_eq_zero.1 row.count_newline

/-- The first row of a content is at its level. -/
theorem Content.exists_rows_eq_cons (content : Content) (d : Nat) :
    ∃ row rest, content.rows d = row :: rest ∧ row.level = d := by
  induction content generalizing d with
  | declaration property value => exact ⟨_, _, rfl, rfl⟩
  | block selector inner ih => exact ⟨_, _, rfl, rfl⟩
  | both first second ihf ihs =>
    obtain ⟨row, rest, hrows, hlevel⟩ := ihf d
    exact ⟨row, rest ++ second.rows d, by rw [rows, hrows, List.cons_append], hlevel⟩

/-- **The rule of indentation asks every row to stand at its level.** -/
theorem rule_ne_indentation_layout_iff {lead : Nat → Nat} (hlead : lead 0 = 0) (width : Nat)
    (content : Content) :
    (∀ i ∈ issues width (layout lead (content.rows 0)), i.rule ≠ .indentation) ↔
      ∀ row ∈ content.rows 0, lead row.level = wantedSpaces width row.level := by
  obtain ⟨first, rest, hrows, hfirst⟩ := content.exists_rows_eq_cons 0
  have hbefore : ({} : Walk).IsBefore 0 Position.start.line := ⟨rfl, rfl, Nat.one_pos⟩
  have hstarts : Walk.starts {} (tokenize (layout lead (content.rows 0))) =
      ((content.rows 0).zipIdx 1).map fun (row, line) => row.start line := by
    rw [hrows, tokenize_layout (by rw [hfirst, hlead]), ← hrows,
      starts_pieces (content.nested_rows 0) hbefore]
    rfl
  have hlines : lines (layout lead (content.rows 0)) =
      (content.rows 0).map (Row.line lead) ++ [[]] :=
    lines_flatMap fun row _ => row.newline_not_mem_line lead
  have hline {n : Nat} {row : Row} (h : (content.rows 0)[n]? = some row) :
      (lines (layout lead (content.rows 0)))[n]? = some (row.line lead) := by
    rw [hlines, List.getElem?_append_left, List.getElem?_map, h, Option.map_some]
    rw [List.length_map]
    exact (List.getElem?_eq_some_iff.1 h).1
  rw [rule_ne_indentation_iff, hstarts, List.forall_mem_map]
  constructor
  · intro h row hrow
    obtain ⟨n, hn⟩ := List.getElem?_of_mem hrow
    refine (indentIssues_row_iff (hline hn)).1 (h (row, n + 1) ?_)
    exact List.mk_mem_zipIdx_iff_le_and_getElem?_sub.2 ⟨Nat.le_add_left 1 n, hn⟩
  · rintro h ⟨row, line⟩ hmem
    obtain ⟨hpos, hn⟩ := List.mk_mem_zipIdx_iff_le_and_getElem?_sub.1 hmem
    have hindent := (indentIssues_row_iff (hline hn)).2 (h row (List.mem_of_getElem? hn))
    rwa [Nat.sub_add_cancel hpos] at hindent

end TemplateLint.Stylesheet
