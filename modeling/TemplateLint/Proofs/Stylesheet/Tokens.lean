import Mathlib
import TemplateLint.Proofs.Stylesheet.Joint

/-!
# Tokens tile the stylesheet

Cutting a stylesheet into tokens loses nothing. No token is empty and none ends inside a character,
so the text in front of a token is valid by itself. The newlines of that text count the line of the
token, and the characters behind the last of them count its column. Every token stands behind the
one before it, so two tokens never share a place, whatever the bytes of the stylesheet are.
-/
namespace TemplateLint
open Bytes

/-- What stands behind the last newline of a text, when something stands behind a newline. -/
theorem Bytes.rtakeWhile_append_newline (s t : Bytes) :
    (s ++ Byte.newline :: t).rtakeWhile (· != Byte.newline) =
      t.rtakeWhile (· != Byte.newline) := by
  have hstop : (Byte.newline :: s.reverse).takeWhile (· != Byte.newline) = [] := by simp
  rw [List.rtakeWhile, List.rtakeWhile, List.reverse_append, List.reverse_cons, List.append_assoc,
    List.singleton_append, List.takeWhile_append, hstop, List.append_nil]
  split_ifs with hall
  · rw [(List.takeWhile_prefix _).eq_of_length hall]
  · rfl

namespace Position

/-- The order in which a text is read: by line, then by column. -/
def Before (p q : Position) : Prop :=
  p.line < q.line ∨ p.line = q.line ∧ p.column < q.column

theorem Before.trans {p q r : Position} (h : p.Before q) (h' : q.Before r) : p.Before r := by
  unfold Before at *
  omega

theorem Before.ne {p q : Position} (h : p.Before q) : p ≠ q := by
  rintro rfl
  unfold Before at h
  omega

theorem before_next (p : Position) (r : Rune) : p.Before (p.next r) := by
  by_cases hr : r.isNewline = true
  · simp [Before, next, hr]
  · simp [Before, next, hr]

/-- Every text leads on. -/
theorem before_after (p : Position) {s : Bytes} (hs : s ≠ []) : p.Before (p.after s) := by
  have fold (rs : List Rune) (r : Rune) (q : Position) : q.Before ((r :: rs).foldl next q) := by
    induction rs generalizing r q with
    | nil => exact q.before_next r
    | cons r' rs ih => exact (q.before_next r).trans (ih r' (q.next r))
  obtain ⟨b, s, rfl⟩ := List.exists_cons_of_ne_nil hs
  rw [after, Rune.decode_cons]
  exact fold _ _ p

/-- Columns count the characters behind the last newline. -/
theorem column_after {p : Position} (hp : p.column = 1) (s : Bytes) :
    (p.after s).column = 1 + runeCount (s.rtakeWhile (· != Byte.newline)) := by
  induction s using lineInduction generalizing p with
  | last s hs =>
    have hall : s.rtakeWhile (· != Byte.newline) = s := by
      rw [List.rtakeWhile_eq_self_iff]
      intro b hb
      simpa using ne_of_mem_of_not_mem hb hs
    rw [after_of_not_mem p hs, hall, hp]
  | line s t _ ih => rw [after_append_newline, ih rfl, rtakeWhile_append_newline]

/-- Texts behind each other lead where all of them together lead. -/
theorem foldl_after {xs : List Bytes} (h : ∀ x ∈ xs, isUtf8 x = true) (p : Position) :
    xs.foldl after p = p.after xs.flatten := by
  induction xs generalizing p with
  | nil => rfl
  | cons x xs ih =>
    rw [List.forall_mem_cons] at h
    rw [List.foldl_cons, ih h.2, List.flatten_cons, after_append p h.1]

end Position

namespace Stylesheet

/-! ## Places -/

/-- The texts before a token decide where it stands. -/
theorem getElem?_place (p : Position) (xs : List Bytes) (i : Nat) :
    (Token.place p xs)[i]? =
      xs[i]?.map fun x => ⟨TokenClass.ofText x, x, (xs.take i).foldl Position.after p⟩ := by
  induction xs generalizing p i with
  | nil => simp [Token.place]
  | cons x xs ih =>
    cases i with
    | zero => rfl
    | succ i => simp [Token.place, ih]

/-- Tokens that are not empty stand behind each other. -/
theorem pairwise_place {xs : List Bytes} (h : ∀ x ∈ xs, x ≠ []) (p : Position) :
    (Token.place p xs).Pairwise fun t u => t.position.Before u.position := by
  have later : ∀ {xs : List Bytes}, (∀ x ∈ xs, x ≠ []) → ∀ {p q : Position}, p.Before q →
      ∀ t ∈ Token.place q xs, p.Before t.position := by
    intro xs h p q hpq t ht
    induction xs generalizing q with
    | nil => cases ht
    | cons x xs ih =>
      rw [List.forall_mem_cons] at h
      rcases List.mem_cons.1 ht with rfl | ht
      · exact hpq
      · exact ih h.2 (hpq.trans (q.before_after h.1)) ht
  induction xs generalizing p with
  | nil => exact .nil
  | cons x xs ih =>
    rw [List.forall_mem_cons] at h
    exact List.pairwise_cons.2 ⟨later h.2 (p.before_after h.1), ih h.2 _⟩

/-! ## Tokens -/

theorem ne_nil_of_mem_chunks {s x : Bytes} (h : x ∈ chunks tokenLength s) : x ≠ [] := by
  obtain ⟨t, xs, ht⟩ := exists_chunks_of_mem h
  obtain ⟨hne, rfl, -⟩ := chunks_eq_cons ht
  obtain ⟨b, t, rfl⟩ := List.exists_cons_of_ne_nil hne
  have hpos := tokenLength_pos b t
  simp
  omega

/-- Two tokens that share their place are the same. -/
theorem eq_of_position_eq {css : Bytes} {i j : Nat} {t u : Token}
    (ht : (tokenize css)[i]? = some t) (hu : (tokenize css)[j]? = some u)
    (h : t.position = u.position) : i = j := by
  have hne : ∀ x ∈ chunks tokenLength css, x ≠ [] := fun x hx => ne_nil_of_mem_chunks hx
  have hpairwise := pairwise_place hne Position.start
  rw [← tokenize, List.pairwise_iff_getElem] at hpairwise
  obtain ⟨hi, rfl⟩ := List.getElem?_eq_some_iff.1 ht
  obtain ⟨hj, rfl⟩ := List.getElem?_eq_some_iff.1 hu
  rcases Nat.lt_trichotomy i j with hlt | heq | hlt
  · exact absurd h (hpairwise i j hi hj hlt).ne
  · exact heq
  · exact absurd h.symm (hpairwise j i hj hi hlt).ne

/-- The tokens of a valid stylesheet are valid. -/
theorem isUtf8_of_mem_chunks {s x : Bytes} (h : isUtf8 s) (hx : x ∈ chunks tokenLength s) :
    isUtf8 x = true := by
  induction hlength : s.length using Nat.strong_induction_on generalizing s with
  | _ n ih =>
    cases hchunks : chunks tokenLength s with
    | nil => simp [hchunks] at hx
    | cons y ys =>
      obtain ⟨hne, rfl, rfl⟩ := chunks_eq_cons hchunks
      have hcut := isCut_tokenLength h
      rw [hchunks, List.mem_cons] at hx
      rcases hx with rfl | hx
      · refine isUtf8_of_append_right ?_ hcut
        rwa [List.take_append_drop]
      · obtain ⟨b, s, rfl⟩ := List.exists_cons_of_ne_nil hne
        have hpos := tokenLength_pos b s
        refine ih _ ?_ hcut hx rfl
        rw [List.length_drop, hlength]
        rw [List.length_cons] at hlength
        omega

theorem flatMap_text_tokenize (css : Bytes) : (tokenize css).flatMap Token.text = css := by
  rw [List.flatMap_def, tokenize, map_text_place, flatten_chunks]

/-- A token of a stylesheet behind the text `before`. Newlines count lines, and characters count
columns. -/
structure Token.IsBehind (t : Token) (before : Bytes) : Prop where
  line : t.position.line = 1 + before.count Byte.newline
  column : t.position.column = 1 + runeCount (before.rtakeWhile (· != Byte.newline))

/-- A token stands behind the tokens before it. -/
theorem isBehind_of_getElem? {css : Bytes} (h : isUtf8 css) {i : Nat} {t : Token}
    (ht : (tokenize css)[i]? = some t) :
    t.IsBehind (((tokenize css).take i).flatMap Token.text) := by
  have hbefore : ((tokenize css).take i).flatMap Token.text =
      ((chunks tokenLength css).take i).flatten := by
    rw [List.flatMap_def, List.map_take, tokenize, map_text_place]
  have hvalid : ∀ x ∈ (chunks tokenLength css).take i, isUtf8 x = true := by
    intro x hx
    exact isUtf8_of_mem_chunks h (List.mem_of_mem_take hx)
  rw [tokenize, getElem?_place, Option.map_eq_some_iff] at ht
  obtain ⟨x, -, rfl⟩ := ht
  rw [hbefore]
  constructor
  · simp only [Position.foldl_after hvalid, Position.line_after]
    rfl
  · simp only [Position.foldl_after hvalid]
    exact Position.column_after rfl _

/-- A line of a text, as its number. -/
def IsLineOf (css : Bytes) (n : Nat) : Prop := 1 ≤ n ∧ n - 1 < (lines css).length

theorem isLineOf_of_mem_tokenize {css : Bytes} {t : Token} (h : t ∈ tokenize css) :
    IsLineOf css t.position.line := by
  have hline := line_of_mem_place h
  have hfirst : Position.start.line = 1 := rfl
  rw [flatten_chunks, hfirst] at hline
  rw [IsLineOf, length_lines]
  omega

/-- **Tokens tile a stylesheet.** Put together they are the stylesheet, none is empty or ends inside
a character, and each stands where the text before it leads. So the lines that indentation is looked
up on are lines of the stylesheet. -/
theorem tokens_tile_stylesheet {css : Bytes} (h : isUtf8 css) :
    (tokenize css).flatMap Token.text = css ∧
      (∀ (i : Nat) (t : Token), (tokenize css)[i]? = some t →
        t.text ≠ [] ∧ isUtf8 t.text = true ∧
          t.IsBehind (((tokenize css).take i).flatMap Token.text)) ∧
      (∀ t ∈ tokenize css, IsLineOf css t.position.line) ∧
      ∀ start ∈ Walk.starts {} (tokenize css), IsLineOf css start.line := by
  refine ⟨flatMap_text_tokenize css, ?_, fun t ht => isLineOf_of_mem_tokenize ht, ?_⟩
  · intro i t ht
    have hchunk : t.text ∈ chunks tokenLength css := by
      rw [← map_text_place Position.start (chunks tokenLength css)]
      exact List.mem_map_of_mem (List.mem_of_getElem? ht)
    exact ⟨ne_nil_of_mem_chunks hchunk, isUtf8_of_mem_chunks h hchunk, isBehind_of_getElem? h ht⟩
  · intro start hstart
    obtain ⟨t, ht, -, hline⟩ := exists_of_mem_starts hstart
    rw [hline]
    exact isLineOf_of_mem_tokenize ht

/-- A comment and a string over several lines, with characters beyond ASCII before and inside
tokens. -/
def spanningSample : Bytes := Bytes.ofString "/* é\n */é: '\\\nü' #ß"

/-- The tokens of the sample stand at seven places on three lines. -/
theorem spanningSample_tiled :
    isUtf8 spanningSample = true ∧
      (tokenize spanningSample).map (fun t => (t.position.line, t.position.column)) =
        [(1, 1), (2, 4), (2, 5), (2, 6), (2, 7), (3, 3), (3, 4)] ∧
      (tokenize spanningSample).flatMap Token.text = spanningSample ∧
      (∀ (i : Nat) (t : Token), (tokenize spanningSample)[i]? = some t →
        t.text ≠ [] ∧ isUtf8 t.text = true ∧
          t.IsBehind (((tokenize spanningSample).take i).flatMap Token.text)) ∧
      (∀ t ∈ tokenize spanningSample, IsLineOf spanningSample t.position.line) ∧
      ∀ start ∈ Walk.starts {} (tokenize spanningSample), IsLineOf spanningSample start.line := by
  have h : isUtf8 spanningSample = true := by decide +kernel
  exact ⟨h, by decide +kernel, tokens_tile_stylesheet h⟩

end Stylesheet
end TemplateLint
