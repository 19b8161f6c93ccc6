import Mathlib
import TemplateLint.Proofs.Stylesheet.Checker
import TemplateLint.Proofs.Stylesheet.Locality

/-!
# The tokens of two texts behind each other

A stylesheet is closed when it ends in a newline behind a closing brace and leaves no block open.
Tokens are local, so a closed stylesheet is cut in the same way up to its last brace whatever
follows it. Only the white space behind the brace grows together with the white space that starts
the next text. All other tokens of that text keep their texts and columns and move down by the
lines of the closed stylesheet.
-/
namespace TemplateLint

namespace Position

/-- The position `n` lines further down. -/
def lower (n : Nat) (p : Position) : Position := ⟨p.line + n, p.column⟩

theorem after_lower (n : Nat) (p : Position) (s : Bytes) :
    (p.lower n).after s = (p.after s).lower n := by
  have fold (rs : List Rune) (q : Position) :
      rs.foldl next (q.lower n) = (rs.foldl next q).lower n := by
    induction rs generalizing q with
    | nil => rfl
    | cons r rs ih =>
      have hnext : (q.lower n).next r = (q.next r).lower n := by
        by_cases hr : r.isNewline = true
        · simp [next, hr, lower, Nat.add_right_comm]
        · simp [next, hr, lower]
      rw [List.foldl_cons, List.foldl_cons, hnext, ih]
  exact fold _ p

/-- Texts behind each other lead down by all their newlines. -/
theorem line_foldl_after (p : Position) (xs : List Bytes) :
    (xs.foldl after p).line = p.line + xs.flatten.count Byte.newline := by
  induction xs generalizing p with
  | nil => rfl
  | cons x xs ih =>
    rw [List.foldl_cons, ih, line_after, List.flatten_cons, List.count_append, Nat.add_assoc]

end Position

namespace Stylesheet
open Bytes

/-! ## Chunks -/

/-- The chunks of a text are a chunk and the chunks of the text behind it. -/
theorem chunks_eq_cons {s x : Bytes} {xs : List Bytes} (h : chunks tokenLength s = x :: xs) :
    s ≠ [] ∧ x = s.take (tokenLength s) ∧ xs = chunks tokenLength (s.drop (tokenLength s)) := by
  cases s with
  | nil => cases h
  | cons b s =>
    rw [chunks_cons (tokenLength_pos b s)] at h
    obtain ⟨hx, hxs⟩ := List.cons.inj h
    exact ⟨by simp, hx.symm, hxs.symm⟩

/-- Cutting into chunks loses nothing. -/
theorem flatten_chunks (s : Bytes) : (chunks tokenLength s).flatten = s := by
  induction h : s.length using Nat.strong_induction_on generalizing s with
  | _ n ih =>
    cases s with
    | nil => rfl
    | cons b s =>
      have hpos := tokenLength_pos b s
      have hshorter : ((b :: s).drop (tokenLength (b :: s))).length < n := by
        rw [List.length_drop, h]
        rw [List.length_cons] at h
        omega
      rw [chunks_cons hpos, List.flatten_cons, ih _ hshorter _ rfl, List.take_append_drop]

/-- The last chunks of a text are the chunks of its end. -/
theorem chunks_flatten {s : Bytes} {xs ys : List Bytes}
    (h : chunks tokenLength s = xs ++ ys) : chunks tokenLength ys.flatten = ys := by
  induction xs generalizing s with
  | nil =>
    rw [List.nil_append] at h
    rw [← h, flatten_chunks]
  | cons x xs ih => exact ih (chunks_eq_cons h).2.2.symm

/-- Chunks that end before a newline do not depend on what stands behind it. -/
theorem chunks_append_newline {u t : Bytes} {xs ys : List Bytes} (t' : Bytes)
    (h : chunks tokenLength (u ++ Byte.newline :: t) = xs ++ ys)
    (hxs : xs.flatten.length ≤ u.length) :
    chunks tokenLength (u ++ Byte.newline :: t') =
      xs ++ chunks tokenLength ((u ++ Byte.newline :: t').drop xs.flatten.length) := by
  induction xs generalizing u with
  | nil => rfl
  | cons x xs ih =>
    obtain ⟨-, hx, hrest⟩ := chunks_eq_cons h
    rw [List.flatten_cons, List.length_append] at hxs ⊢
    have hlength : tokenLength (u ++ Byte.newline :: t) = x.length := by
      have hmin := congrArg List.length hx
      rw [List.length_take, List.length_append, List.length_cons] at hmin
      omega
    have hsame := (isLocal_tokenLength u t t').eq_of_le (by omega)
    rw [hlength] at hx hrest hsame
    rw [drop_append_newline (by omega)] at hrest
    rw [List.take_append_of_le_length (by omega)] at hx
    obtain ⟨b, s, hs⟩ := List.exists_cons_of_ne_nil
      (List.append_ne_nil_of_right_ne_nil u (List.cons_ne_nil Byte.newline t'))
    have hstep := chunks_cons (tokenLength_pos b s)
    rw [← hs, hsame, List.take_append_of_le_length (by omega), ← hx,
      drop_append_newline (by omega)] at hstep
    rw [hstep, ih hrest.symm (by rw [List.length_drop]; omega), List.cons_append,
      ← drop_append_newline (by omega), List.drop_drop]

/-! ## Chunks of some classes -/

theorem exists_of_chunks_eq {s x : Bytes} {b : UInt8} {xs : List Bytes}
    (h : chunks tokenLength s = (b :: x) :: xs) :
    ∃ t, s = b :: t ∧ x = t.take (tokenLength (b :: t) - 1) := by
  obtain ⟨-, hx, -⟩ := chunks_eq_cons h
  cases s with
  | nil => cases hx
  | cons c t =>
    obtain ⟨n, hn⟩ := Nat.exists_eq_succ_of_ne_zero (Nat.ne_of_gt (tokenLength_pos c t))
    rw [hn, List.take_succ_cons] at hx
    obtain ⟨rfl, htail⟩ := List.cons.inj hx
    refine ⟨t, rfl, ?_⟩
    rw [htail, hn, Nat.succ_sub_one]

/-- A chunk of a text starts a text that it is the first chunk of. -/
theorem exists_chunks_of_mem {s x : Bytes} (h : x ∈ chunks tokenLength s) :
    ∃ t xs, chunks tokenLength t = x :: xs := by
  obtain ⟨before, behind, hsplit⟩ := List.append_of_mem h
  exact ⟨_, behind, chunks_flatten hsplit⟩

/-- A closing brace is a chunk by itself. -/
theorem eq_singleton_of_mem_chunks {s x : Bytes} (h : x ∈ chunks tokenLength s)
    (hx : TokenClass.ofText x = .closeBrace) : x = [Byte.closeBrace] := by
  obtain ⟨y, rfl⟩ := text_of_firstByte? (b := Byte.closeBrace) (by rw [hx]; rfl)
  obtain ⟨t, xs, ht⟩ := exists_chunks_of_mem h
  obtain ⟨u, -, rfl⟩ := exists_of_chunks_eq ht
  rfl

theorem isSpace_of_ofText {b : UInt8} {x : Bytes} (h : TokenClass.ofText (b :: x) = .space) :
    isSpace b = true := by
  by_contra hb
  rw [TokenClass.ofText, if_neg hb] at h
  split_ifs at h

/-- A chunk of the class of white space is white space. -/
theorem isSpace_of_mem_chunks {s x : Bytes} (h : x ∈ chunks tokenLength s)
    (hx : TokenClass.ofText x = .space) : ∀ b ∈ x, isSpace b = true := by
  cases x with
  | nil => cases hx
  | cons b x =>
    have hb := isSpace_of_ofText hx
    obtain ⟨t, xs, ht⟩ := exists_chunks_of_mem h
    obtain ⟨u, -, rfl⟩ := exists_of_chunks_eq ht
    have hlength : tokenLength (b :: u) - 1 = (u.takeWhile isSpace).length := by
      rw [tokenLength, if_pos hb, classLength, Nat.add_sub_cancel_left]
    rw [hlength, ← List.prefix_iff_eq_take.1 (List.takeWhile_prefix isSpace), List.forall_mem_cons]
    exact ⟨hb, fun c hc => List.mem_takeWhile_imp hc⟩

/-- White space at the start of a text is one chunk. -/
theorem chunks_of_isSpace {w s : Bytes} (hne : w ≠ []) (hw : ∀ b ∈ w, isSpace b = true)
    (hs : s.head?.any isSpace = false) :
    chunks tokenLength (w ++ s) = w :: chunks tokenLength s := by
  have htake : (w ++ s).takeWhile isSpace = w := by
    rw [List.takeWhile_append_of_pos hw]
    cases s with
    | nil => simp
    | cons c s =>
      rw [List.takeWhile_cons_of_neg (by simpa using hs), List.append_nil]
  cases w with
  | nil => exact absurd rfl hne
  | cons b w =>
    have hb : isSpace b = true := hw b (by simp)
    rw [List.cons_append, List.takeWhile_cons_of_pos hb] at htake
    have hlength : tokenLength (b :: (w ++ s)) = (b :: w).length := by
      rw [tokenLength, if_pos hb, classLength, (List.cons.inj htake).2, List.length_cons,
        Nat.add_comm]
    rw [List.cons_append, chunks_cons (tokenLength_pos b _), hlength, ← List.cons_append,
      List.take_left, List.drop_left]

theorem head?_dropWhile_isSpace (s : Bytes) :
    (s.dropWhile isSpace).head?.any isSpace = false := by
  cases hd : s.dropWhile isSpace with
  | nil => rfl
  | cons c r => simpa [hd] using List.head_dropWhile_not isSpace (l := s) (by simp [hd])

/-- White space grows together with the white space behind it. -/
theorem chunks_space_append {w : Bytes} (hne : w ≠ []) (hw : ∀ b ∈ w, isSpace b = true)
    (s : Bytes) : chunks tokenLength (w ++ s) =
      (w ++ s.takeWhile isSpace) :: chunks tokenLength (s.dropWhile isSpace) := by
  have hspace : ∀ b ∈ w ++ s.takeWhile isSpace, isSpace b = true := by
    intro b hb
    rcases List.mem_append.1 hb with hb | hb
    · exact hw b hb
    · exact List.mem_takeWhile_imp hb
  rw [← chunks_of_isSpace (by simp [hne]) hspace (head?_dropWhile_isSpace s), List.append_assoc,
    List.takeWhile_append_dropWhile]

/-- The white space at the start of a text, as the chunks it is cut into. -/
def leadChunks (s : Bytes) : List Bytes :=
  if s.takeWhile isSpace = [] then [] else [s.takeWhile isSpace]

theorem chunks_eq_leadChunks_append (s : Bytes) :
    chunks tokenLength s = leadChunks s ++ chunks tokenLength (s.dropWhile isSpace) := by
  have hsplit := List.takeWhile_append_dropWhile (p := isSpace) (l := s)
  rw [leadChunks]
  split_ifs with hnil
  · rw [hnil, List.nil_append] at hsplit
    rw [hsplit, List.nil_append]
  · have hlead := chunks_of_isSpace hnil (fun b hb => List.mem_takeWhile_imp hb)
      (head?_dropWhile_isSpace s)
    rwa [hsplit] at hlead

theorem foldl_leadChunks (p : Position) (s : Bytes) :
    (leadChunks s).foldl Position.after p = p.after (s.takeWhile isSpace) := by
  rw [leadChunks]
  split_ifs with hnil
  · rw [hnil]
    rfl
  · rfl

theorem kind_of_mem_leadChunks {s x : Bytes} (h : x ∈ leadChunks s) :
    TokenClass.ofText x = .space := by
  rw [leadChunks] at h
  split_ifs at h with hnil
  · cases h
  · rw [List.mem_singleton] at h
    subst h
    obtain ⟨b, x, hx⟩ := List.exists_cons_of_ne_nil hnil
    have hb : isSpace b = true := List.mem_takeWhile_imp (l := s) (by simp [hx])
    rw [hx, TokenClass.ofText, if_pos hb]

/-! ## Closed stylesheets -/

/-- The state of a walk behind the last of some tokens. -/
def Walk.after : Walk → List Token → Walk
  | w, [] => w
  | w, t :: rest => (w.next t rest).after rest

/-- A stylesheet that ends in a newline, has a closing brace as its last token but for white
space, and leaves no block open. -/
structure IsClosed (css : Bytes) : Prop where
  newline : css.getLast? = some Byte.newline
  brace : ∃ before brace behind, tokenize css = before ++ brace :: behind ∧
    brace.kind = .closeBrace ∧ ∀ t ∈ behind, t.kind = .space
  blocks : (Walk.after {} (tokenize css)).blocks = []

theorem map_text_place (p : Position) (xs : List Bytes) :
    (Token.place p xs).map Token.text = xs := by
  induction xs generalizing p with
  | nil => rfl
  | cons x xs ih => rw [Token.place, List.map_cons, ih]

theorem kind_of_mem_place {p : Position} {xs : List Bytes} {t : Token}
    (h : t ∈ Token.place p xs) : t.kind = TokenClass.ofText t.text := by
  induction xs generalizing p with
  | nil => cases h
  | cons x xs ih =>
    rw [Token.place, List.mem_cons] at h
    rcases h with rfl | h
    · rfl
    · exact ih h

/-- The chunks of a closed stylesheet end in a closing brace and the white space behind it. -/
theorem IsClosed.exists_chunks {a : Bytes} (h : IsClosed a) :
    ∃ xs w, chunks tokenLength a = xs ++ [[Byte.closeBrace], w] ∧
      (∀ b ∈ w, isSpace b = true) ∧ w.getLast? = some Byte.newline := by
  obtain ⟨before, brace, behind, htokens, hbrace, hbehind⟩ := h.brace
  have hchunks := map_text_place Position.start (chunks tokenLength a)
  rw [← tokenize, htokens, List.map_append, List.map_cons] at hchunks
  have hclass : ∀ t ∈ before ++ brace :: behind,
      t.kind = TokenClass.ofText t.text ∧ t.text ∈ chunks tokenLength a := by
    intro t ht
    rw [← htokens] at ht
    refine ⟨kind_of_mem_place ht, ?_⟩
    rw [← map_text_place Position.start (chunks tokenLength a)]
    exact List.mem_map_of_mem ht
  have hbraceText : brace.text = [Byte.closeBrace] := by
    obtain ⟨hkind, hmem⟩ := hclass brace (by simp)
    exact eq_singleton_of_mem_chunks hmem (hkind ▸ hbrace)
  rw [hbraceText] at hchunks
  have hspace : ∀ b ∈ (behind.map Token.text).flatten, isSpace b = true := by
    intro b hb
    obtain ⟨x, hx, hb⟩ := List.mem_flatten.1 hb
    obtain ⟨t, ht, rfl⟩ := List.mem_map.1 hx
    obtain ⟨hkind, hmem⟩ := hclass t (by simp [ht])
    exact isSpace_of_mem_chunks hmem (hkind ▸ hbehind t ht) b hb
  have hlast : (behind.map Token.text).flatten.getLast? = some Byte.newline := by
    have hnewline := h.newline
    rw [← flatten_chunks a, ← hchunks, List.flatten_append, List.flatten_cons,
      List.singleton_append, List.getLast?_append, List.getLast?_cons] at hnewline
    cases hw : (behind.map Token.text).flatten.getLast? with
    | none =>
      rw [hw] at hnewline
      cases hnewline
    | some b =>
      rw [hw] at hnewline
      exact hnewline
  refine ⟨before.map Token.text, (behind.map Token.text).flatten, ?_, hspace, hlast⟩
  have hne : (behind.map Token.text).flatten ≠ [] := by
    intro hnil
    rw [hnil] at hlast
    cases hlast
  have hone := chunks_of_isSpace (s := []) hne hspace rfl
  have hsplit : chunks tokenLength a =
      (before.map Token.text ++ [[Byte.closeBrace]]) ++ behind.map Token.text := by
    rw [← hchunks, List.append_assoc, List.singleton_append]
  rw [List.append_nil, chunks_flatten hsplit] at hone
  rw [← hchunks]
  nth_rewrite 1 [hone]
  rfl

/-! ## The tokens of two texts -/

theorem place_append (p : Position) (xs ys : List Bytes) :
    Token.place p (xs ++ ys) = Token.place p xs ++ Token.place (xs.foldl Position.after p) ys := by
  induction xs generalizing p with
  | nil => rfl
  | cons x xs ih =>
    rw [List.cons_append, Token.place, Token.place, ih, List.cons_append, List.foldl_cons]

/-- The token `n` lines further down. -/
def Token.lower (n : Nat) (t : Token) : Token := { t with position := t.position.lower n }

theorem place_lower (n : Nat) (p : Position) (xs : List Bytes) :
    Token.place (p.lower n) xs = (Token.place p xs).map (Token.lower n) := by
  induction xs generalizing p with
  | nil => rfl
  | cons x xs ih => rw [Token.place, Position.after_lower, ih, Token.place, List.map_cons]; rfl

/-- Tokens stand on the lines of the text they are cut from. -/
theorem line_of_mem_place {p : Position} {xs : List Bytes} {t : Token}
    (h : t ∈ Token.place p xs) :
    p.line ≤ t.position.line ∧ t.position.line ≤ p.line + xs.flatten.count Byte.newline := by
  induction xs generalizing p with
  | nil => cases h
  | cons x xs ih =>
    rw [Token.place, List.mem_cons] at h
    rw [List.flatten_cons, List.count_append]
    rcases h with rfl | h
    · simp only
      omega
    · have hline := ih h
      rw [Position.line_after] at hline
      omega

/-- How the tokens of two texts make up those of the texts behind each other: only the white space
between them grows together. -/
structure Joint (a b : Bytes) where
  body : List Token
  brace : Token
  /-- The white space at the end of the first text. -/
  gap : Token
  /-- The white space between the two texts. -/
  seam : Token
  /-- The white space at the start of the second text. -/
  lead : List Token
  rest : List Token
  first : tokenize a = body ++ [brace, gap]
  second : tokenize b = lead ++ rest
  both : tokenize (a ++ b) =
    body ++ brace :: seam :: rest.map (Token.lower (a.count Byte.newline))
  brace_kind : brace.kind = .closeBrace
  gap_kind : gap.kind = .space
  seam_kind : seam.kind = .space
  lead_kind : ∀ t ∈ lead, t.kind = .space
  line_le : ∀ t ∈ body ++ [brace], t.position.line ≤ a.count Byte.newline

/-- Behind a newline is the start of a line. -/
theorem after_eq_lower {q : Position} {w : Bytes} {n : Nat} (hw : w.getLast? = some Byte.newline)
    (hn : q.line + w.count Byte.newline = n + 1) : q.after w = Position.start.lower n := by
  obtain ⟨v, rfl⟩ := List.getLast?_eq_some_iff.1 hw
  rw [List.count_append, List.count_singleton_self] at hn
  rw [Position.after_append_newline, Position.after_nil, Position.line_after]
  simp only [Position.start, Position.lower, Position.mk.injEq, and_true]
  omega

/-- Up to its last brace a text that ends in a newline is cut in the same way whatever follows. -/
theorem chunks_append_of_brace {a w : Bytes} {xs : List Bytes}
    (h : chunks tokenLength a = xs ++ [[Byte.closeBrace], w]) (hw : w.getLast? = some Byte.newline)
    (b : Bytes) :
    chunks tokenLength (a ++ b) = xs ++ [Byte.closeBrace] :: chunks tokenLength (w ++ b) := by
  obtain ⟨v, hv⟩ := List.getLast?_eq_some_iff.1 hw
  have htext : a = (xs.flatten ++ Byte.closeBrace :: v) ++ [Byte.newline] := by
    rw [← flatten_chunks a, h, hv]
    simp
  have hsplit : chunks tokenLength a = (xs ++ [[Byte.closeBrace]]) ++ [w] := by
    rw [h]
    simp
  rw [htext] at hsplit
  have hlocal := chunks_append_newline b hsplit (by simp)
  have hbehind : xs.flatten ++ Byte.closeBrace :: v ++ Byte.newline :: b =
      (xs ++ [[Byte.closeBrace]]).flatten ++ (w ++ b) := by
    rw [hv]
    simp
  rw [htext, List.append_assoc, List.singleton_append, hlocal, hbehind, List.drop_left]
  simp

/-- A closed stylesheet joins any text behind it. -/
theorem IsClosed.nonempty_joint {a : Bytes} (h : IsClosed a) (b : Bytes) :
    Nonempty (Joint a b) := by
  obtain ⟨xs, w, hchunks, hspace, hlast⟩ := h.exists_chunks
  have htext : a = xs.flatten ++ Byte.closeBrace :: w := by
    rw [← flatten_chunks a, hchunks]
    simp
  obtain ⟨v, hv⟩ := List.getLast?_eq_some_iff.1 hlast
  have hne : w ≠ [] := by simp [hv]
  have hcount : a.count Byte.newline =
      xs.flatten.count Byte.newline + w.count Byte.newline := by
    rw [htext, List.count_append, List.count_cons_of_ne (by decide)]
  have hpos : 0 < w.count Byte.newline := by simp [hv]
  have hline := Position.line_foldl_after Position.start xs
  have hstart : Position.start.line = 1 := rfl
  -- behind the first text a line starts
  have hend : ((xs.foldl Position.after Position.start).after [Byte.closeBrace]).after w =
      Position.start.lower (a.count Byte.newline) := by
    have hbrace : [Byte.closeBrace].count Byte.newline = 0 := rfl
    refine after_eq_lower hlast ?_
    rw [Position.line_after]
    omega
  have hseam : ((xs.foldl Position.after Position.start).after [Byte.closeBrace]).after
      (w ++ b.takeWhile isSpace) =
      (Position.start.after (b.takeWhile isSpace)).lower (a.count Byte.newline) := by
    have hw := isUtf8_of_ascii fun c hc => ascii_of_isSpace (hspace c hc)
    rw [Position.after_append _ hw, hend, Position.after_lower]
  have hkind : ∀ s, TokenClass.ofText (w ++ s) = .space := by
    intro s
    obtain ⟨c, u, rfl⟩ := List.exists_cons_of_ne_nil hne
    rw [List.cons_append, TokenClass.ofText, if_pos (hspace c (by simp))]
  exact ⟨{
    body := Token.place Position.start xs
    brace := ⟨.closeBrace, [Byte.closeBrace], xs.foldl Position.after Position.start⟩
    gap := ⟨.space, w, (xs.foldl Position.after Position.start).after [Byte.closeBrace]⟩
    seam := ⟨.space, w ++ b.takeWhile isSpace,
      (xs.foldl Position.after Position.start).after [Byte.closeBrace]⟩
    lead := Token.place Position.start (leadChunks b)
    rest := Token.place (Position.start.after (b.takeWhile isSpace))
      (chunks tokenLength (b.dropWhile isSpace))
    first := by
      have hgap := hkind []
      rw [List.append_nil] at hgap
      rw [tokenize, hchunks, place_append, Token.place, Token.place, hgap]
      rfl
    second := by
      rw [tokenize, chunks_eq_leadChunks_append, place_append, foldl_leadChunks]
    both := by
      rw [tokenize, chunks_append_of_brace hchunks hlast, chunks_space_append hne hspace,
        place_append, Token.place, Token.place, hseam, place_lower, hkind]
      rfl
    brace_kind := rfl
    gap_kind := rfl
    seam_kind := rfl
    lead_kind := by
      intro t ht
      rw [kind_of_mem_place ht]
      refine kind_of_mem_leadChunks (s := b) ?_
      rw [← map_text_place Position.start (leadChunks b)]
      exact List.mem_map_of_mem ht
    line_le := by
      intro t ht
      rw [List.mem_append, List.mem_singleton] at ht
      rcases ht with ht | rfl
      · have hbody := line_of_mem_place ht
        omega
      · simp only
        omega }⟩

end Stylesheet
end TemplateLint
