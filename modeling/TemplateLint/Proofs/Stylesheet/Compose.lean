import Mathlib
import TemplateLint.Proofs.Stylesheet.Joint

/-!
# Linting is compositional

What a linter finds in a closed stylesheet does not depend on what follows it, and what it finds in
a text does not depend on the closed stylesheet before it, apart from the lines. A walk up to a
closing brace never looks behind it, and behind the brace that closes the last block it is in the
state of a walk that starts there. Sorting by place keeps the findings of the two texts apart.
-/
namespace TemplateLint

/-- The finding `n` lines further down. -/
def Finding.lower (n : Nat) (f : Finding) : Finding := { f with line := f.line + n }

namespace Stylesheet
open Bytes

/-! ## The walk -/

namespace Walk

/-- What is said about the tokens one by one, in their order. -/
def emit {α : Type} (say : Walk → Token → List α) : Walk → List Token → List α
  | _, [] => []
  | w, t :: rest => say w t ++ (w.next t rest).emit say rest

theorem issues_eq_emit (w : Walk) (tokens : List Token) :
    w.issues tokens = w.emit tokenIssues tokens := by
  induction tokens generalizing w with
  | nil => rfl
  | cons t rest ih => rw [issues, emit, ih]

theorem starts_eq_emit (w : Walk) (tokens : List Token) :
    w.starts tokens = w.emit lineStarts tokens := by
  induction tokens generalizing w with
  | nil => rfl
  | cons t rest ih => rw [starts, emit, ih]

/-- A boundary ends the search for what opens a block. -/
theorem opensBlock_append (before : List Token) {t : Token} (ht : t.isBoundary = true)
    (rest : List Token) : opensBlock (before ++ t :: rest) = opensBlock (before ++ [t]) := by
  rw [opensBlock, opensBlock, List.find?_append, List.find?_append, List.find?_cons_of_pos ht,
    List.find?_cons_of_pos ht]

theorem next_append (w : Walk) (t : Token) (before : List Token) {c : Token}
    (hc : c.isBoundary = true) (rest : List Token) :
    w.next t (before ++ c :: rest) = w.next t (before ++ [c]) := by
  rw [next, next, inValueAfter, inValueAfter, opensBlock_append before hc rest]

/-- A closing brace is taken without a look at what follows. -/
theorem next_of_closeBrace (w : Walk) {c : Token} (hc : c.kind = .closeBrace)
    (rest : List Token) : w.next c rest = w.next c [] := by
  rw [next, next, inValueAfter, inValueAfter, hc]

/-- A walk up to a closing brace does not depend on the tokens behind it. -/
theorem emit_append {α : Type} (say : Walk → Token → List α) (w : Walk) (before : List Token)
    {c : Token} (hc : c.kind = .closeBrace) (rest : List Token) :
    w.emit say (before ++ c :: rest) =
      w.emit say (before ++ [c]) ++ (w.after (before ++ [c])).emit say rest := by
  have hboundary : c.isBoundary = true := by simp [Token.isBoundary, hc]
  induction before generalizing w with
  | nil =>
    simp only [List.nil_append, emit, after, List.append_nil]
    rw [next_of_closeBrace w hc rest]
  | cons t before ih =>
    simp only [List.cons_append, emit, after]
    rw [next_append w t before hboundary rest, ih, List.append_assoc]

theorem after_append (w : Walk) (before : List Token) {c : Token} (hc : c.kind = .closeBrace)
    (rest : List Token) :
    w.after (before ++ c :: rest) = (w.after (before ++ [c])).after rest := by
  have hboundary : c.isBoundary = true := by simp [Token.isBoundary, hc]
  induction before generalizing w with
  | nil =>
    simp only [List.nil_append, after]
    rw [next_of_closeBrace w hc rest]
  | cons t before ih =>
    simp only [List.cons_append, after]
    rw [next_append w t before hboundary rest, ih]

/-- White space changes nothing but the token before. -/
theorem exists_emit_of_space {α : Type} {say : Walk → Token → List α}
    (hsay : ∀ w t, t.kind = .space → say w t = []) (w : Walk) {lead : List Token}
    (hlead : ∀ t ∈ lead, t.kind = .space) (rest : List Token) :
    ∃ v : Walk, v.blocks = w.blocks ∧ v.inValue = w.inValue ∧ v.lastLine = w.lastLine ∧
      w.emit say (lead ++ rest) = v.emit say rest := by
  induction lead generalizing w with
  | nil => exact ⟨w, rfl, rfl, rfl, rfl⟩
  | cons t lead ih =>
    rw [List.forall_mem_cons] at hlead
    obtain ⟨v, hblocks, hvalue, hline, hemit⟩ := ih (w.next t (lead ++ rest)) hlead.2
    refine ⟨v, ?_, ?_, ?_, ?_⟩
    · rw [hblocks, next, blocksAfter, hlead.1]
    · rw [hvalue, next, inValueAfter, hlead.1]
    · rw [hline, next, if_pos hlead.1]
    · rw [List.cons_append, emit, hsay w t hlead.1, List.nil_append, hemit]

theorem exists_next_of_concat (w : Walk) (before : List Token) (c : Token) :
    ∃ v : Walk, w.after (before ++ [c]) = v.next c [] := by
  induction before generalizing w with
  | nil => exact ⟨w, rfl⟩
  | cons t before ih => exact ih _

end Walk

/-- The open block `n` lines further down. -/
def OpenBlock.lower (n : Nat) (block : OpenBlock) : OpenBlock :=
  { block with position := block.position.lower n }

/-- The issue `n` lines further down. -/
def Issue.lower (n : Nat) (i : Issue) : Issue := { i with line := i.line + n }

/-- The line start `n` lines further down. -/
def LineStart.lower (n : Nat) (start : LineStart) : LineStart :=
  { start with line := start.line + n }

/-- A walk that is in the state of another one, `n` lines further down. What came before matters
only where a block is open, and the last line only for the lines to come. -/
structure Walk.Follows (n : Nat) (w v : Walk) : Prop where
  blocks : v.blocks = w.blocks.map (OpenBlock.lower n)
  inValue : v.inValue = w.inValue
  previous : w.blocks = [] ∨ v.previous.any isEmptyLine = w.previous.any isEmptyLine
  lastLine : ∀ line, 1 ≤ line → (line + n = v.lastLine ↔ line = w.lastLine)

namespace Walk.Follows
variable {n : Nat} {w v : Walk}

theorem markContent_lower (n : Nat) (blocks : List OpenBlock) :
    markContent (blocks.map (OpenBlock.lower n)) =
      (markContent blocks).map (OpenBlock.lower n) := by
  cases blocks <;> rfl

theorem opensBlock_lower (n : Nat) (tokens : List Token) :
    opensBlock (tokens.map (Token.lower n)) = opensBlock tokens := by
  have hboundary : Token.isBoundary ∘ Token.lower n = Token.isBoundary := rfl
  rw [opensBlock, opensBlock, List.find?_map, hboundary]
  cases tokens.find? Token.isBoundary <;> rfl

/-- A step over a token keeps the states alike. -/
theorem next (h : Follows n w v) (t : Token) (rest : List Token) :
    Follows n (w.next t rest) (v.next (t.lower n) (rest.map (Token.lower n))) where
  blocks := by
    simp only [Walk.next, blocksAfter, h.blocks, markContent_lower, ← List.map_tail]
    have hkind : (t.lower n).kind = t.kind := rfl
    rw [hkind]
    cases t.kind <;> rfl
  inValue := by
    have hempty : v.blocks.isEmpty = w.blocks.isEmpty := by simp [h.blocks]
    simp only [Walk.next, inValueAfter, h.inValue, opensBlock_lower, hempty]
    rfl
  previous := .inr rfl
  lastLine := by
    intro line hline
    have hkind : (t.lower n).kind = t.kind := rfl
    simp only [Walk.next, hkind]
    by_cases hspace : t.kind = .space
    · rw [if_pos hspace, if_pos hspace]
      exact h.lastLine line hline
    · rw [if_neg hspace, if_neg hspace]
      exact Nat.add_right_cancel_iff

theorem closeIssues_lower (h : Follows n w v) (t : Token) :
    closeIssues v (t.lower n) = (closeIssues w t).map (Issue.lower n) := by
  rw [closeIssues, closeIssues, h.blocks]
  cases hw : w.blocks with
  | nil => rfl
  | cons block outer =>
    have hprevious : v.previous.any isEmptyLine = w.previous.any isEmptyLine := by
      simpa [hw] using h.previous
    simp only [List.map_cons, hprevious]
    have hcontent : (block.lower n).hasContent = block.hasContent := rfl
    rw [hcontent]
    split_ifs <;> rfl

/-- Both walks say the same about a token. -/
theorem tokenIssues_lower (h : Follows n w v) (t : Token) :
    tokenIssues v (t.lower n) = (tokenIssues w t).map (Issue.lower n) := by
  have hkind : (t.lower n).kind = t.kind := rfl
  rw [tokenIssues, tokenIssues, hkind]
  split
  · exact closeIssues_lower h t
  · rw [hashIssues, hashIssues, h.inValue]
    have htext : (t.lower n).text = t.text := rfl
    rw [htext]
    split_ifs <;> rfl
  · rfl

theorem lineStarts_lower (h : Follows n w v) {t : Token} (ht : 1 ≤ t.position.line) :
    lineStarts v (t.lower n) = (lineStarts w t).map (LineStart.lower n) := by
  have hkind : (t.lower n).kind = t.kind := rfl
  have hline : (t.lower n).position.line = t.position.line + n := rfl
  have hdepth : v.blocks.length = w.blocks.length := by simp [h.blocks]
  have hlast := h.lastLine _ ht
  simp only [lineStarts, hkind, hline, hdepth, h.inValue, hlast]
  split_ifs <;> rfl

/-- Whatever is said alike about every token is said alike about all of them. -/
theorem emit {α : Type} {say : Walk → Token → List α} {move : α → α}
    (hsay : ∀ {w v}, Follows n w v → ∀ {t : Token}, 1 ≤ t.position.line →
      say v (t.lower n) = (say w t).map move)
    (h : Follows n w v) {tokens : List Token} (htokens : ∀ t ∈ tokens, 1 ≤ t.position.line) :
    v.emit say (tokens.map (Token.lower n)) = (w.emit say tokens).map move := by
  induction tokens generalizing w v with
  | nil => rfl
  | cons t rest ih =>
    rw [List.forall_mem_cons] at htokens
    rw [List.map_cons, Walk.emit, Walk.emit, List.map_append, hsay h htokens.1,
      ih (h.next t rest) htokens.2]

end Walk.Follows

/-- **A walk over two texts is a walk over each of them.** -/
theorem IsClosed.emit_append {a : Bytes} (h : IsClosed a) (b : Bytes) {α : Type}
    {say : Walk → Token → List α} {move : α → α}
    (hspace : ∀ w t, t.kind = .space → say w t = [])
    (hsay : ∀ {w v}, Walk.Follows (a.count Byte.newline) w v → ∀ {t : Token},
      1 ≤ t.position.line → say v (t.lower (a.count Byte.newline)) = (say w t).map move) :
    Walk.emit say {} (tokenize (a ++ b)) =
      Walk.emit say {} (tokenize a) ++ (Walk.emit say {} (tokenize b)).map move := by
  obtain ⟨j⟩ := h.nonempty_joint b
  obtain ⟨u, hu⟩ := Walk.exists_next_of_concat {} j.body j.brace
  have hfirst : Walk.emit say {} (tokenize a) = Walk.emit say {} (j.body ++ [j.brace]) := by
    rw [j.first, Walk.emit_append say {} j.body j.brace_kind, Walk.emit, Walk.emit,
      hspace _ _ j.gap_kind, List.append_nil, List.append_nil]
  have hblocks : (u.next j.brace []).blocks = [] := by
    have hend := h.blocks
    rw [j.first, Walk.after_append {} j.body j.brace_kind, hu, Walk.after, Walk.after,
      Walk.next, blocksAfter, j.gap_kind] at hend
    exact hend
  -- the second walk starts behind white space, and so does the first one
  have hseam : ∀ t ∈ [j.seam], t.kind = .space := by simpa using j.seam_kind
  obtain ⟨v, hvblocks, hvvalue, hvline, hvemit⟩ := Walk.exists_emit_of_space hspace
    (u.next j.brace []) hseam (j.rest.map (Token.lower (a.count Byte.newline)))
  rw [List.singleton_append] at hvemit
  obtain ⟨w, hwblocks, hwvalue, hwline, hwemit⟩ := Walk.exists_emit_of_space hspace {}
    j.lead_kind j.rest
  have hfollows : Walk.Follows (a.count Byte.newline) w v := by
    have hbrace := j.line_le j.brace (by simp)
    refine ⟨?_, ?_, .inl hwblocks, ?_⟩
    · rw [hvblocks, hblocks, hwblocks]
      rfl
    · rw [hvvalue, hwvalue, Walk.next, inValueAfter, j.brace_kind]
    · intro line hline
      have hlast : (u.next j.brace []).lastLine = j.brace.position.line := by
        rw [Walk.next, j.brace_kind]
        rfl
      rw [hvline, hwline, hlast]
      simp only
      omega
  have hlines : ∀ t ∈ j.rest, 1 ≤ t.position.line := by
    intro t ht
    have hmem : t ∈ tokenize b := by simp [j.second, ht]
    exact (line_of_mem_place hmem).1
  rw [hfirst, j.both, Walk.emit_append say {} j.body j.brace_kind, hu, hvemit, j.second, hwemit,
    hfollows.emit hsay hlines]

/-! ## Issues -/

/-- Nothing but white space stands on the last line of a closed stylesheet. -/
theorem IsClosed.line_le {a : Bytes} (h : IsClosed a) {t : Token} (ht : t ∈ tokenize a)
    (hkind : t.kind ≠ .space) : t.position.line ≤ a.count Byte.newline := by
  obtain ⟨j⟩ := h.nonempty_joint []
  rw [j.first, List.append_cons, List.mem_append, List.mem_singleton] at ht
  rcases ht with ht | rfl
  · exact j.line_le t ht
  · exact absurd j.gap_kind hkind

theorem one_le_line {b : Bytes} {t : Token} (ht : t ∈ tokenize b) : 1 ≤ t.position.line :=
  (line_of_mem_place ht).1

/-- The lines of a text behind one that ends in a newline. -/
theorem getElem?_lines_append {a : Bytes} (h : a.getLast? = some Byte.newline) (b : Bytes) :
    (∀ i, i < a.count Byte.newline → (lines (a ++ b))[i]? = (lines a)[i]?) ∧
      ∀ i, (lines (a ++ b))[i + a.count Byte.newline]? = (lines b)[i]? := by
  obtain ⟨u, rfl⟩ := List.getLast?_eq_some_iff.1 h
  have hlength : (lines u).length = (u ++ [Byte.newline]).count Byte.newline := by
    rw [length_lines, List.count_append, List.count_singleton_self]
  rw [List.append_assoc, List.singleton_append, lines_append, lines_append, ← hlength]
  refine ⟨fun i hi => ?_, fun i => ?_⟩
  · rw [List.getElem?_append_left hi, List.getElem?_append_left hi]
  · rw [List.getElem?_append_right (Nat.le_add_left _ _), Nat.add_sub_cancel]

theorem indentIssues_lower (width : Nat) {n : Nat} {lines lines' : List Bytes} {start : LineStart}
    (h : lines'[start.line + n - 1]? = lines[start.line - 1]?) :
    indentIssues width lines' (start.lower n) =
      (indentIssues width lines start).map (Issue.lower n) := by
  have hline : (start.lower n).line = start.line + n := rfl
  have hlevel : (start.lower n).level = start.level := rfl
  have hvalue : (start.lower n).continuing = start.continuing := rfl
  rw [indentIssues, indentIssues, hline, h, hlevel, hvalue]
  split_ifs <;> rfl

/-- The indentation of two texts is judged line by line. -/
theorem IsClosed.flatMap_indentIssues {a : Bytes} (h : IsClosed a) (width : Nat) (b : Bytes) :
    (Walk.starts {} (tokenize (a ++ b))).flatMap (indentIssues width (lines (a ++ b))) =
      (Walk.starts {} (tokenize a)).flatMap (indentIssues width (lines a)) ++
        ((Walk.starts {} (tokenize b)).flatMap (indentIssues width (lines b))).map
          (Issue.lower (a.count Byte.newline)) := by
  have hspace : ∀ w t, t.kind = .space → lineStarts w t = [] := by
    intro w t ht
    simp [lineStarts, ht]
  have hstarts := h.emit_append b hspace fun hfollows => hfollows.lineStarts_lower
  obtain ⟨hfirst, hsecond⟩ := getElem?_lines_append h.newline b
  rw [← Walk.starts_eq_emit, ← Walk.starts_eq_emit, ← Walk.starts_eq_emit] at hstarts
  rw [hstarts, List.flatMap_append, List.flatMap_map, List.map_flatMap]
  congr 1
  · refine List.flatMap_congr fun start hstart => ?_
    obtain ⟨t, ht, hkind, hline⟩ := exists_of_mem_starts hstart
    have hle := h.line_le ht hkind
    have hone := one_le_line ht
    rw [indentIssues, indentIssues, hfirst _ (by omega)]
  · refine List.flatMap_congr fun start hstart => ?_
    obtain ⟨t, ht, -, hline⟩ := exists_of_mem_starts hstart
    have hone := one_le_line ht
    refine indentIssues_lower width ?_
    rw [← hsecond]
    congr 1
    omega

/-! ## Sorting by place -/

section Sorting
variable {α : Type} {le : α → α → Bool}

/-- Sorting puts the first element of a list before those it is not behind. -/
theorem mergeSort_cons_eq (trans : ∀ a b c, le a b → le b c → le a c)
    (total : ∀ a b, le a b || le b a) (a : α) (l : List α) :
    (a :: l).mergeSort le = (l.mergeSort le).takeWhile (fun b => !le a b) ++
      a :: (l.mergeSort le).dropWhile (fun b => !le a b) := by
  obtain ⟨before, behind, hcons, hsort, hbefore⟩ := List.mergeSort_cons trans total a l
  have hsorted := List.pairwise_mergeSort trans total (a :: l)
  rw [hcons, List.pairwise_append, List.pairwise_cons] at hsorted
  rw [hcons, hsort, List.takeWhile_append_of_pos hbefore, List.dropWhile_append_of_pos hbefore]
  cases behind with
  | nil => simp
  | cons b behind =>
    have hb : le a b = true := hsorted.2.1.1 b (by simp)
    rw [List.takeWhile_cons_of_neg (by simp [hb]), List.dropWhile_cons_of_neg (by simp [hb]),
      List.append_nil]

/-- A search that stops at once in the second list stops in the first or between the two. -/
theorem takeWhile_dropWhile_append {p : α → Bool} {l m : List α} (hm : ∀ a ∈ m, p a = false) :
    (l ++ m).takeWhile p = l.takeWhile p ∧ (l ++ m).dropWhile p = l.dropWhile p ++ m := by
  induction l with
  | nil =>
    cases m with
    | nil => exact ⟨rfl, rfl⟩
    | cons a m => simp [hm a (by simp)]
  | cons a l ih =>
    by_cases ha : p a = true
    · simpa [ha] using ih
    · simp [ha]

/-- When some elements of a list come before all others, both can be sorted by themselves. -/
theorem mergeSort_eq_append (trans : ∀ a b c, le a b → le b c → le a c)
    (total : ∀ a b, le a b || le b a) (p : α → Bool) {l : List α}
    (h : ∀ a ∈ l, ∀ b ∈ l, p a = true → p b = false → le b a = false) :
    l.mergeSort le =
      (l.filter p).mergeSort le ++ (l.filter fun a => !p a).mergeSort le := by
  induction l with
  | nil => simp
  | cons a l ih =>
    have hl : ∀ b ∈ l, ∀ c ∈ l, p b = true → p c = false → le c b = false := by
      intro b hb c hc
      exact h b (by simp [hb]) c (by simp [hc])
    rw [mergeSort_cons_eq trans total, ih hl]
    by_cases hp : p a = true
    · rw [List.filter_cons_of_pos hp, List.filter_cons_of_neg (by simp [hp]),
        mergeSort_cons_eq trans total]
      -- `a` comes before everything in the second part
      have hbehind : ∀ b ∈ (l.filter fun a => !p a).mergeSort le, le a b = true := by
        intro b hb
        have hmem := List.mem_filter.1 (List.mem_mergeSort.1 hb)
        have hlt := h a (by simp) b (by simp [hmem.1]) hp (by simpa using hmem.2)
        simpa [hlt] using total a b
      obtain ⟨htake, hdrop⟩ := takeWhile_dropWhile_append (p := fun b => !le a b)
        (l := (l.filter p).mergeSort le) fun b hb => by simp [hbehind b hb]
      rw [htake, hdrop, List.append_assoc, List.cons_append]
    · rw [List.filter_cons_of_neg hp, List.filter_cons_of_pos (by simp [hp]),
        mergeSort_cons_eq trans total]
      have hbefore : ∀ b ∈ (l.filter p).mergeSort le, (!le a b) = true := by
        intro b hb
        have hmem := List.mem_filter.1 (List.mem_mergeSort.1 hb)
        simp [h b (by simp [hmem.1]) a (by simp) hmem.2 (by simpa using hp)]
      rw [List.takeWhile_append_of_pos hbefore, List.dropWhile_append_of_pos hbefore,
        List.append_assoc]

end Sorting

theorem Issue.le_trans (a b c : Issue) (hab : a.le b) (hbc : b.le c) : a.le c := by
  simp only [Issue.le, Bool.or_eq_true, Bool.and_eq_true, decide_eq_true_eq, beq_iff_eq] at *
  omega

theorem Issue.le_total (a b : Issue) : a.le b || b.le a := by
  simp only [Issue.le, Bool.or_eq_true, Bool.and_eq_true, decide_eq_true_eq, beq_iff_eq]
  omega

theorem Issue.le_lower (n : Nat) (a b : Issue) : (a.lower n).le (b.lower n) = a.le b := by
  change (decide (a.line + n < b.line + n) ||
    (a.line + n == b.line + n && decide (a.column ≤ b.column))) = a.le b
  rw [Bool.eq_iff_iff]
  simp [Issue.le]

/-- Sorted issues stay sorted further down. -/
theorem mergeSort_map_lower (n : Nat) (l : List Issue) :
    (l.map (Issue.lower n)).mergeSort Issue.le = (l.mergeSort Issue.le).map (Issue.lower n) := by
  refine (List.map_mergeSort fun a _ b _ => ?_).symm
  rw [Issue.le_lower]

/-- Issues up to line `n` come before issues further down, and both are sorted by themselves. -/
theorem mergeSort_of_line_le {n : Nat} {l l' m m' : List Issue}
    (hl : ∀ i ∈ l ++ m, i.line ≤ n) (hl' : ∀ i ∈ l' ++ m', n < i.line) :
    ((l ++ l') ++ (m ++ m')).mergeSort Issue.le =
      (l ++ m).mergeSort Issue.le ++ (l' ++ m').mergeSort Issue.le := by
  have hkeep : ∀ k : List Issue, (∀ i ∈ k, i.line ≤ n) →
      k.filter (fun i => decide (i.line ≤ n)) = k ∧
        k.filter (fun i => !decide (i.line ≤ n)) = [] := by
    intro k hk
    refine ⟨List.filter_eq_self.2 fun i hi => ?_, List.filter_eq_nil_iff.2 fun i hi => ?_⟩
    · simpa using hk i hi
    · simpa using hk i hi
  have hdrop : ∀ k : List Issue, (∀ i ∈ k, n < i.line) →
      k.filter (fun i => decide (i.line ≤ n)) = [] ∧
        k.filter (fun i => !decide (i.line ≤ n)) = k := by
    intro k hk
    refine ⟨List.filter_eq_nil_iff.2 fun i hi => ?_, List.filter_eq_self.2 fun i hi => ?_⟩
    · simpa using hk i hi
    · simpa using hk i hi
  rw [List.forall_mem_append] at hl hl'
  obtain ⟨hl₁, hl₂⟩ := hkeep l hl.1
  obtain ⟨hm₁, hm₂⟩ := hkeep m hl.2
  obtain ⟨hl₃, hl₄⟩ := hdrop l' hl'.1
  obtain ⟨hm₃, hm₄⟩ := hdrop m' hl'.2
  rw [mergeSort_eq_append Issue.le_trans Issue.le_total fun i => decide (i.line ≤ n)]
  · simp only [List.filter_append, hl₁, hl₂, hl₃, hl₄, hm₁, hm₂, hm₃, hm₄, List.append_nil,
      List.nil_append]
  · intro a _ b _ ha hb
    simp only [decide_eq_true_eq, decide_eq_false_iff_not] at ha hb
    simp [Issue.le]
    omega

/-! ## Findings -/

/-- The issues of two texts: those of the walk over both, then those of indentation. -/
theorem IsClosed.issues_append {a : Bytes} (h : IsClosed a) (b : Bytes) :
    Walk.issues {} (tokenize (a ++ b)) = Walk.issues {} (tokenize a) ++
      (Walk.issues {} (tokenize b)).map (Issue.lower (a.count Byte.newline)) := by
  have hspace : ∀ w t, t.kind = .space → tokenIssues w t = [] := by
    intro w t ht
    rw [tokenIssues, ht]
  have hissues := h.emit_append b hspace fun hfollows t _ => hfollows.tokenIssues_lower t
  rw [← Walk.issues_eq_emit, ← Walk.issues_eq_emit, ← Walk.issues_eq_emit] at hissues
  exact hissues

theorem Linter.findings_append (linter : Linter) {a : Bytes} (h : IsClosed a) (b : Bytes) :
    linter.findings (a ++ b) = linter.findings a ++
      (linter.findings b).map (Finding.lower (a.count Byte.newline)) := by
  have hmove : ∀ l : List Issue, (l.map (Issue.lower (a.count Byte.newline))).filter
      (fun i => linter.reports i.rule) =
      (l.filter fun i => linter.reports i.rule).map (Issue.lower (a.count Byte.newline)) := by
    intro l
    rw [List.filter_map]
    rfl
  have hfirst : ∀ i ∈ issues linter.width a, i.line ≤ a.count Byte.newline := by
    intro i hi
    obtain ⟨t, ht, hkind, hline, -⟩ := exists_token_of_mem_issues hi
    rw [hline]
    exact h.line_le ht hkind
  have hsecond : ∀ i ∈ issues linter.width b, 1 ≤ i.line := by
    intro i hi
    obtain ⟨t, ht, -, hline, -⟩ := exists_token_of_mem_issues hi
    rw [hline]
    exact one_le_line ht
  have hfinding : ∀ l : List Issue,
      (l.map (Issue.lower (a.count Byte.newline))).map linter.finding =
        (l.map linter.finding).map (Finding.lower (a.count Byte.newline)) := by
    intro l
    rw [List.map_map, List.map_map]
    refine List.map_congr_left fun i _ => ?_
    simp [Linter.finding, Issue.lower, Finding.lower]
  rw [Linter.findings, issues, h.issues_append, h.flatMap_indentIssues]
  simp only [List.filter_append, hmove]
  rw [mergeSort_of_line_le (n := a.count Byte.newline)]
  · rw [← List.map_append, mergeSort_map_lower, List.map_append, hfinding,
      Linter.findings, Linter.findings, issues, issues, List.filter_append, List.filter_append]
  · intro i hi
    rw [← List.filter_append] at hi
    exact hfirst i (List.mem_of_mem_filter hi)
  · intro i hi
    rw [← List.map_append, ← List.filter_append] at hi
    obtain ⟨k, hk, rfl⟩ := List.mem_map.1 hi
    have hone := hsecond k (List.mem_of_mem_filter hk)
    simp only [Issue.lower]
    omega

/-- **Linting is compositional over closed stylesheets.** -/
theorem Linter.lint_append (linter : Linter) {a : Bytes} (h : IsClosed a) (b : Bytes) :
    (linter.lint (a ++ b)).findings = (linter.lint a).findings ++
        (linter.lint b).findings.map (Finding.lower (a.count Byte.newline)) ∧
      (linter.lint (a ++ b)).errored = ((linter.lint a).errored || (linter.lint b).errored) := by
  have hfindings := linter.findings_append h b
  refine ⟨hfindings, ?_⟩
  have hlower : Finding.isError ∘ Finding.lower (a.count Byte.newline) = Finding.isError := rfl
  simp only [Linter.lint]
  rw [hfindings, List.any_append, List.any_map, hlower]

/-- A closed stylesheet with an invalid colour. -/
def closedSample : Bytes := Bytes.ofString "a \x7b\n  color: #12;\n\x7d\n"

/-- A stylesheet with an empty block. -/
def emptySample : Bytes := Bytes.ofString "b \x7b\x7d\n"

theorem closedSample_isClosed : IsClosed closedSample where
  newline := by decide +kernel
  brace := ⟨(tokenize closedSample).take 10, ⟨.closeBrace, [Byte.closeBrace], ⟨3, 1⟩⟩,
    [⟨.space, [Byte.newline], ⟨3, 2⟩⟩], by decide +kernel, rfl, by decide +kernel⟩
  blocks := by decide +kernel

/-- A single issue needs no sorting. -/
theorem findings_of_singleton {linter : Linter} {css : Bytes} {i : Issue}
    (h : (issues linter.width css).filter (fun i => linter.reports i.rule) = [i]) :
    linter.findings css = [linter.finding i] := by
  rw [Linter.findings, h, List.mergeSort_singleton, List.map_singleton]

/-- The fault of the second sample comes behind that of the first, three lines further down. -/
theorem lint_append_samples :
    IsClosed closedSample ∧
      (Linter.lint {} (closedSample ++ emptySample)).findings.map (fun f => (f.line, f.column)) =
        [(2, 10), (4, 3)] ∧
      (Linter.lint {} (closedSample ++ emptySample)).errored = true := by
  obtain ⟨hfindings, herrored⟩ := Linter.lint_append {} closedSample_isClosed emptySample
  have hfirst : Linter.findings {} closedSample = [_] :=
    findings_of_singleton (i := ⟨.invalidHex, 2, 10,
      Bytes.ofString "Unexpected invalid hex color \"#12\""⟩) (by decide +kernel)
  have hsecond : Linter.findings {} emptySample = [_] :=
    findings_of_singleton (i := ⟨.emptyBlock, 1, 3, Bytes.ofString "Unexpected empty block"⟩)
      (by decide +kernel)
  simp only [Linter.lint, hfirst, hsecond] at hfindings herrored ⊢
  refine ⟨closedSample_isClosed, ?_, ?_⟩
  · rw [hfindings]
    decide +kernel
  · rw [herrored]
    decide +kernel

end Stylesheet
end TemplateLint
