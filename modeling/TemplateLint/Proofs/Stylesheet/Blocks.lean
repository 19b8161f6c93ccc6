import Mathlib
import TemplateLint.Proofs.Stylesheet.Nesting
import TemplateLint.Proofs.Stylesheet.Tokens

/-!
# The block rules are exact

Braces are matched by a stack: a closing brace closes the innermost brace that is open, and without
one it closes nothing. The walk keeps no tokens, only a flag for every open block. The flag says
what the tokens behind the opening brace say, that one of them is neither white space nor a comment.
So an empty block is reported exactly where a matched pair of braces has nothing between its ends,
and an empty line exactly where the white space before a matched closing brace holds one.
-/
namespace TemplateLint.Stylesheet
open Bytes

/-! ## Braces -/

/-- The braces that some tokens leave open, by their indices and innermost first. -/
def openBraces (tokens : List Token) : List Nat :=
  tokens.zipIdx.foldl (fun stack (t, i) =>
    match t.kind with
    | .openBrace => i :: stack
    | .closeBrace => stack.tail
    | _ => stack) []

/-- The brace at `j` closes the one at `i`. -/
def Matches (tokens : List Token) (i j : Nat) : Prop :=
  tokens[j]?.map Token.kind = some .closeBrace ∧ (openBraces (tokens.take j)).head? = some i

instance (tokens : List Token) (i j : Nat) : Decidable (Matches tokens i j) :=
  inferInstanceAs (Decidable (_ ∧ _))

theorem openBraces_concat (seen : List Token) (t : Token) :
    openBraces (seen ++ [t]) =
      match t.kind with
      | .openBrace => seen.length :: openBraces seen
      | .closeBrace => (openBraces seen).tail
      | _ => openBraces seen := by
  simp [openBraces, List.zipIdx_append]

/-- What is open behind one more token was open before it, or is the brace it opens. -/
theorem mem_openBraces_concat {seen : List Token} {t : Token} {i : Nat}
    (h : i ∈ openBraces (seen ++ [t])) :
    i ∈ openBraces seen ∨ i = seen.length ∧ t.kind = .openBrace := by
  rw [openBraces_concat] at h
  split at h
  · next hkind =>
    rcases List.mem_cons.1 h with rfl | h
    · exact .inr ⟨rfl, hkind⟩
    · exact .inl h
  · exact .inl (List.mem_of_mem_tail h)
  · exact .inl h

/-- An open brace is an opening brace. -/
theorem kind_of_mem_openBraces {seen : List Token} {i : Nat} (h : i ∈ openBraces seen) :
    ∃ t, seen[i]? = some t ∧ t.kind = .openBrace := by
  induction seen using List.reverseRecOn with
  | nil => cases h
  | append_singleton seen t ih =>
    rcases mem_openBraces_concat h with h | ⟨rfl, hkind⟩
    · obtain ⟨u, hu, hkind⟩ := ih h
      refine ⟨u, ?_, hkind⟩
      rw [List.getElem?_append_left (List.getElem?_eq_some_iff.1 hu).1, hu]
    · exact ⟨t, List.getElem?_concat_length .., hkind⟩

theorem lt_of_mem_openBraces {seen : List Token} {i : Nat} (h : i ∈ openBraces seen) :
    i < seen.length := by
  obtain ⟨t, ht, -⟩ := kind_of_mem_openBraces h
  exact (List.getElem?_eq_some_iff.1 ht).1

/-- Inner braces are opened later. -/
theorem pairwise_openBraces (seen : List Token) : (openBraces seen).Pairwise (· > ·) := by
  induction seen using List.reverseRecOn with
  | nil => exact .nil
  | append_singleton seen t ih =>
    rw [openBraces_concat]
    split
    · exact List.pairwise_cons.2 ⟨fun i hi => lt_of_mem_openBraces hi, ih⟩
    · exact ih.tail
    · exact ih

/-- A brace that is open was open ever since it was read. -/
theorem mem_openBraces_of_append {seen more : List Token} {i : Nat}
    (h : i ∈ openBraces (seen ++ more)) (hi : i < seen.length) : i ∈ openBraces seen := by
  induction more using List.reverseRecOn with
  | nil => simpa using h
  | append_singleton more t ih =>
    rw [← List.append_assoc] at h
    rcases mem_openBraces_concat h with h | ⟨rfl, -⟩
    · exact ih h
    · simp at hi

namespace Matches
variable {tokens : List Token} {i j : Nat}

theorem mem (h : Matches tokens i j) : i ∈ openBraces (tokens.take j) :=
  List.mem_of_head? h.2

theorem lt (h : Matches tokens i j) : i < j := by
  have hlt := lt_of_mem_openBraces h.mem
  rw [List.length_take] at hlt
  omega

theorem lt_length (h : Matches tokens i j) : j < tokens.length := by
  obtain ⟨t, ht, -⟩ := Option.map_eq_some_iff.1 h.1
  exact (List.getElem?_eq_some_iff.1 ht).1

/-- Behind the brace that closes it a brace is not open. -/
theorem not_mem (h : Matches tokens i j) : i ∉ openBraces (tokens.take (j + 1)) := by
  obtain ⟨t, ht, hkind⟩ := Option.map_eq_some_iff.1 h.1
  obtain ⟨outer, houter⟩ := List.head?_eq_some_iff.1 h.2
  have hpairwise := pairwise_openBraces (tokens.take j)
  rw [List.take_add_one, ht, Option.toList_some, openBraces_concat, hkind]
  rw [houter, List.pairwise_cons] at hpairwise
  rw [houter, List.tail_cons]
  intro hmem
  exact absurd (hpairwise.1 i hmem) (Nat.lt_irrefl i)

/-- A brace is closed once. -/
theorem unique {k : Nat} (hj : Matches tokens i j) (hk : Matches tokens i k) : j = k := by
  have key : ∀ {j k : Nat}, Matches tokens i j → Matches tokens i k → ¬ j < k := by
    intro j k hj hk hlt
    have hmem := hk.mem
    have hsplit := List.take_append_drop (j + 1) (tokens.take k)
    rw [List.take_take, Nat.min_eq_left hlt] at hsplit
    rw [← hsplit] at hmem
    refine hj.not_mem (mem_openBraces_of_append hmem ?_)
    have := hj.lt
    have := hj.lt_length
    rw [List.length_take]
    omega
  have := key hj hk
  have := key hk hj
  omega

end Matches

/-- The tokens strictly between two indices. -/
def between (tokens : List Token) (i j : Nat) : List Token := (tokens.take j).drop (i + 1)

/-- The brace at `i` is closed, with nothing but white space and comments before that. -/
def IsEmptyBlock (tokens : List Token) (i : Nat) : Prop :=
  ∃ j < tokens.length, Matches tokens i j ∧ ∀ t ∈ between tokens i j, t.isBlank = true

instance (tokens : List Token) (i : Nat) : Decidable (IsEmptyBlock tokens i) :=
  inferInstanceAs (Decidable (∃ j < _, _))

/-- The brace at `j` closes a block that is not empty, right behind white space with an empty
line. -/
def EndsInEmptyLine (tokens : List Token) (j : Nat) : Prop :=
  ∃ i < j, Matches tokens i j ∧ (¬ ∀ t ∈ between tokens i j, t.isBlank = true) ∧
    ∃ t, t ∈ tokens[j - 1]? ∧ t.kind = .space ∧ 2 ≤ t.text.count Byte.newline

instance (tokens : List Token) (j : Nat) : Decidable (EndsInEmptyLine tokens j) :=
  inferInstanceAs (Decidable (∃ i < _, _))

/-! ## The walk -/

/-- The open block of the brace at an index, when some tokens have been read. -/
def blockAt (seen : List Token) (i : Nat) : OpenBlock where
  position := (seen[i]?.map Token.position).getD Position.start
  hasContent := (seen.drop (i + 1)).any fun t => !t.isBlank

/-- One more token behind an open brace. -/
theorem blockAt_concat {seen : List Token} {i : Nat} (hi : i < seen.length) (t : Token) :
    blockAt (seen ++ [t]) i =
      { blockAt seen i with hasContent := (blockAt seen i).hasContent || !t.isBlank } := by
  simp [blockAt, List.getElem?_append_left hi, List.drop_append_of_le_length (Nat.succ_le_of_lt hi)]

/-- A block with another one open in it has content: the brace of the inner one. -/
theorem hasContent_of_outer {seen : List Token} {i k : Nat} (hi : i ∈ openBraces seen)
    (hk : k < i) : (blockAt seen k).hasContent = true := by
  obtain ⟨t, ht, hkind⟩ := kind_of_mem_openBraces hi
  have hmem : t ∈ seen.drop (k + 1) := by
    refine List.mem_of_getElem? (i := i - (k + 1)) ?_
    rw [List.getElem?_drop, ← ht]
    congr 1
    omega
  rw [blockAt, List.any_eq_true]
  exact ⟨t, hmem, by simp [Token.isBlank, hkind]⟩

/-- A token that is no blank marks the innermost block, and all others have been marked. -/
theorem markContent_map_blockAt {seen : List Token} {t : Token} (ht : t.isBlank = false) :
    markContent ((openBraces seen).map (blockAt seen)) =
      (openBraces seen).map (blockAt (seen ++ [t])) := by
  have hpairwise := pairwise_openBraces seen
  cases hopen : openBraces seen with
  | nil => rfl
  | cons i outer =>
    have hi : i ∈ openBraces seen := by simp [hopen]
    rw [hopen, List.pairwise_cons] at hpairwise
    rw [List.map_cons, List.map_cons, markContent, blockAt_concat (lt_of_mem_openBraces hi), ht]
    refine congrArg₂ List.cons (by simp) (List.map_congr_left fun k hk => ?_)
    have hmem : k ∈ openBraces seen := by simp [hopen, hk]
    rw [blockAt_concat (lt_of_mem_openBraces hmem),
      hasContent_of_outer hi (hpairwise.1 k hk), Bool.true_or,
      ← hasContent_of_outer hi (hpairwise.1 k hk)]

namespace Walk

/-- Reading a token keeps the blocks in step with the braces. -/
theorem blocks_next {w : Walk} {seen : List Token}
    (h : w.blocks = (openBraces seen).map (blockAt seen)) (t : Token) (rest : List Token) :
    (w.next t rest).blocks = (openBraces (seen ++ [t])).map (blockAt (seen ++ [t])) := by
  have blank (ht : t.isBlank = true) :
      (openBraces seen).map (blockAt seen) = (openBraces seen).map (blockAt (seen ++ [t])) := by
    refine List.map_congr_left fun i hi => ?_
    rw [blockAt_concat (lt_of_mem_openBraces hi)]
    simp [ht]
  have mark (ht : t.isBlank = false) : markContent ((openBraces seen).map (blockAt seen)) =
      (openBraces seen).map (blockAt (seen ++ [t])) := markContent_map_blockAt ht
  have htail (blocks : List OpenBlock) : (markContent blocks).tail = blocks.tail := by
    cases blocks <;> rfl
  rw [next, blocksAfter, openBraces_concat, h]
  cases hkind : t.kind with
  | space => exact blank (by simp [Token.isBlank, hkind])
  | comment => exact blank (by simp [Token.isBlank, hkind])
  | openBrace =>
    have hnew : blockAt (seen ++ [t]) seen.length = ⟨t.position, false⟩ := by
      simp [blockAt]
    simp only [List.map_cons, hnew]
    rw [mark (by simp [Token.isBlank, hkind])]
  | closeBrace =>
    simp only [List.map_tail]
    rw [← htail, mark (by simp [Token.isBlank, hkind])]
  | colon => exact mark (by simp [Token.isBlank, hkind])
  | semicolon => exact mark (by simp [Token.isBlank, hkind])
  | hash => exact mark (by simp [Token.isBlank, hkind])
  | other => exact mark (by simp [Token.isBlank, hkind])

theorem through_concat (w : Walk) (seen : List Token) (t : Token) (rest : List Token) :
    w.through (seen ++ [t]) rest = (w.through seen (t :: rest)).next t rest := by
  induction seen generalizing w with
  | nil => rfl
  | cons u seen ih =>
    rw [List.cons_append, through, ih, through, List.append_assoc, List.singleton_append]

/-- **The blocks of a walk are the braces that are open.** -/
theorem blocks_through (seen rest : List Token) :
    (through {} seen rest).blocks = (openBraces seen).map (blockAt seen) := by
  induction seen using List.reverseRecOn generalizing rest with
  | nil => rfl
  | append_singleton seen t ih => rw [through_concat, blocks_next (ih _)]

theorem previous_through (seen rest : List Token) :
    (through {} seen rest).previous = seen.getLast? := by
  rcases List.eq_nil_or_concat seen with rfl | ⟨seen, t, rfl⟩
  · rfl
  · rw [List.concat_eq_append, through_concat, List.getLast?_concat]
    rfl

/-- A walk when it comes to the token at an index. -/
def atIndex (tokens : List Token) (j : Nat) : Walk := through {} (tokens.take j) (tokens.drop j)

/-- What a walk says, token by token. -/
theorem issues_eq_flatMap (tokens : List Token) :
    issues {} tokens = tokens.zipIdx.flatMap fun e => tokenIssues (atIndex tokens e.2) e.1 := by
  have key : ∀ seen rest : List Token, tokens = seen ++ rest →
      (through {} seen rest).issues rest = (rest.zipIdx seen.length).flatMap fun e =>
        tokenIssues (atIndex tokens e.2) e.1 := by
    intro seen rest htokens
    induction rest generalizing seen with
    | nil => rfl
    | cons t rest ih =>
      have hnext := ih (seen ++ [t]) (by simp [htokens])
      rw [through_concat, List.length_append, List.length_singleton] at hnext
      rw [issues, List.zipIdx_cons, List.flatMap_cons, hnext, atIndex]
      simp only [htokens, List.take_left, List.drop_left]
  exact key [] tokens rfl

end Walk

/-- A list in which only one entry has something to say. -/
theorem flatMap_eq_of_forall_ne {α β : Type} {f : α → List β} {l : List α} {j : Nat} {a : α}
    (ha : l[j]? = some a) (h : ∀ (k : Nat) (b : α), l[k]? = some b → k ≠ j → f b = []) :
    l.flatMap f = f a := by
  induction l generalizing j with
  | nil => simp at ha
  | cons b l ih =>
    rw [List.flatMap_cons]
    cases j with
    | zero =>
      have hrest : l.flatMap f = [] := by
        rw [List.flatMap_eq_nil_iff]
        intro c hc
        obtain ⟨k, hk⟩ := List.mem_iff_getElem?.1 hc
        exact h (k + 1) c hk (by omega)
      rw [List.getElem?_cons_zero, Option.some.injEq] at ha
      rw [hrest, ha, List.append_nil]
    | succ j =>
      rw [h 0 b rfl (by omega), List.nil_append]
      exact ih ha fun k c hc hk => h (k + 1) c hc (by omega)

/-- When only one token has something to say, the walk says that. -/
theorem Walk.filter_issues_of_ne {tokens : List Token} {q : Issue → Bool} {j : Nat} {t : Token}
    (ht : tokens[j]? = some t)
    (h : ∀ (k : Nat) (u : Token), tokens[k]? = some u → k ≠ j →
      (tokenIssues (atIndex tokens k) u).filter q = []) :
    (issues {} tokens).filter q = (tokenIssues (atIndex tokens j) t).filter q := by
  have hentry : tokens.zipIdx[j]? = some (t, j) := by simp [List.getElem?_zipIdx, ht]
  rw [issues_eq_flatMap, List.filter_flatMap, flatMap_eq_of_forall_ne hentry]
  intro k e he hk
  rw [List.getElem?_zipIdx, Option.map_eq_some_iff] at he
  obtain ⟨u, hu, rfl⟩ := he
  simpa using h k u hu hk

/-! ## Reports -/

/-- Whether an issue is one of a rule at a position. -/
def Issue.isAt (rule : Rule) (p : Position) (i : Issue) : Bool :=
  i.rule == rule && i.line == p.line && i.column == p.column

theorem Issue.isAt_iff {rule : Rule} {p : Position} {i : Issue} :
    i.isAt rule p = true ↔ i.rule = rule ∧ (⟨i.line, i.column⟩ : Position) = p := by
  cases p
  simp [Issue.isAt, and_assoc]

/-- The issue of a rule at a token. -/
def Token.issue (t : Token) (rule : Rule) (message : Bytes) : Issue :=
  ⟨rule, t.position.line, t.position.column, message⟩

/-- What a linter reports under a rule at a position. -/
def Linter.reported (linter : Linter) (css : Bytes) (rule : Rule) (p : Position) : List Finding :=
  (linter.lint css).findings.filter fun f =>
    f.rule == rule.name && f.line == p.line && f.column == p.column

/-- A linter reports what the walk says, unless the rule is switched off. -/
theorem Linter.reported_eq (linter : Linter) {css : Bytes} {rule : Rule}
    (hreports : linter.reports rule = true) (hrule : rule ≠ .indentation) {p : Position}
    {l : List Issue} (hl : l.length ≤ 1)
    (h : (Walk.issues {} (tokenize css)).filter (Issue.isAt rule p) = l) :
    linter.reported css rule p = l.map linter.finding := by
  have hsame : (fun f : Finding => f.rule == rule.name && f.line == p.line &&
      f.column == p.column) ∘ linter.finding = Issue.isAt rule p := by
    funext i
    have hname : i.rule.name = rule.name ↔ i.rule = rule :=
      ⟨Rule.name_injective, congrArg Rule.name⟩
    rw [Bool.eq_iff_iff]
    simp [Issue.isAt, Linter.finding, hname]
  have hboth : (fun i => Issue.isAt rule p i && linter.reports i.rule) = Issue.isAt rule p := by
    funext i
    by_cases hi : i.rule = rule
    · simp [hi, hreports]
    · simp [Issue.isAt, hi]
  have hindent : ((Walk.starts {} (tokenize css)).flatMap
      (indentIssues linter.width (lines css))).filter (Issue.isAt rule p) = [] := by
    rw [List.filter_eq_nil_iff]
    intro i hi
    obtain ⟨start, -, hi⟩ := List.mem_flatMap.1 hi
    simp [Issue.isAt, (of_mem_indentIssues hi).1, hrule.symm]
  have hkept : (issues linter.width css).filter (Issue.isAt rule p) = l := by
    rw [issues, List.filter_append, hindent, List.append_nil, h]
  -- sorting only permutes, and there is at most one issue to permute
  have hperm := (List.mergeSort_perm ((issues linter.width css).filter
    fun i => linter.reports i.rule) Issue.le).filter (Issue.isAt rule p)
  rw [List.filter_filter, hboth, hkept] at hperm
  rw [reported, lint, findings, List.filter_map, hsame]
  congr 1
  rcases l with _ | ⟨x, _ | ⟨y, l⟩⟩
  · exact List.perm_nil.1 hperm
  · exact List.perm_singleton.1 hperm
  · simp at hl

/-- Only an empty block is reported at another token than the one that says it. -/
theorem position_of_mem_tokenIssues {w : Walk} {t : Token} {i : Issue} (hi : i ∈ tokenIssues w t)
    (hrule : i.rule ≠ .emptyBlock) : (⟨i.line, i.column⟩ : Position) = t.position := by
  rw [tokenIssues] at hi
  split at hi
  · rw [closeIssues] at hi
    split at hi
    · cases hi
    split_ifs at hi
    · rw [List.mem_singleton] at hi
      exact absurd (congrArg Issue.rule hi) hrule
    · rw [List.mem_singleton] at hi
      rw [hi]
    · cases hi
  · rw [hashIssues] at hi
    split_ifs at hi
    · rw [List.mem_singleton] at hi
      rw [hi]
    · cases hi
  · cases hi

/-- What is said at a token, unless it is about an empty block, is said by this token. -/
theorem Walk.filter_issues_isAt {css : Bytes} {rule : Rule} (hrule : rule ≠ .emptyBlock) {j : Nat}
    {t : Token} (ht : (tokenize css)[j]? = some t) :
    (issues {} (tokenize css)).filter (Issue.isAt rule t.position) =
      (tokenIssues (atIndex (tokenize css) j) t).filter (Issue.isAt rule t.position) := by
  refine filter_issues_of_ne ht fun k u hu hk => ?_
  rw [List.filter_eq_nil_iff]
  intro i hi hat
  obtain ⟨rfl, hplace⟩ := Issue.isAt_iff.1 hat
  rw [position_of_mem_tokenIssues hi hrule] at hplace
  exact hk (eq_of_position_eq hu ht hplace)

/-! ## The rules -/

/-- What is said at a closing brace, told by the braces that are open before it. -/
theorem closeIssues_atIndex (tokens : List Token) (j : Nat) (t : Token) :
    closeIssues (Walk.atIndex tokens j) t =
      match (openBraces (tokens.take j)).head? with
      | none => []
      | some i =>
        if ∀ u ∈ between tokens i j, u.isBlank = true then
          [⟨.emptyBlock, (blockAt (tokens.take j) i).position.line,
            (blockAt (tokens.take j) i).position.column, Bytes.ofString "Unexpected empty block"⟩]
        else if (tokens.take j).getLast?.any isEmptyLine then
          [t.issue .emptyLineAtEnd (Bytes.ofString "Unexpected empty line before closing brace")]
        else [] := by
  rw [closeIssues, Walk.atIndex, Walk.blocks_through, Walk.previous_through]
  cases openBraces (tokens.take j) with
  | nil => rfl
  | cons i outer =>
    have hcontent : (!(blockAt (tokens.take j) i).hasContent) = true ↔
        ∀ u ∈ between tokens i j, u.isBlank = true := by
      simp [blockAt, between]
    simp only [List.map_cons, List.head?_cons, hcontent]
    rfl

section
variable {css : Bytes}

/-- The block of an open brace stands where the brace stands. -/
theorem position_blockAt {tokens : List Token} {i j : Nat} (hi : i < j) {t : Token}
    (ht : tokens[i]? = some t) : (blockAt (tokens.take j) i).position = t.position := by
  simp [blockAt, List.getElem?_take_of_lt hi, ht]

/-- A closing brace says that a block is empty only at the brace that it closes. -/
theorem filter_emptyBlock {i j : Nat} {t u : Token} (ht : (tokenize css)[i]? = some t)
    (hu : (tokenize css)[j]? = some u) :
    (tokenIssues (Walk.atIndex (tokenize css) j) u).filter (Issue.isAt .emptyBlock t.position) =
      if Matches (tokenize css) i j ∧ ∀ v ∈ between (tokenize css) i j, v.isBlank = true then
        [t.issue .emptyBlock (Bytes.ofString "Unexpected empty block")]
      else [] := by
  rw [tokenIssues]
  split
  · next hkind =>
    rw [closeIssues_atIndex]
    cases hopen : (openBraces ((tokenize css).take j)).head? with
    | none => simp [Matches, hopen]
    | some k =>
      have hmatch : Matches (tokenize css) k j := ⟨by simp [hu, hkind], hopen⟩
      obtain ⟨v, hv⟩ : ∃ v, (tokenize css)[k]? = some v :=
        ⟨_, List.getElem?_eq_getElem (hmatch.lt.trans hmatch.lt_length)⟩
      simp only [position_blockAt hmatch.lt hv]
      by_cases hk : k = i
      · subst hk
        cases hv.symm.trans ht
        by_cases hblank : ∀ v ∈ between (tokenize css) k j, v.isBlank = true
        · rw [if_pos hblank, if_pos ⟨hmatch, hblank⟩]
          simp [Token.issue, Issue.isAt]
        · have hnot : ¬ (Matches (tokenize css) k j ∧
              ∀ v ∈ between (tokenize css) k j, v.isBlank = true) := fun h => hblank h.2
          rw [if_neg hblank, if_neg hnot]
          split_ifs <;> simp [Token.issue, Issue.isAt]
      · -- the brace that is closed stands at another place
        have hplace : v.position ≠ t.position := fun h => hk (eq_of_position_eq hv ht h)
        have hnot : ¬ (Matches (tokenize css) i j ∧
            ∀ v ∈ between (tokenize css) i j, v.isBlank = true) :=
          fun h => hk (Option.some.inj (hopen.symm.trans h.1.2))
        rw [if_neg hnot]
        split_ifs <;> simp [Token.issue, Issue.isAt_iff, hplace]
  · rw [if_neg fun h => by simp_all [Matches], hashIssues]
    split_ifs <;> simp [Issue.isAt]
  · next hclose _ =>
    rw [if_neg fun h => hclose (by simpa [hu] using h.1.1), List.filter_nil]

/-- The walk says once that a block is empty, at the brace that opens it. -/
theorem filter_issues_emptyBlock {i : Nat} {t : Token} (ht : (tokenize css)[i]? = some t) :
    (Walk.issues {} (tokenize css)).filter (Issue.isAt .emptyBlock t.position) =
      if IsEmptyBlock (tokenize css) i then
        [t.issue .emptyBlock (Bytes.ofString "Unexpected empty block")]
      else [] := by
  by_cases h : IsEmptyBlock (tokenize css) i
  · obtain ⟨j, hj, hmatch, hblank⟩ := id h
    rw [if_pos h, Walk.filter_issues_of_ne (List.getElem?_eq_getElem hj),
      filter_emptyBlock ht (List.getElem?_eq_getElem hj), if_pos ⟨hmatch, hblank⟩]
    intro k u hu hk
    rw [filter_emptyBlock ht hu]
    exact if_neg fun hother => hk (hother.1.unique hmatch)
  · have silent : ∀ (k : Nat) (u : Token), (tokenize css)[k]? = some u →
        (tokenIssues (Walk.atIndex (tokenize css) k) u).filter
          (Issue.isAt .emptyBlock t.position) = [] := by
      intro k u hu
      rw [filter_emptyBlock ht hu]
      exact if_neg fun hempty => h ⟨k, hempty.1.lt_length, hempty⟩
    rw [if_neg h, Walk.filter_issues_of_ne ht fun k u hu _ => silent k u hu, silent i t ht]

/-- The block that a brace closes decides whether it ends in an empty line. -/
theorem Matches.endsInEmptyLine_iff {tokens : List Token} {i j : Nat} (h : Matches tokens i j) :
    EndsInEmptyLine tokens j ↔ (¬ ∀ t ∈ between tokens i j, t.isBlank = true) ∧
      (tokens.take j).getLast?.any isEmptyLine = true := by
  have hlt := h.lt
  have hlast : (tokens.take j).getLast? = tokens[j - 1]? := by
    have hin : j - 1 < tokens.length := by have := h.lt_length; omega
    rw [List.getLast?_take, if_neg (by omega), List.getElem?_eq_getElem hin, Option.some_or]
  rw [hlast]
  constructor
  · rintro ⟨k, -, hk, hblank, t, ht, hspace, hcount⟩
    obtain rfl : k = i := Option.some.inj (hk.2.symm.trans h.2)
    refine ⟨hblank, ?_⟩
    rw [Option.mem_def.1 ht]
    simp [isEmptyLine, hspace, hcount]
  · rintro ⟨hblank, hany⟩
    obtain ⟨t, ht, hempty⟩ := (Option.any_eq_true _ _).1 hany
    simp only [isEmptyLine, Bool.and_eq_true, beq_iff_eq, decide_eq_true_eq] at hempty
    exact ⟨i, hlt, h, hblank, t, ht, hempty⟩

/-- What a closing brace says about an empty line before it. -/
theorem filter_emptyLineAtEnd {tokens : List Token} {j : Nat} {t : Token}
    (ht : tokens[j]? = some t) :
    (tokenIssues (Walk.atIndex tokens j) t).filter (Issue.isAt .emptyLineAtEnd t.position) =
      if EndsInEmptyLine tokens j then
        [t.issue .emptyLineAtEnd (Bytes.ofString "Unexpected empty line before closing brace")]
      else [] := by
  have hclosing : EndsInEmptyLine tokens j → t.kind = .closeBrace := by
    rintro ⟨i, -, hi, -⟩
    simpa [ht] using hi.1
  rw [tokenIssues]
  split
  · next hkind =>
    rw [closeIssues_atIndex]
    cases hopen : (openBraces (tokens.take j)).head? with
    | none =>
      have hnot : ¬ EndsInEmptyLine tokens j := by
        rintro ⟨i, -, hi, -⟩
        cases hopen.symm.trans hi.2
      simp [hnot]
    | some i =>
      have hmatch : Matches tokens i j := ⟨by simp [ht, hkind], hopen⟩
      simp only [hmatch.endsInEmptyLine_iff]
      split_ifs <;> simp_all [Token.issue, Issue.isAt]
  · next hkind =>
    have hnot : ¬ EndsInEmptyLine tokens j := fun h => by
      cases hkind.symm.trans (hclosing h)
    rw [hashIssues]
    split_ifs <;> simp [Issue.isAt]
  · next hkind _ =>
    have hnot : ¬ EndsInEmptyLine tokens j := fun h => hkind (hclosing h)
    simp [hnot]

end

/-- A finding of a rule about tokens stands at one of their class. -/
theorem Linter.exists_token_of_mem_findings {linter : Linter} {css : Bytes} {f : Finding}
    (hf : f ∈ (linter.lint css).findings) {rule : Rule} (hrule : f.rule = rule.name)
    {kind : TokenClass} (hkind : rule.kind? = some kind) :
    ∃ t ∈ tokenize css, t.kind = kind ∧ f.line = t.position.line ∧
      f.column = t.position.column := by
  obtain ⟨i, hi, rfl⟩ := exists_issue_of_mem_findings hf
  obtain rfl : i.rule = rule := Rule.name_injective hrule
  obtain ⟨t, ht, -, -, hstands⟩ := exists_token_of_mem_issues hi
  have hat := hstands fun hindent => by
    rw [hindent] at hkind
    cases hkind
  refine ⟨t, ht, ?_, ?_, ?_⟩
  · rw [hat.kind, Option.some.injEq] at hkind
    exact hkind
  · simp [Linter.finding, hat.line]
  · simp [Linter.finding, hat.column]

/-- **The block rules are exact.** An empty block is reported once at every opening brace that is
closed with nothing but white space and comments in between, an empty line once at every brace that
closes another block right behind an empty line, and neither anywhere else. -/
theorem Linter.block_rules_exact (linter : Linter) (css : Bytes)
    (hblock : linter.reports .emptyBlock = true) (hline : linter.reports .emptyLineAtEnd = true) :
    (∀ (i : Nat) (t : Token), (tokenize css)[i]? = some t →
      linter.reported css .emptyBlock t.position =
        if IsEmptyBlock (tokenize css) i then
          [linter.finding (t.issue .emptyBlock (Bytes.ofString "Unexpected empty block"))]
        else []) ∧
      (∀ (j : Nat) (t : Token), (tokenize css)[j]? = some t →
        linter.reported css .emptyLineAtEnd t.position =
          if EndsInEmptyLine (tokenize css) j then
            [linter.finding (t.issue .emptyLineAtEnd
              (Bytes.ofString "Unexpected empty line before closing brace"))]
          else []) ∧
      ∀ f ∈ (linter.lint css).findings,
        (f.rule = Rule.emptyBlock.name → ∃ t ∈ tokenize css, t.kind = .openBrace ∧
          f.line = t.position.line ∧ f.column = t.position.column) ∧
        (f.rule = Rule.emptyLineAtEnd.name → ∃ t ∈ tokenize css, t.kind = .closeBrace ∧
          f.line = t.position.line ∧ f.column = t.position.column) := by
  refine ⟨?_, ?_, ?_⟩
  · intro i t ht
    rw [linter.reported_eq hblock (by decide) ?_ (filter_issues_emptyBlock ht)]
    · split_ifs <;> rfl
    · split_ifs <;> simp
  · intro j t ht
    have hother : Rule.emptyLineAtEnd ≠ .emptyBlock := by decide
    have hwalk := Walk.filter_issues_isAt hother ht
    rw [filter_emptyLineAtEnd ht] at hwalk
    rw [linter.reported_eq hline (by decide) ?_ hwalk]
    · split_ifs <;> rfl
    · split_ifs <;> simp
  · intro f hf
    exact ⟨fun hrule => linter.exists_token_of_mem_findings hf hrule rfl,
      fun hrule => linter.exists_token_of_mem_findings hf hrule rfl⟩

/-- A closing brace that closes nothing, an empty block, a block that ends in an empty line, and a
brace that is never closed. -/
def bracesSample : Bytes := Bytes.ofString "\x7d a \x7b /* */ \x7d b \x7b c\n\n\x7d \x7b"

/-- Only the braces of the two closed blocks of the sample are reported. -/
theorem bracesSample_rules_exact :
    ({} : Linter).reports .emptyBlock = true ∧ ({} : Linter).reports .emptyLineAtEnd = true ∧
      (({} : Linter).reported bracesSample .emptyBlock ⟨1, 5⟩).length = 1 ∧
      ({} : Linter).reported bracesSample .emptyBlock ⟨3, 3⟩ = [] ∧
      ({} : Linter).reported bracesSample .emptyLineAtEnd ⟨1, 1⟩ = [] ∧
      (({} : Linter).reported bracesSample .emptyLineAtEnd ⟨3, 1⟩).length = 1 := by
  obtain ⟨hblock, hline, -⟩ := Linter.block_rules_exact {} bracesSample rfl rfl
  refine ⟨rfl, rfl, ?_, ?_, ?_, ?_⟩
  · rw [hblock 4 ⟨.openBrace, [Byte.openBrace], ⟨1, 5⟩⟩ (by decide +kernel),
      if_pos (by decide +kernel), List.length_singleton]
  · rw [hblock 18 ⟨.openBrace, [Byte.openBrace], ⟨3, 3⟩⟩ (by decide +kernel),
      if_neg (by decide +kernel)]
  · rw [hline 0 ⟨.closeBrace, [Byte.closeBrace], ⟨1, 1⟩⟩ (by decide +kernel),
      if_neg (by decide +kernel)]
  · rw [hline 16 ⟨.closeBrace, [Byte.closeBrace], ⟨3, 1⟩⟩ (by decide +kernel),
      if_pos (by decide +kernel), List.length_singleton]

end TemplateLint.Stylesheet
