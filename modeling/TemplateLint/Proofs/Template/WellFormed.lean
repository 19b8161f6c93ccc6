import Mathlib
import TemplateLint.Proofs.Template.Fragment
import TemplateLint.Proofs.Template.Order

/-!
# The maps of a fragment are well formed

Every piece that is added to a line brings an anchor for its first column, and no piece is empty.
So the anchors of a line stand on its text from left to right, and a line has anchors exactly when
it has text. Moving a line shifts its anchors, and only a line that is emptied loses them. Together
with the order of the source lines this says what the maps of every extracted fragment look like.
-/
namespace TemplateLint
open Bytes Rune

/-! ## Trimming -/

/-- Trimming leaves nothing exactly when every byte may be dropped. -/
theorem Bytes.isEmpty_trim (drop : UInt8 → Bool) (s : Bytes) :
    (trim drop s).isEmpty = s.all drop := by
  rw [Bool.eq_iff_iff, List.isEmpty_iff, List.all_eq_true, trim, trimRight, trimLeft,
    List.reverse_eq_nil_iff, List.dropWhile_eq_nil_iff]
  constructor
  · intro h b hb
    rw [← List.takeWhile_append_dropWhile (p := drop) (l := s), List.mem_append] at hb
    rcases hb with hb | hb
    · exact List.mem_takeWhile_imp hb
    · exact h b (List.mem_reverse.2 hb)
  · intro h b hb
    exact h b ((List.dropWhile_sublist drop).mem (List.mem_reverse.1 hb))

/-- Trimming on the right takes away an end of droppable bytes. -/
theorem Bytes.exists_trimRight_append (drop : UInt8 → Bool) (s : Bytes) :
    ∃ tail, s = trimRight drop s ++ tail ∧ ∀ b ∈ tail, drop b = true := by
  refine ⟨(s.reverse.takeWhile drop).reverse, ?_, ?_⟩
  · rw [trimRight, ← List.reverse_append, List.takeWhile_append_dropWhile, List.reverse_reverse]
  · intro b hb
    exact List.mem_takeWhile_imp (List.mem_reverse.1 hb)

namespace BodyLine

/-! ## Pieces -/

/-- A line without empty pieces. -/
def IsFilled (line : BodyLine) : Prop := ∀ p ∈ line.pieces, p.text ≠ []

theorem IsFilled.push {line : BodyLine} (h : line.IsFilled) (piece : Part) :
    (line.push piece).IsFilled := by
  by_cases hp : piece.text = []
  · rw [push_of_nil line hp]
    exact h
  · rw [push_of_ne_nil line hp]
    exact List.forall_mem_append.2 ⟨h, by simpa using hp⟩

theorem isFilled_addLines {line : BodyLine} (h : line.IsFilled) (offset : Nat)
    (texts : List Bytes) :
    (∀ l ∈ (line.addLines offset texts).1, l.IsFilled) ∧
      (line.addLines offset texts).2.IsFilled := by
  fun_induction addLines line offset texts with
  | case1 line offset => exact ⟨by simp, h⟩
  | case2 line offset text => exact ⟨by simp, h.push _⟩
  | case3 line offset text rest _ behind complete last hrest ih =>
    have hnew : (⟨behind, []⟩ : BodyLine).IsFilled := by simp [IsFilled]
    rw [hrest] at ih
    exact ⟨List.forall_mem_cons.2 ⟨h.push _, (ih hnew).1⟩, (ih hnew).2⟩

theorem isFilled_of_mem_ofParts {line : BodyLine} (h : line.IsFilled) (parts : List Part) :
    ∀ l ∈ ofParts line parts, l.IsFilled := by
  induction parts generalizing line with
  | nil => simpa [ofParts] using h
  | cons p rest ih =>
    cases hi : p.interpolated with
    | true =>
      rw [ofParts_interpolation line hi]
      exact ih (h.push p)
    | false =>
      obtain ⟨hcomplete, hlast⟩ := isFilled_addLines h p.offset (lines p.text)
      rw [ofParts_literal line hi]
      exact List.forall_mem_append.2 ⟨hcomplete, ih hlast⟩

end BodyLine

namespace FragmentLine
variable {line : FragmentLine}

/-! ## Anchors -/

/-- The anchors of a line pin columns from left to right, and a line has anchors exactly when it
has text. -/
structure IsPinned (line : FragmentLine) : Prop where
  anchored : line.anchors = [] ↔ line.text = []
  increasing : line.anchors.Pairwise fun a b => a.fragment < b.fragment
  source : ∀ a ∈ line.anchors, 1 ≤ a.source

/-- A line that is being put together. Its anchors stand on its text. -/
structure IsGrowing (line : FragmentLine) : Prop extends line.IsPinned where
  valid : isUtf8 line.text
  covered : ∀ a ∈ line.anchors, a.fragment ≤ runeCount line.text

theorem runeCount_pos {s : Bytes} (h : s ≠ []) : 0 < runeCount s := by
  rw [runeCount, List.length_pos_iff]
  exact mt Glyph.eq_nil_of_decode h

/-- A text is added behind an anchor for its first column. -/
theorem IsGrowing.add (h : line.IsGrowing) {text : Bytes} (hne : text ≠ []) (hv : isUtf8 text)
    {column : Nat} (hcolumn : 1 ≤ column) (placeholder : Bool) :
    IsGrowing { line.pin column with text := line.text ++ text, placeholder } := by
  have hpos := runeCount_pos hne
  refine { anchored := ?_, increasing := ?_, source := ?_, valid := ?_, covered := ?_ }
  · simp [pin, hne]
  · refine List.pairwise_append.2 ⟨h.increasing, List.pairwise_singleton _ _, ?_⟩
    intro a ha b hb
    have hcovered := h.covered a ha
    rw [List.mem_singleton] at hb
    subst hb
    simp only
    omega
  · refine List.forall_mem_append.2 ⟨h.source, ?_⟩
    simpa using hcolumn
  · rw [isUtf8_append h.valid]
    exact hv
  · simp only [runeCount_append h.valid]
    refine List.forall_mem_append.2 ⟨?_, ?_⟩
    · intro a ha
      have hcovered := h.covered a ha
      omega
    · intro a ha
      rw [List.mem_singleton] at ha
      subst ha
      simp only
      omega

theorem isGrowing_start (origin : Nat) : IsGrowing { origin } where
  anchored := by simp
  increasing := .nil
  source := by simp
  valid := rfl
  covered := by simp

/-- A line stays pinned while pieces are added. -/
theorem IsGrowing.addPieces (h : line.IsGrowing) (source : Bytes) {pieces : List Part}
    (hne : ∀ p ∈ pieces, p.text ≠ []) (hv : ∀ p ∈ pieces, isUtf8 p.text) (n : Nat)
    (blank : Bool) : (addPieces source n line blank pieces).1.IsGrowing := by
  induction pieces generalizing line n blank with
  | nil => exact h
  | cons p rest ih =>
    rw [List.forall_mem_cons] at hne hv
    have hcolumn := Position.one_le_column_ofOffset source p.offset
    rw [FragmentLine.addPieces]
    by_cases hi : p.interpolated = true
    · have htext := Placeholder.isText_choose n line.text blank rest
      have hsome : (Placeholder.choose n line.text blank rest).1 ≠ [] := by
        obtain ⟨a, -, hhead, -⟩ := Placeholder.ends_of_isText htext
        intro hnil
        rw [hnil] at hhead
        cases hhead
      rw [if_pos hi]
      exact ih (h.add hsome (isUtf8_of_ascii (Placeholder.ascii_of_isText htext)) hcolumn _)
        hne.2 hv.2 _ _
    · rw [if_neg hi]
      exact ih (h.add hne.1 hv.1 hcolumn line.placeholder) hne.2 hv.2 _ _

theorem isGrowing_ofBody (source : Bytes) {lines : List BodyLine}
    (hfilled : ∀ l ∈ lines, l.IsFilled) (hv : ∀ l ∈ lines, ∀ p ∈ l.pieces, isUtf8 p.text)
    (n : Nat) : ∀ l ∈ (ofBody source n lines).1, l.IsGrowing := by
  induction lines generalizing n with
  | nil => simp [ofBody]
  | cons l rest ih =>
    rw [List.forall_mem_cons] at hfilled hv
    exact List.forall_mem_cons.2
      ⟨(isGrowing_start _).addPieces source hfilled.1 hv.1 n true, ih hfilled.2 hv.2 _⟩

/-! ## Moved lines -/

/-- Spaces and tabs make a blank line. -/
theorem isBlank_of_isIndent {s : Bytes} (h : ∀ b ∈ s, Byte.isIndent b = true) :
    isBlank s = true := by
  have hascii : ∀ b ∈ s, b < 0x80 := fun b hb => Glyph.ascii_of_isIndent (h b hb)
  rw [isBlank, decode_of_ascii hascii, List.all_map, List.all_eq_true]
  intro b hb
  exact Glyph.isBlankRune_of_isIndent (h b hb)

theorem isIndent_of_trimRight {s : Bytes} (h : trimRight Byte.isIndent s = []) :
    ∀ b ∈ s, Byte.isIndent b = true := by
  rw [trimRight, List.reverse_eq_nil_iff, List.dropWhile_eq_nil_iff] at h
  intro b hb
  exact h b (List.mem_reverse.2 hb)

/-- A line that shows something still does when it has lost its lead. -/
theorem trimRight_drop_ne_nil {common : Nat} (hblank : isBlank line.text = false)
    (hcommon : common ≤ line.lead) :
    trimRight Byte.isIndent (line.text.drop common) ≠ [] := by
  intro hnil
  have hall : ∀ b ∈ line.text, Byte.isIndent b = true := by
    intro b hb
    rw [← List.take_append_drop common line.text, List.mem_append] at hb
    rcases hb with hb | hb
    · have hlead : line.text.take common <+: line.text.takeWhile Byte.isIndent := by
        rw [List.prefix_iff_eq_take.1 (List.takeWhile_prefix Byte.isIndent)]
        exact List.take_prefix_take_left hcommon
      exact List.mem_takeWhile_imp (hlead.subset hb)
    · exact isIndent_of_trimRight hnil b hb
  rw [isBlank_of_isIndent hall] at hblank
  cases hblank

/-- A line stays pinned when it is moved. -/
theorem IsPinned.move (h : line.IsPinned) (indent : Bytes) {common : Nat}
    (hcommon : isBlank line.text = false → common ≤ line.lead) :
    (line.move indent common).IsPinned := by
  cases hblank : isBlank line.text with
  | true =>
    rw [move_of_isBlank hblank]
    exact ⟨by simp, .nil, by simp⟩
  | false =>
    have htext : line.text ≠ [] := by
      intro hnil
      rw [hnil] at hblank
      cases hblank
    rw [move_of_not_isBlank hblank]
    refine ⟨?_, ?_, ?_⟩
    · simp [h.anchored, htext, trimRight_drop_ne_nil hblank (hcommon hblank)]
    · refine List.pairwise_map.2 (h.increasing.imp ?_)
      intro a b hlt
      simpa [Anchor.shift] using hlt
    · intro a ha
      obtain ⟨b, hb, rfl⟩ := List.mem_map.1 ha
      exact h.source b hb

theorem isPinned_reindent {lines : List FragmentLine} (h : ∀ l ∈ lines, l.IsPinned)
    (indent : Bytes) : ∀ l ∈ reindent indent lines, l.IsPinned := by
  intro l hl
  obtain ⟨k, hk, rfl⟩ := List.mem_map.1 hl
  exact (h k hk).move indent (commonLead_le hk)

theorem isPinned_wrapper (source : Bytes) {text : Bytes} (h : text ≠ []) (offset : Nat) :
    (wrapper source text offset).IsPinned where
  anchored := by simp [wrapper, h]
  increasing := List.pairwise_singleton _ _
  source := by
    have hcolumn := Position.one_le_column_ofOffset source offset
    simpa [wrapper] using hcolumn

end FragmentLine

/-- The lines of a template are pinned. -/
theorem Template.LiesIn.isPinned_fragmentLines {source : Bytes} {t : Template}
    (h : t.LiesIn source) (hv : isUtf8 source) (counters : Counters) :
    ∀ l ∈ (t.fragmentLines source counters).1, l.IsPinned := by
  have hfilled : ∀ l ∈ t.bodyLines, l.IsFilled :=
    BodyLine.isFilled_of_mem_ofParts (by simp [BodyLine.IsFilled]) t.parts
  have hpieces : ∀ l ∈ t.bodyLines, ∀ p ∈ l.pieces, isUtf8 p.text := by
    intro l hl p hp
    obtain ⟨stop, hlaid⟩ := h.laidIn_bodyLines hv l hl
    exact (hlaid.sits p hp).valid
  have hbody : ∀ l ∈ FragmentLine.dropLast (FragmentLine.dropFirst
      (FragmentLine.ofBody source counters.placeholders t.bodyLines).1), l.IsPinned := by
    intro l hl
    have hmem := ((FragmentLine.dropLast_sublist _).trans
      (FragmentLine.dropFirst_sublist _)).subset hl
    exact (FragmentLine.isGrowing_ofBody source hfilled hpieces _ l hmem).toIsPinned
  rw [Template.fragmentLines]
  cases hheader : t.tag.header counters.selectors with
  | none => exact FragmentLine.isPinned_reindent hbody []
  | some header =>
    have hne : header ≠ [] := by
      obtain ⟨s, rfl, -⟩ := Tag.header_eq_append hheader
      simp
    refine List.forall_mem_append.2 ⟨List.forall_mem_cons.2 ⟨?_, ?_⟩, ?_⟩
    · exact FragmentLine.isPinned_wrapper source hne t.start
    · exact FragmentLine.isPinned_reindent hbody blockIndent
    · simpa using FragmentLine.isPinned_wrapper source (List.cons_ne_nil _ []) t.stop

namespace Fragment

theorem isPinned_linesOf {source : Bytes} (hv : isUtf8 source) {templates : List Template}
    (h : ∀ t ∈ templates, t.LiesIn source) (counters : Counters) :
    ∀ l ∈ linesOf source counters templates, l.IsPinned := by
  induction templates generalizing counters with
  | nil => simp [linesOf]
  | cons t rest ih =>
    rw [List.forall_mem_cons] at h
    exact List.forall_mem_append.2 ⟨h.1.isPinned_fragmentLines hv counters, ih h.2 _⟩

/-! ## The maps of a fragment -/

/-- A fragment whose maps fit its lines and the lines of its source. -/
structure WellFormed (source : Bytes) (f : Fragment) : Prop where
  ended : f.css = [] ∨ f.css.getLast? = some Byte.newline
  /-- Every line has a source line, and no other number does. -/
  origins_isSome : ∀ n : Int, (f.origins.get? n).isSome = true ↔
    1 ≤ n ∧ n ≤ f.css.count Byte.newline
  origins_bounds : ∀ n origin, f.origins.get? n = some origin →
    1 ≤ origin ∧ origin ≤ (lines source).length
  origins_monotone : ∀ m n a b, m ≤ n → f.origins.get? m = some a → f.origins.get? n = some b →
    a ≤ b
  placeholders_increasing : f.placeholderLines.Pairwise (· < ·)
  placeholders_bounds : ∀ n ∈ f.placeholderLines, 1 ≤ n ∧ n ≤ f.css.count Byte.newline
  /-- Exactly the lines that have text have anchors. -/
  anchors_isSome : ∀ n : Int, (f.anchors.get? n).isSome = true ↔
    1 ≤ n ∧ n ≤ f.css.count Byte.newline ∧
      ∃ text, (lines f.css)[(n - 1).toNat]? = some text ∧ text ≠ []
  anchors_increasing : ∀ n anchors, f.anchors.get? n = some anchors →
    anchors ≠ [] ∧ anchors.Pairwise (fun a b => a.fragment < b.fragment) ∧
      ∀ a ∈ anchors, 1 ≤ a.source

section
variable {source : Bytes} {ls : List FragmentLine}

theorem count_css (h : ∀ l ∈ ls, Byte.newline ∉ l.text) :
    (ofLines ls).css.count Byte.newline = ls.length := by
  have hlength := congrArg List.length (lines_css h)
  rw [length_lines, List.length_append, List.length_map, List.length_singleton] at hlength
  omega

/-- The lines of a fragment are numbered from one up to their number. -/
theorem exists_line_iff (hsingle : ∀ l ∈ ls, Byte.newline ∉ l.text) (n : Int) :
    (∃ (i : Nat) (l : FragmentLine), n = i + 1 ∧ ls[i]? = some l) ↔
      1 ≤ n ∧ n ≤ (ofLines ls).css.count Byte.newline := by
  rw [count_css hsingle]
  constructor
  · rintro ⟨i, l, rfl, hi⟩
    have hlt := (List.getElem?_eq_some_iff.1 hi).1
    omega
  · rintro ⟨hone, hle⟩
    have hlt : (n - 1).toNat < ls.length := by omega
    exact ⟨(n - 1).toNat, ls[(n - 1).toNat], by omega, List.getElem?_eq_getElem hlt⟩

theorem ended_css (ls : List FragmentLine) :
    (ofLines ls).css = [] ∨ (ofLines ls).css.getLast? = some Byte.newline := by
  rcases List.eq_nil_or_concat ls with rfl | ⟨rest, l, rfl⟩
  · exact .inl rfl
  · refine .inr ?_
    simp [ofLines]

theorem get?_origins_iff {n origin : Int} : (ofLines ls).origins.get? n = some origin ↔
    ∃ (i : Nat) (l : FragmentLine), n = i + 1 ∧ ls[i]? = some l ∧ (l.origin : Int) = origin := by
  rw [origins_ofLines, get?_lineMap_eq_some_iff]
  simp only [Option.some.injEq]

theorem get?_anchors_iff {n : Int} {anchors : List Anchor} :
    (ofLines ls).anchors.get? n = some anchors ↔
      ∃ (i : Nat) (l : FragmentLine), n = i + 1 ∧ ls[i]? = some l ∧ l.anchors ≠ [] ∧
        l.anchors = anchors := by
  rw [anchors_ofLines, get?_lineMap_eq_some_iff]
  refine exists_congr fun i => exists_congr fun l => and_congr_right fun _ =>
    and_congr_right fun _ => ?_
  by_cases hl : l.anchors = []
  · simp [hl]
  · simp [hl]

/-- A line with text is a line of the stylesheet with that text. -/
theorem getElem?_lines_css (hsingle : ∀ l ∈ ls, Byte.newline ∉ l.text) {i : Nat}
    {l : FragmentLine} (h : ls[i]? = some l) :
    (lines (ofLines ls).css)[i]? = some l.text := by
  have hlt := (List.getElem?_eq_some_iff.1 h).1
  rw [lines_css hsingle, List.getElem?_append_left (by simpa using hlt), List.getElem?_map, h,
    Option.map_some]

theorem origins_le (hascends : Ascends 1 (lines source).length (ls.map FragmentLine.origin))
    {i j : Nat} (hij : i ≤ j) {l k : FragmentLine} (hi : ls[i]? = some l)
    (hj : ls[j]? = some k) : l.origin ≤ k.origin := by
  obtain ⟨hil, rfl⟩ := List.getElem?_eq_some_iff.1 hi
  obtain ⟨hjl, rfl⟩ := List.getElem?_eq_some_iff.1 hj
  rcases Nat.eq_or_lt_of_le hij with rfl | hlt
  · exact Nat.le_refl _
  · exact List.pairwise_iff_getElem.1 (List.pairwise_map.1 hascends.pairwise) i j hil hjl hlt

/-- Lines whose anchors and source lines are in order make a fragment with well-formed maps. -/
theorem wellFormed_ofLines (hsingle : ∀ l ∈ ls, Byte.newline ∉ l.text)
    (hpinned : ∀ l ∈ ls, l.IsPinned)
    (hascends : Ascends 1 (lines source).length (ls.map FragmentLine.origin)) :
    (ofLines ls).WellFormed source where
  ended := ended_css ls
  origins_isSome := by
    intro n
    rw [Option.isSome_iff_exists, ← exists_line_iff hsingle]
    simp only [get?_origins_iff]
    constructor
    · rintro ⟨-, i, l, hn, hi, -⟩
      exact ⟨i, l, hn, hi⟩
    · rintro ⟨i, l, hn, hi⟩
      exact ⟨l.origin, i, l, hn, hi, rfl⟩
  origins_bounds := by
    intro n origin h
    obtain ⟨i, l, -, hi, rfl⟩ := get?_origins_iff.1 h
    have hbounds := hascends.bounds l.origin (List.mem_map_of_mem (List.mem_of_getElem? hi))
    omega
  origins_monotone := by
    intro m n a b hmn hm hn
    obtain ⟨i, l, rfl, hi, rfl⟩ := get?_origins_iff.1 hm
    obtain ⟨j, k, rfl, hj, rfl⟩ := get?_origins_iff.1 hn
    have hle := origins_le hascends (by omega) hi hj
    omega
  placeholders_increasing := by
    refine List.pairwise_filterMap.2 ((pairwise_numbered ls).imp ?_)
    rintro ⟨m, l⟩ ⟨n, k⟩ hlt x hx y hy
    simp only [Option.ite_none_right_eq_some, Option.some.injEq] at hx hy
    rw [← hx.2, ← hy.2]
    exact hlt
  placeholders_bounds := by
    intro n hn
    obtain ⟨⟨m, l⟩, hmem, hm⟩ := List.mem_filterMap.1 hn
    simp only [Option.ite_none_right_eq_some, Option.some.injEq] at hm
    obtain ⟨i, hi, hl⟩ := mem_numbered.1 hmem
    exact (exists_line_iff hsingle n).1 ⟨i, l, by rw [← hm.2, hi], hl⟩
  anchors_isSome := by
    intro n
    rw [Option.isSome_iff_exists, ← and_assoc, ← exists_line_iff hsingle]
    simp only [get?_anchors_iff]
    constructor
    · rintro ⟨-, i, l, rfl, hi, hne, -⟩
      have hpin := hpinned l (List.mem_of_getElem? hi)
      refine ⟨⟨i, l, rfl, hi⟩, l.text, ?_, mt hpin.anchored.2 hne⟩
      rw [← getElem?_lines_css hsingle hi]
      congr 1
      omega
    · rintro ⟨⟨i, l, rfl, hi⟩, text, htext, hne⟩
      have hpin := hpinned l (List.mem_of_getElem? hi)
      have hindex : ((i + 1 : Int) - 1).toNat = i := by omega
      rw [hindex, getElem?_lines_css hsingle hi, Option.some.injEq] at htext
      subst htext
      exact ⟨l.anchors, i, l, rfl, hi, mt hpin.anchored.1 hne, rfl⟩
  anchors_increasing := by
    intro n anchors h
    obtain ⟨i, l, -, hi, hne, rfl⟩ := get?_anchors_iff.1 h
    have hpin := hpinned l (List.mem_of_getElem? hi)
    exact ⟨hne, hpin.increasing, hpin.source⟩

end

/-- A fragment consists of the lines of templates that lie in the source one behind the other. -/
theorem exists_templates_extract {source id moduleName : Bytes} {f : Fragment}
    (h : extract source id moduleName = .ok f) :
    ∃ templates, f = ofLines (linesOf source {} templates) ∧
      (∀ t ∈ templates, t.LiesIn source) ∧
      templates.Pairwise fun a b => a.stop < b.start := by
  cases himports : ModuleImport.imports source moduleName with
  | false => exact ⟨[], eq_empty_of_extract h himports, by simp, .nil⟩
  | true =>
    rw [extract, if_neg (by simp [isUtf8_of_extract h]), if_neg (by simp [himports])] at h
    split at h
    · cases h
    · next templates htemplates =>
      cases h
      exact ⟨templates, rfl, fun t ht => Scan.liesIn_of_mem_templates htemplates ht,
        Scan.pairwise_templates htemplates⟩

/-- The lines of a fragment hold no newlines, are pinned, and come from source lines that never
fall. -/
theorem exists_lines_extract {source id moduleName : Bytes} {f : Fragment}
    (h : extract source id moduleName = .ok f) :
    ∃ ls, f = ofLines ls ∧ (∀ l ∈ ls, Byte.newline ∉ l.text) ∧ (∀ l ∈ ls, l.IsPinned) ∧
      Ascends 1 (lines source).length (ls.map FragmentLine.origin) := by
  have hv := isUtf8_of_extract h
  obtain ⟨templates, rfl, hlies, hordered⟩ := exists_templates_extract h
  obtain ⟨blocks, hplaced, -⟩ := exists_blocks_linesOf hv hlies {}
  refine ⟨_, rfl, single_of_placed hplaced, isPinned_linesOf hv hlies {}, ?_⟩
  refine ascends_linesOf hlies hordered {} ?_ ?_
  · intro t _
    rw [Position.line_ofOffset]
    omega
  · rw [length_lines]
    omega

/-- **The maps of an extracted fragment are well formed.** Its lines are ended, its source lines
never fall and are lines of the source, and exactly its lines with text have anchors, which pin
columns from left to right. -/
theorem wellFormed_of_extract {source id moduleName : Bytes} {f : Fragment}
    (h : extract source id moduleName = .ok f) : f.WellFormed source := by
  obtain ⟨ls, rfl, hsingle, hpinned, hascends⟩ := exists_lines_extract h
  exact wellFormed_ofLines hsingle hpinned hascends

/-- Two templates, the first with a placeholder line, an empty line and an interpolation over two
lines. -/
def pairSample : Bytes :=
  Bytes.ofString "import styled, \x7b createGlobalStyle \x7d from 'styled-components'\n" ++
    Bytes.ofString "const A = styled.div`\n  $\x7bmixin\x7d\n\n  color: $\x7bp =>\n    p.c\x7d;\n`\n" ++
    Bytes.ofString "const B = createGlobalStyle`a \x7b b: c \x7d`\n"

/-- No line of the fragment comes from the sixth line of the sample, which the interpolation goes on
to, and the empty line has no anchors. -/
theorem wellFormed_pairSample :
    ∃ f, extract pairSample [] defaultModule = .ok f ∧ f.placeholderLines = [2] ∧
      f.origins.map Prod.snd = [2, 3, 4, 5, 7, 8] ∧ f.anchors.keys = [1, 2, 4, 5, 6] ∧
      f.WellFormed pairSample := by
  have h : extract pairSample [] defaultModule = .ok {
      css := Bytes.ofString ".selector0 \x7b\n  -styled-mixin0: dummyValue;\n\n" ++
        Bytes.ofString "  color: $dummyValue1;\n\x7d\na \x7b b: c \x7d\n"
      placeholderLines := [2]
      origins := [(1, 2), (2, 3), (3, 4), (4, 5), (5, 7), (6, 8)]
      anchors := [(1, [⟨12, 21⟩]), (2, [⟨1, 1⟩, ⟨3, 3⟩]), (4, [⟨1, 1⟩, ⟨10, 10⟩, ⟨22, 9⟩]),
        (5, [⟨1, 1⟩]), (6, [⟨1, 29⟩])] } := by
    decide +kernel
  exact ⟨_, h, rfl, rfl, rfl, wellFormed_of_extract h⟩

end Fragment
end TemplateLint
