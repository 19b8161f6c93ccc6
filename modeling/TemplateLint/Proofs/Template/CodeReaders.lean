import Mathlib
import TemplateLint.Proofs.Template.Comment
import TemplateLint.Proofs.Template.Descent
import TemplateLint.Proofs.Template.Innermost

/-!
# Readers of code

The readers of strings, comments, regular expressions and words return, wherever they start, when
they are allowed more calls than there are bytes left. None of them faults, and each returns further
on, at most one byte behind the end of the source. A machine that is sent over the same bytes is
then back in code, with the same constructs open, and expects a regular expression where the reader
does.
-/
namespace TemplateLint.Scan
open ModuleImport (isIdentByte)

/-! ## The machine from a position on -/

/-- The machine in front of the byte at an offset. -/
def State.upTo (source : Bytes) (pos : Nat) (mode : Mode) (stack : List Frame)
    (found : List Template) : State :=
  ⟨(source.take pos).reverse, pos, mode, stack, found⟩

/-- What is open and what has been found at the end of the source, when the machine starts at an
offset. -/
def outcome (source : Bytes) (pos : Nat) (mode : Mode) (stack : List Frame)
    (found : List Template) : List Frame × List Template :=
  let final := (State.upTo source pos mode stack found).run (source.drop pos)
  (final.stack, final.found)

section Outcome
variable {source : Bytes} {pos : Nat} {b : UInt8}

/-- Behind the end nothing changes any more. -/
theorem outcome_end (h : source.length ≤ pos) (mode : Mode) (stack : List Frame)
    (found : List Template) : outcome source pos mode stack found = (stack, found) := by
  rw [outcome, List.drop_eq_nil_of_le h]
  rfl

theorem outcome_read (h : source[pos]? = some b) (mode : Mode) (stack : List Frame)
    (found : List Template) {s : State}
    (hs : (State.upTo source pos mode stack found).read b source[pos + 1]? = s) :
    outcome source pos mode stack found = outcome source (pos + 1) s.mode s.stack s.found := by
  obtain ⟨hlt, hget⟩ := List.getElem?_eq_some_iff.1 h
  have hstate : State.upTo source (pos + 1) s.mode s.stack s.found = s := by
    have hpassed : (source.take (pos + 1)).reverse = s.passed := by
      rw [← hs, State.passed_read, List.take_add_one, h]
      simp [State.upTo]
    have hoffset : pos + 1 = s.offset := by rw [← hs, State.offset_read]; rfl
    rw [State.upTo, hpassed, hoffset]
  rw [outcome, List.drop_eq_getElem_cons hlt, State.run, List.head?_drop, hget, hs, outcome, hstate]

/-- The machine only moves on. -/
theorem outcome_move (h : source[pos]? = some b) {mode mode' : Mode} {stack : List Frame}
    {found : List Template}
    (hread : (State.upTo source pos mode stack found).read b source[pos + 1]? =
      (State.upTo source pos mode stack found).move b mode') :
    outcome source pos mode stack found = outcome source (pos + 1) mode' stack found :=
  outcome_read h mode stack found hread

/-- The mode behind any byte, where the byte does not matter. -/
def Mode.onward? : Mode → Option Mode
  | stringEscape quote => some (.string quote)
  | commentOpen expected => some (.comment expected)
  | commentClose expected => some (.code expected)
  | regexEscape inClass => some (.regex inClass)
  | textEscape => some .text
  | interpolationOpen => some (.code true)
  | _ => none

theorem State.read_onward {s : State} {mode : Mode} (h : s.mode.onward? = some mode) (b : UInt8)
    (next : Option UInt8) : s.read b next = s.move b mode := by
  rw [State.read]
  generalize s.mode = current at h
  cases current <;> cases h <;> rfl

/-- Where the byte does not matter, the end of the source does not either. -/
theorem outcome_onward {mode mode' : Mode} (h : mode.onward? = some mode') (source : Bytes)
    (pos : Nat) (stack : List Frame) (found : List Template) :
    outcome source pos mode stack found = outcome source (pos + 1) mode' stack found := by
  rcases Nat.lt_or_ge pos source.length with hlt | hge
  · obtain ⟨b, hb⟩ := Descent.exists_getElem? hlt
    exact outcome_move hb (State.read_onward h b _)
  · rw [outcome_end hge, outcome_end (by omega)]

/-- A byte of code that opens and closes nothing. Braces count only inside an interpolation. -/
theorem outcome_code (h : source[pos]? = some b) (hbacktick : b ≠ Byte.backtick)
    {stack : List Frame} (hbrace : stack = [] ∨ b ≠ Byte.openBrace ∧ b ≠ Byte.closeBrace)
    (regex : Bool) (found : List Template) :
    outcome source pos (.code regex) stack found = outcome source (pos + 1)
      (codeMode regex (source.take pos).getLast? b source[pos + 1]?) stack found := by
  refine outcome_move h ?_
  have hhead : (State.upTo source pos (.code regex) stack found).passed.head? =
      (source.take pos).getLast? := List.head?_reverse
  change State.readCode _ regex b _ = _
  rw [State.readCode, if_neg hbacktick, hhead]
  rcases hbrace with rfl | ⟨hopen, hclose⟩
  · split_ifs with hopen hclose
    · rw [hopen]
      rfl
    · rw [hclose]
      rfl
    · rfl
  · rw [if_neg hopen, if_neg hclose]

theorem outcome_newline (h : source[pos]? = some Byte.newline) (regex : Bool)
    (stack : List Frame) (found : List Template) :
    outcome source pos (.code regex) stack found =
      outcome source (pos + 1) (.code regex) stack found :=
  outcome_move h (State.read_newline rfl _)

end Outcome

namespace Descent

/-! ## Small readers -/

/-- The way from an offset to a cursor. It leads forward, as far as the source goes, and not further
than one byte behind its end, and a machine that starts it in some mode ends it in code. -/
structure Lands (source : Bytes) (pos : Nat) (mode : Mode) (c : Cursor) : Prop where
  forward : min pos source.length ≤ c.pos
  bounded : c.pos ≤ source.length + 1
  agrees : ∀ stack found,
    outcome source pos mode stack found = outcome source c.pos (.code c.regex) stack found

variable {source : Bytes} {calls pos pos' : Nat} {mode mode' : Mode} {c : Cursor} {b : UInt8}

theorem Lands.of_outcome (h : Lands source pos' mode' c) (hpos : pos ≤ pos')
    (hmachine : ∀ stack found,
      outcome source pos mode stack found = outcome source pos' mode' stack found) :
    Lands source pos mode c where
  forward := by have := h.forward; omega
  bounded := h.bounded
  agrees := fun stack found => (hmachine stack found).trans (h.agrees stack found)

/-- Behind the end of the source the machine agrees with everything. -/
theorem Lands.of_end (hpos : source.length ≤ pos) (mode : Mode) (hforward : source.length ≤ c.pos)
    (hbounded : c.pos ≤ source.length + 1) : Lands source pos mode c where
  forward := by omega
  bounded := hbounded
  agrees := fun stack found => by rw [outcome_end hpos, outcome_end hforward]

theorem Lands.of_le {stop : Nat} {regex : Bool} (hforward : pos ≤ stop)
    (hbounded : stop ≤ source.length + 1)
    (hmachine : ∀ stack found,
      outcome source pos mode stack found = outcome source stop (.code regex) stack found) :
    Lands source pos mode ⟨stop, regex⟩ :=
  ⟨(Nat.min_le_left _ _).trans hforward, hbounded, hmachine⟩

/-- Code goes on behind one byte. -/
theorem Lands.here (hpos : pos < source.length) (regex : Bool) :
    Lands source (pos + 1) (.code regex) ⟨pos + 1, regex⟩ :=
  .of_le (Nat.le_refl _) (by omega) fun _ _ => rfl

theorem exists_stringEnd (source : Bytes) (calls : Nat) (quote : UInt8) (regex : Bool) (pos : Nat)
    (hpos : pos ≤ source.length + 1) (hcalls : source.length + 1 < pos + calls) :
    ∃ c, stringEnd source calls quote regex pos = pure c ∧ Lands source pos (.string quote) c := by
  induction calls generalizing pos with
  | zero => omega
  | succ calls ih =>
    rw [stringEnd]
    split_ifs with hlt
    · obtain ⟨b, hb⟩ := exists_getElem? hlt
      simp only [elementAt_eq hb, pure_bind]
      have hmove (stack found) : outcome source pos (.string quote) stack found =
          outcome source (pos + 1) (stringMode quote b) stack found := outcome_move hb rfl
      unfold stringMode at hmove
      split_ifs at hmove ⊢ with hescape hends
      · obtain ⟨c, hc, hlands⟩ := ih (pos + 2) (by omega) (by omega)
        refine ⟨c, hc, hlands.of_outcome (by omega) fun stack found => ?_⟩
        rw [hmove]
        exact outcome_onward rfl _ _ _ _
      · exact ⟨_, rfl, .of_le (Nat.le_succ pos) (by omega) hmove⟩
      · obtain ⟨c, hc, hlands⟩ := ih (pos + 1) (by omega) (by omega)
        exact ⟨c, hc, hlands.of_outcome (by omega) hmove⟩
    · exact ⟨_, rfl, .of_end (by omega) _ (by simpa using hlt) hpos⟩

theorem exists_skipString (quote : UInt8) {c : Cursor} (hc : c.pos < source.length)
    (hcalls : source.length + 1 < c.pos + calls) :
    ∃ c', skipString source calls quote c = pure c' ∧ c.pos < c'.pos ∧
      Lands source (c.pos + 1) (.string quote) c' := by
  obtain ⟨c', hc', hlands⟩ := exists_stringEnd source calls quote c.regex (c.pos + 1)
    (by omega) (by omega)
  have := hlands.forward
  exact ⟨c', hc', by omega, hlands⟩

/-- The bytes from one offset up to another belong to one identifier, and the next one does not. -/
structure IsIdentifierTo (source : Bytes) (pos stop : Nat) : Prop where
  le : pos ≤ stop
  inside : ∀ i, pos ≤ i → i < stop → source[i]?.any isIdentByte = true
  behind : source[stop]?.any isIdentByte = false

theorem IsIdentifierTo.stop_le {stop : Nat} (h : IsIdentifierTo source pos stop)
    (hpos : pos ≤ source.length) : stop ≤ source.length := by
  by_contra hlt
  have hinside := h.inside source.length hpos (by omega)
  simp at hinside

theorem IsIdentifierTo.lt_iff {stop : Nat} (h : IsIdentifierTo source pos stop) :
    pos < stop ↔ source[pos]?.any isIdentByte = true := by
  constructor
  · exact h.inside pos (Nat.le_refl _)
  · intro hpos
    refine Nat.lt_of_le_of_ne h.le fun heq => ?_
    rw [heq, h.behind] at hpos
    cases hpos

theorem exists_identifierEnd (source : Bytes) (calls pos : Nat) (hpos : pos ≤ source.length)
    (hcalls : source.length + 1 < pos + calls) :
    ∃ stop, identifierEnd source calls pos = pure stop ∧ IsIdentifierTo source pos stop := by
  induction calls generalizing pos with
  | zero => omega
  | succ calls ih =>
    rw [identifierEnd]
    split_ifs with hlt
    · obtain ⟨b, hb⟩ := exists_getElem? hlt
      simp only [elementAt_eq hb, pure_bind]
      split_ifs with hident
      · obtain ⟨stop, hstop, hrest⟩ := ih (pos + 1) (by omega) (by omega)
        refine ⟨stop, hstop, by have := hrest.le; omega, fun i hi hlt => ?_, hrest.behind⟩
        rcases Nat.eq_or_lt_of_le hi with rfl | hi
        · rw [hb]
          exact hident
        · exact hrest.inside i hi hlt
      · exact ⟨pos, rfl, Nat.le_refl _, by omega, by simpa [hb] using hident⟩
    · exact ⟨pos, rfl, Nat.le_refl _, by omega, by simp [Nat.le_of_not_lt hlt]⟩

/-- A machine that stays in its kind of mode for the bytes of an identifier leaves it behind the
last one. -/
theorem outcome_identifier (inside behind : Bytes → Mode)
    (hread : ∀ (s : State) (b : UInt8) (next : Option UInt8) (reversed : Bytes),
      s.mode = inside reversed → s.read b next = s.move b
        (if next.any isIdentByte then inside (b :: reversed) else behind (b :: reversed)))
    {stop : Nat} (h : IsIdentifierTo source pos stop) (hlt : pos < stop) (reversed : Bytes)
    (stack : List Frame) (found : List Template) :
    outcome source pos (inside reversed) stack found = outcome source stop
      (behind (((source.take stop).drop pos).reverse ++ reversed)) stack found := by
  obtain ⟨n, rfl⟩ := Nat.exists_eq_add_of_lt hlt
  induction n generalizing pos reversed with
  | zero =>
    obtain ⟨b, hb, -⟩ := (Option.any_eq_true ..).1 (h.inside pos (Nat.le_refl _) hlt)
    have hword : (source.take (pos + 1)).drop pos = [b] := by
      rw [List.take_add_one, hb, List.drop_append]
      simp [Nat.le_of_lt (lt_of_getElem? hb)]
    rw [outcome_move hb (hread _ b _ reversed rfl)]
    simp [h.behind, hword]
  | succ n ih =>
    obtain ⟨b, hb, -⟩ := (Option.any_eq_true ..).1 (h.inside pos (Nat.le_refl _) hlt)
    have hnext := h.inside (pos + 1) (by omega) (by omega)
    rw [outcome_move hb (hread _ b _ reversed rfl), hnext, if_pos rfl]
    have hstop : pos + (n + 1) + 1 = pos + 1 + n + 1 := by omega
    rw [hstop] at h ⊢
    have hword : (source.take (pos + 1 + n + 1)).drop pos =
        b :: (source.take (pos + 1 + n + 1)).drop (pos + 1) := by
      rw [← List.getElem?_take_of_lt (by omega : pos < pos + 1 + n + 1)] at hb
      obtain ⟨hpos, hget⟩ := List.getElem?_eq_some_iff.1 hb
      rw [List.drop_eq_getElem_cons hpos, hget]
    rw [ih (b :: reversed) ⟨by omega, fun i hi => h.inside i (by omega), h.behind⟩ (by omega),
      hword]
    simp

theorem exists_lineEnd (source : Bytes) (calls pos : Nat) (hpos : pos ≤ source.length + 1)
    (hcalls : source.length + 1 < pos + calls) :
    ∃ stop, lineEnd source calls pos = pure stop ∧
      ∀ regex, Lands source pos (.lineComment regex) ⟨stop, regex⟩ := by
  induction calls generalizing pos with
  | zero => omega
  | succ calls ih =>
    rw [lineEnd]
    split_ifs with hlt
    · obtain ⟨b, hb⟩ := exists_getElem? hlt
      simp only [elementAt_eq hb, pure_bind]
      have hmove (regex stack found) : outcome source pos (.lineComment regex) stack found =
          outcome source (pos + 1)
            (if b = Byte.newline then .code regex else .lineComment regex) stack found :=
        outcome_move hb rfl
      split_ifs at hmove ⊢ with hnewline
      · -- the newline is left to the code behind the comment, where it changes nothing
        refine ⟨pos, rfl, fun regex => .of_le (Nat.le_refl _) hpos fun stack found => ?_⟩
        exact (hmove regex stack found).trans
          (outcome_newline (hnewline ▸ hb) regex stack found).symm
      · obtain ⟨stop, hstop, hlands⟩ := ih (pos + 1) (by omega) (by omega)
        exact ⟨stop, hstop, fun regex => (hlands regex).of_outcome (by omega) (hmove regex)⟩
    · exact ⟨pos, rfl, fun regex => .of_end (by omega) _ (by simpa using hlt) hpos⟩

theorem exists_commentEnd (source : Bytes) (calls pos : Nat) (hpos : pos ≤ source.length + 1)
    (hcalls : source.length + 1 < pos + calls) :
    ∃ stop, commentEnd source calls pos = pure stop ∧
      ∀ regex, Lands source pos (.comment regex) ⟨stop, regex⟩ := by
  induction calls generalizing pos with
  | zero => omega
  | succ calls ih =>
    rw [commentEnd]
    split_ifs with hlt
    · obtain ⟨b, hb⟩ := exists_getElem? hlt
      simp only [elementAt_eq hb, holdsAt_eq, pure_bind]
      have hmove (regex stack found) : outcome source pos (.comment regex) stack found =
          outcome source (pos + 1)
            (if b = Byte.star && source[pos + 1]? = some Byte.slash then .commentClose regex
              else .comment regex) stack found :=
        outcome_move hb rfl
      split_ifs at hmove ⊢ with hcloses
      · simp only [Bool.and_eq_true, decide_eq_true_eq] at hcloses
        have hnext := lt_of_getElem? hcloses.2
        refine ⟨pos + 2, rfl, fun regex => .of_le (by omega) (by omega) fun stack found => ?_⟩
        rw [hmove]
        exact outcome_onward rfl _ _ _ _
      · obtain ⟨stop, hstop, hlands⟩ := ih (pos + 1) (by omega) (by omega)
        exact ⟨stop, hstop, fun regex => (hlands regex).of_outcome (by omega) (hmove regex)⟩
    · exact ⟨pos, rfl, fun regex => .of_end (by omega) _ (by simpa using hlt) hpos⟩

/-- The flags of a regular expression, of which there may be none. -/
theorem exists_flagsEnd (source : Bytes) (calls pos : Nat) (hpos : pos ≤ source.length)
    (hcalls : source.length + 1 < pos + calls) :
    ∃ stop, identifierEnd source calls pos = pure stop ∧
      Lands source pos (if source[pos]?.any isIdentByte then .regexFlags else .code false)
        ⟨stop, false⟩ := by
  obtain ⟨stop, hstop, hword⟩ := exists_identifierEnd source calls pos hpos hcalls
  have hle := hword.stop_le hpos
  refine ⟨stop, hstop, .of_le hword.le (by omega) fun stack found => ?_⟩
  split_ifs with hflags
  · exact outcome_identifier (fun _ => .regexFlags) (fun _ => .code false)
      (fun s b next _ hs => by rw [State.read, hs]) hword (hword.lt_iff.2 hflags) [] stack found
  · have hnone := hword.lt_iff.not.2 hflags
    have := hword.le
    rw [show stop = pos by omega]

theorem exists_regexEnd (source : Bytes) (calls : Nat) (inClass : Bool) (pos : Nat)
    (hpos : pos ≤ source.length + 1) (hcalls : source.length + 1 < pos + calls) :
    ∃ stop, regexEnd source calls inClass pos = pure stop ∧
      Lands source pos (.regex inClass) ⟨stop, false⟩ := by
  induction calls generalizing inClass pos with
  | zero => omega
  | succ calls ih =>
    rw [regexEnd]
    split_ifs with hlt
    · obtain ⟨b, hb⟩ := exists_getElem? hlt
      simp only [elementAt_eq hb, pure_bind]
      have hmove (stack found) : outcome source pos (.regex inClass) stack found =
          outcome source (pos + 1) (regexMode inClass b source[pos + 1]?) stack found :=
        outcome_move hb rfl
      have hrest (inClass' : Bool)
          (hmode : regexMode inClass b source[pos + 1]? = .regex inClass') :
          ∃ stop, regexEnd source calls inClass' (pos + 1) = pure stop ∧
            Lands source pos (.regex inClass) ⟨stop, false⟩ := by
        obtain ⟨stop, hstop, hlands⟩ := ih inClass' (pos + 1) (by omega) (by omega)
        rw [hmode] at hmove
        exact ⟨stop, hstop, hlands.of_outcome (by omega) hmove⟩
      split_ifs with hescape hnewline hslash hopen hclose
      · rw [regexMode, if_pos hescape] at hmove
        obtain ⟨stop, hstop, hlands⟩ := ih inClass (pos + 2) (by omega) (by omega)
        refine ⟨stop, hstop, hlands.of_outcome (by omega) fun stack found => ?_⟩
        rw [hmove]
        exact outcome_onward rfl _ _ _ _
      · -- as behind a comment, code passes the newline without a change
        rw [regexMode, if_neg hescape, if_pos hnewline] at hmove
        refine ⟨pos, rfl, .of_le (Nat.le_refl _) hpos fun stack found => ?_⟩
        exact (hmove stack found).trans (outcome_newline (hnewline ▸ hb) false stack found).symm
      · rw [regexMode, if_neg hescape, if_neg hnewline, if_pos hslash] at hmove
        obtain ⟨stop, hstop, hlands⟩ := exists_flagsEnd source calls (pos + 1) hlt (by omega)
        exact ⟨stop, hstop, hlands.of_outcome (by omega) hmove⟩
      · exact hrest true (by
          rw [regexMode, if_neg hescape, if_neg hnewline, if_neg hslash, if_pos hopen])
      · exact hrest false (by
          rw [regexMode, if_neg hescape, if_neg hnewline, if_neg hslash, if_neg hopen,
            if_pos hclose])
      · exact hrest inClass (by
          rw [regexMode, if_neg hescape, if_neg hnewline, if_neg hslash, if_neg hopen,
            if_neg hclose])
    · exact ⟨_, rfl, .of_end (by omega) _ (by simp only; omega) (by simp only; omega)⟩

theorem exists_advance {c : Cursor} (hb : source[c.pos]? = some b)
    (hcalls : source.length + 1 < c.pos + calls) :
    ∃ c', advance source calls c = pure c' ∧ c.pos < c'.pos ∧ c'.pos ≤ source.length ∧
      (b ≠ Byte.singleQuote → b ≠ Byte.doubleQuote → b ≠ Byte.slash →
        Lands source (c.pos + 1)
          (codeMode c.regex (source.take c.pos).getLast? b source[c.pos + 1]?) c') := by
  have hlt := lt_of_getElem? hb
  have hone {expected : Bool}
      (hmode : b ≠ Byte.singleQuote → b ≠ Byte.doubleQuote → b ≠ Byte.slash →
        codeMode c.regex (source.take c.pos).getLast? b source[c.pos + 1]? = .code expected) :
      ∃ c', (pure ⟨c.pos + 1, expected⟩ : Attempt Cursor) = pure c' ∧ c.pos < c'.pos ∧
        c'.pos ≤ source.length ∧
        (b ≠ Byte.singleQuote → b ≠ Byte.doubleQuote → b ≠ Byte.slash →
          Lands source (c.pos + 1)
            (codeMode c.regex (source.take c.pos).getLast? b source[c.pos + 1]?) c') :=
    ⟨_, rfl, Nat.lt_succ_self _, hlt, fun hsingle hdouble hslash =>
      hmode hsingle hdouble hslash ▸ .here hlt expected⟩
  rw [advance, elementAt_eq hb, pure_bind]
  split_ifs with hident hspace hcloses
  · obtain ⟨stop, hstop, hword⟩ := exists_identifierEnd source calls c.pos hlt.le hcalls
    have hforward := hword.lt_iff.2 (by rw [hb]; exact hident)
    have hle := hword.stop_le (by omega)
    rw [hstop, pure_bind, slice_eq (by omega) hle, pure_bind]
    refine ⟨_, rfl, hforward, hle, fun hsingle hdouble hslash =>
      .of_le hforward (by omega) fun stack found => ?_⟩
    -- the machine is inside a word behind the first letter, as if it had started there
    have hmode : codeMode c.regex (source.take c.pos).getLast? b source[c.pos + 1]? =
        wordMode [b] source[c.pos + 1]? := by
      simp [codeMode, hsingle, hdouble, hslash, hident]
    have hfirst : outcome source c.pos (.word []) stack found =
        outcome source (c.pos + 1) (wordMode [b] source[c.pos + 1]?) stack found :=
      outcome_move hb rfl
    have hrun := outcome_identifier .word (fun reversed => .code (regexWords.contains
      reversed.reverse)) (fun s b next _ hs => by rw [State.read, hs]; rfl) hword hforward [] stack
      found
    rw [hmode, ← hfirst, hrun, List.append_nil, List.reverse_reverse]
  · exact hone fun hsingle hdouble hslash => by
      simp [codeMode, hsingle, hdouble, hslash, hident, hspace]
  · exact hone fun hsingle hdouble hslash => by
      simp [codeMode, hsingle, hdouble, hslash, hident, hspace, hcloses]
  · exact hone fun hsingle hdouble hslash => by
      simp [codeMode, hsingle, hdouble, hslash, hident, hspace, hcloses]

/-- The mode behind the first byte of a comment, which the second byte tells. -/
def commentMode (regex : Bool) (next : Option UInt8) : Mode :=
  if next = some Byte.slash then .lineComment regex
  else if next = some Byte.star then .commentOpen regex
  else .code regex

theorem skipComment_eq {c : Cursor} (hc : c.pos ≤ source.length) :
    skipComment source calls c =
      if source[c.pos + 1]? = some Byte.slash then do
        let stop ← lineEnd source calls c.pos
        return { c with pos := stop }
      else if source[c.pos + 1]? = some Byte.star then do
        let stop ← commentEnd source calls (c.pos + 2)
        return { c with pos := stop }
      else pure { c with pos := c.pos + 1 } := by
  have hrest : ((source.take source.length).drop c.pos)[1]? = source[c.pos + 1]? := by
    rw [List.take_length, List.getElem?_drop]
  simp only [skipComment, slice_eq hc (Nat.le_refl _), holdsAt_eq, pure_bind, hrest,
    decide_eq_true_eq]

/-- A comment is left behind, unless a newline stands in the place of its first slash. -/
theorem exists_skipComment {c : Cursor} (hb : source[c.pos]? = some b)
    (hnewline : b = Byte.newline → source[c.pos + 1]? ≠ some Byte.slash)
    (hcalls : source.length + 1 < c.pos + calls) :
    ∃ c', skipComment source calls c = pure c' ∧
      Lands source (c.pos + 1) (commentMode c.regex source[c.pos + 1]?) c' := by
  have hlt := lt_of_getElem? hb
  obtain ⟨fewer, rfl⟩ := Nat.exists_eq_succ_of_ne_zero (by omega : calls ≠ 0)
  rw [skipComment_eq (by omega), commentMode]
  split_ifs with hline hblock
  · have hfirst : lineEnd source (fewer + 1) c.pos = lineEnd source fewer (c.pos + 1) := by
      rw [lineEnd, if_pos hlt, elementAt_eq hb, pure_bind, if_neg fun h => hnewline h hline]
    obtain ⟨stop, hstop, hlands⟩ := exists_lineEnd source fewer (c.pos + 1) (by omega)
      (by omega)
    rw [hfirst, hstop, pure_bind]
    exact ⟨_, rfl, hlands c.regex⟩
  · have hnext := lt_of_getElem? hblock
    obtain ⟨stop, hstop, hlands⟩ := exists_commentEnd source (fewer + 1) (c.pos + 2) (by omega)
      (by omega)
    rw [hstop, pure_bind]
    refine ⟨_, rfl, (hlands c.regex).of_outcome (by omega) fun stack found => ?_⟩
    exact outcome_onward rfl _ _ _ _
  · exact ⟨_, rfl, .here hlt c.regex⟩

theorem skipComment_newline {c : Cursor} (hb : source[c.pos]? = some Byte.newline)
    (hnext : source[c.pos + 1]? = some Byte.slash) (hcalls : calls ≠ 0) :
    skipComment source calls c = pure c := by
  have hlt := lt_of_getElem? hb
  obtain ⟨fewer, rfl⟩ := Nat.exists_eq_succ_of_ne_zero hcalls
  rw [skipComment_eq (by omega), if_pos hnext, lineEnd, if_pos hlt, elementAt_eq hb, pure_bind,
    if_pos rfl, pure_bind]

theorem exists_skipRegex {c : Cursor} (hc : c.pos < source.length)
    (hcalls : source.length + 1 < c.pos + calls) :
    ∃ c', skipRegex source calls c = pure c' ∧ c.pos < c'.pos ∧
      Lands source (c.pos + 1) (.regex false) { c' with regex := false } := by
  obtain ⟨stop, hstop, hlands⟩ := exists_regexEnd source calls false (c.pos + 1) (by omega)
    (by omega)
  have hforward : min (c.pos + 1) source.length ≤ stop := hlands.forward
  rw [skipRegex, hstop, pure_bind]
  exact ⟨_, rfl, by simp only; omega, hlands⟩

theorem isPrefixOf_drop_iff {x y : UInt8} :
    [x, y].isPrefixOf (source.drop pos) = true ↔
      source[pos]? = some x ∧ source[pos + 1]? = some y := by
  have htail : source[pos + 1]? = (source.drop pos)[1]? := by rw [List.getElem?_drop]
  rw [htail, ← List.head?_drop]
  rcases source.drop pos with - | ⟨a, - | ⟨c, rest⟩⟩ <;> simp [@eq_comm _ x, @eq_comm _ y]

theorem exists_skipSlash {c : Cursor} (hb : source[c.pos]? = some b)
    (hcalls : source.length + 1 < c.pos + calls) :
    ∃ c', skipSlash source calls c = pure c' ∧ c.pos < c'.pos ∧ c'.pos ≤ source.length + 1 ∧
      (b = Byte.slash → Lands source (c.pos + 1)
        (slashMode c.regex (source.take c.pos).getLast? source[c.pos + 1]?) c') := by
  have hlt := lt_of_getElem? hb
  rw [skipSlash, slice_eq (by omega) (Nat.le_refl _), pure_bind, List.take_length,
    byteBefore_eq (by omega)]
  simp only [pure_bind, Bool.or_eq_true, isPrefixOf_drop_iff, hb, Option.some.injEq, ← and_or_left]
  split_ifs with hcomment hregex
  · obtain ⟨hslash, hnext⟩ := hcomment
    have hnewline : b = Byte.newline → source[c.pos + 1]? ≠ some Byte.slash := by
      rw [hslash]
      exact fun h => absurd h (by decide)
    obtain ⟨c', hc', hlands⟩ := exists_skipComment hb hnewline hcalls
    have hmode : slashMode c.regex (source.take c.pos).getLast? source[c.pos + 1]? =
        commentMode c.regex source[c.pos + 1]? := by
      rcases hnext with hnext | hnext <;> simp [slashMode, commentMode, hnext]
    have := hlands.forward
    exact ⟨c', hc', by omega, hlands.bounded, fun _ => hmode ▸ hlands⟩
  · obtain ⟨c', hc', hforward, hlands⟩ := exists_skipRegex hlt hcalls
    rw [hc', pure_bind]
    refine ⟨_, rfl, hforward, hlands.bounded, fun hslash => ?_⟩
    rw [hslash, not_and, not_or] at hcomment
    obtain ⟨hline, hblock⟩ := hcomment rfl
    rwa [slashMode, if_neg hline, if_neg hblock, if_pos hregex]
  · refine ⟨_, rfl, Nat.lt_succ_self _, by simp only; omega, fun hslash => ?_⟩
    rw [hslash, not_and, not_or] at hcomment
    obtain ⟨hline, hblock⟩ := hcomment rfl
    rw [slashMode, if_neg hline, if_neg hblock, if_neg hregex]
    exact .here hlt true

/-- The machine reads code as the readers do. -/
theorem exists_skipCode {c : Cursor} (hb : source[c.pos]? = some b)
    (hcalls : source.length + 1 < c.pos + calls) :
    ∃ c', skipCode source calls b c = pure c' ∧ c.pos < c'.pos ∧ Lands source (c.pos + 1)
      (codeMode c.regex (source.take c.pos).getLast? b source[c.pos + 1]?) c' := by
  unfold skipCode
  split_ifs with hquote hslash
  · obtain ⟨c', hc', hforward, hlands⟩ := exists_skipString b (lt_of_getElem? hb) hcalls
    refine ⟨c', hc', hforward, ?_⟩
    rwa [codeMode, if_pos hquote]
  · obtain ⟨c', hc', hforward, -, hlands⟩ := exists_skipSlash hb hcalls
    refine ⟨c', hc', hforward, ?_⟩
    rw [codeMode, if_neg hquote, if_pos hslash]
    exact hlands hslash
  · obtain ⟨c', hc', hforward, -, hlands⟩ := exists_advance hb hcalls
    simp only [Bool.or_eq_true, decide_eq_true_eq, not_or] at hquote
    exact ⟨c', hc', hforward, hlands hquote.1 hquote.2 hslash⟩

end Descent
end TemplateLint.Scan
