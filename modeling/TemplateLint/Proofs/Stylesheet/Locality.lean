import Mathlib
import TemplateLint.Proofs.Stylesheet.Lexer

/-!
# Tokens do not look behind the end of a line

The measures of the lexer are local: a length that ends before a newline is the same whatever
stands behind that newline. Runs of local units are local, and so is one local measure behind
another. All forms of tokens are put together in these ways, so `tokenLength` is local. A token
that ends before a newline is therefore a token of every text that goes on in another way behind
it.
-/
namespace TemplateLint.Stylesheet
open Bytes

/-- Two lengths are the same unless both reach beyond `n`. -/
def Agree (n k k' : Nat) : Prop := k' = k ∨ n < k ∧ n < k'

namespace Agree
variable {n k k' l l' : Nat}

theorem refl (n k : Nat) : Agree n k k := .inl rfl

theorem eq_of_le (h : Agree n k k') (hk : k ≤ n) : k' = k := by
  rcases h with h | h
  · exact h
  · omega

theorem eq_zero_iff (h : Agree n k k') : k' = 0 ↔ k = 0 := by
  rcases h with h | h <;> omega

/-- Lengths behind lengths that agree. -/
theorem add (hk : Agree n k k') (hl : k ≤ n → k' = k → Agree (n - k) l l') :
    Agree n (k + l) (k' + l') := by
  by_cases hle : k ≤ n
  · have heq := hk.eq_of_le hle
    rcases hl hle heq with h | h
    · exact .inl (by omega)
    · exact .inr (by omega)
  · rcases hk with h | h
    · exact .inr (by omega)
    · exact .inr (by omega)

theorem add_left (m : Nat) (h : Agree n k k') : Agree (m + n) (m + k) (m + k') :=
  add (refl _ m) fun _ _ => by simpa using h

theorem succ (h : Agree n k k') : Agree (n + 1) (k + 1) (k' + 1) := by
  simpa only [Nat.add_comm 1] using h.add_left 1

theorem ite {c : Prop} [Decidable c] (hk : c → Agree n k k') (hl : ¬c → Agree n l l') :
    Agree n (if c then k else l) (if c then k' else l') := by
  by_cases hc : c
  · rw [if_pos hc, if_pos hc]
    exact hk hc
  · rw [if_neg hc, if_neg hc]
    exact hl hc

/-- The first lengths that are not zero agree when all lengths do. -/
theorem firstLength {lengths lengths' : List Nat} (h : List.Forall₂ (Agree n) lengths lengths') :
    Agree n (firstLength lengths) (firstLength lengths') := by
  induction h with
  | nil => exact refl n _
  | @cons k k' rest rest' hk _ ih =>
    cases k with
    | zero =>
      rw [hk.eq_zero_iff.2 rfl]
      exact ih
    | succ k =>
      obtain ⟨m, rfl⟩ := Nat.exists_eq_succ_of_ne_zero (mt hk.eq_zero_iff.1 (Nat.succ_ne_zero k))
      exact hk

end Agree

/-- A measure whose lengths before a newline do not depend on what stands behind the newline. -/
def IsLocal (measure : Bytes → Nat) : Prop :=
  ∀ u t t' : Bytes,
    Agree u.length (measure (u ++ Byte.newline :: t)) (measure (u ++ Byte.newline :: t'))

/-- A text can be cut before a newline without a look at what follows. -/
theorem drop_append_newline {u : Bytes} {n : Nat} (h : n ≤ u.length) (t : Bytes) :
    (u ++ Byte.newline :: t).drop n = u.drop n ++ Byte.newline :: t :=
  List.drop_append_of_le_length h

/-- The text behind a length that ends before the newline. -/
theorem IsLocal.drop {f : Bytes → Nat} (hf : IsLocal f) {u : Bytes} {n : Nat} (h : n ≤ u.length)
    (t t' : Bytes) : Agree (u.length - n) (f ((u ++ Byte.newline :: t).drop n))
      (f ((u ++ Byte.newline :: t').drop n)) := by
  rw [drop_append_newline h, drop_append_newline h, ← List.length_drop]
  exact hf _ t t'

/-- A local measure behind a local measure. -/
theorem IsLocal.seq {f g : Bytes → Nat} (hf : IsLocal f) (hg : IsLocal g) :
    IsLocal fun s => f s + g (s.drop (f s)) := by
  intro u t t'
  refine (hf u t t').add fun hle heq => ?_
  rw [heq]
  exact hg.drop hle t t'

/-- Two local measures, chosen between by a look at the first byte. -/
theorem IsLocal.ite {f g : Bytes → Nat} (hf : IsLocal f) (hg : IsLocal g) (p : UInt8 → Bool) :
    IsLocal fun s => if s.head?.any p then f s else g s := by
  intro u t t'
  have hhead : (u ++ Byte.newline :: t').head? = (u ++ Byte.newline :: t).head? := by
    cases u <;> rfl
  simp only [hhead]
  exact .ite (fun _ => hf u t t') fun _ => hg u t t'

/-! ## Runs -/

theorem classLength_le (p : UInt8 → Bool) (s : Bytes) : classLength p s ≤ s.length :=
  (List.takeWhile_prefix p).length_le

/-- A run of bytes that are no newlines ends before the first newline. -/
theorem classLength_append_newline {p : UInt8 → Bool} (hp : p Byte.newline = false)
    (u t : Bytes) : classLength p (u ++ Byte.newline :: t) = classLength p u := by
  induction u with
  | nil => simp [classLength, hp]
  | cons b u ih =>
    simp only [classLength] at ih ⊢
    by_cases hb : p b = true
    · simp [hb, ih]
    · simp [hb]

theorem isLocal_classLength (p : UInt8 → Bool) : IsLocal (classLength p) := by
  intro u t t'
  induction u with
  | nil =>
    by_cases hp : p Byte.newline = true
    · exact .inr (by simp [classLength, hp])
    · exact .inl (by simp [classLength, hp])
  | cons b u ih =>
    by_cases hb : p b = true
    · have hcons : ∀ s, classLength p (b :: s) = classLength p s + 1 := by
        intro s
        simp [classLength, hb]
      rw [List.cons_append, List.cons_append, hcons, hcons]
      exact ih.succ
    · exact .inl (by simp [classLength, hb])

/-- A run goes on at least to the end of the unit it has begun. -/
theorem le_runFrom (unit : Bytes → Nat) (skip : Nat) (s : Bytes) :
    min skip s.length ≤ runFrom unit skip s := by
  fun_induction runFrom unit skip s with
  | case1 => simp
  | case2 skip b s ih =>
    simp only [List.length_cons]
    omega
  | case3 b s h => simp
  | case4 b s skip h ih => simp

theorem isLocal_runLength {unit : Bytes → Nat} (hunit : IsLocal unit) :
    IsLocal (runLength unit) := by
  intro u t t'
  -- the bytes that are left of a unit count in the induction on the text
  suffices key : ∀ skip, Agree u.length (runFrom unit skip (u ++ Byte.newline :: t))
      (runFrom unit skip (u ++ Byte.newline :: t')) from key 0
  induction u with
  | nil =>
    intro skip
    cases skip with
    | succ skip => exact .inr (by simp [runFrom])
    | zero =>
      have hzero := (hunit [] t t').eq_zero_iff
      simp only [List.nil_append, runFrom] at hzero ⊢
      cases hn : unit (Byte.newline :: t) with
      | zero =>
        rw [hzero.2 hn]
        exact .refl _ _
      | succ n =>
        obtain ⟨n', hn'⟩ := Nat.exists_eq_succ_of_ne_zero (mt hzero.1 (by omega))
        rw [hn']
        exact .inr (by simp)
  | cons b u ih =>
    intro skip
    cases skip with
    | succ skip =>
      exact (ih skip).succ
    | zero =>
      have hlocal := hunit (b :: u) t t'
      simp only [List.cons_append, List.length_cons] at hlocal ⊢
      rcases hlocal with heq | ⟨hlt, hlt'⟩
      · rw [runFrom, runFrom, heq]
        cases unit (b :: (u ++ Byte.newline :: t)) with
        | zero => exact .refl _ _
        | succ n => exact (ih n).succ
      · -- a unit that reaches beyond the newline takes the run with it
        have beyond : ∀ s, u.length + 1 < unit (b :: (u ++ Byte.newline :: s)) →
            u.length + 1 < runFrom unit 0 (b :: (u ++ Byte.newline :: s)) := by
          intro s hs
          obtain ⟨n, hn⟩ := Nat.exists_eq_succ_of_ne_zero (Nat.ne_of_gt (Nat.zero_lt_of_lt hs))
          have hle := le_runFrom unit n (u ++ Byte.newline :: s)
          rw [List.length_append, List.length_cons] at hle
          rw [hn] at hs
          rw [runFrom, hn]
          simp only
          omega
        exact .inr ⟨beyond t hlt, beyond t' hlt'⟩

/-! ## Names -/

theorem classLength_take (p : UInt8 → Bool) (n : Nat) (s : Bytes) :
    classLength p (s.take n) = min n (classLength p s) := by
  rw [classLength, ← List.take_takeWhile, List.length_take, classLength]

/-- A character is as long as its first byte says unless the text ends before. -/
theorem leadLength_succ (lead : UInt8) (n : Nat) : leadLength lead (n + 1) =
    min (n + 1) (if lead < 0xe0 then 2 else if lead < 0xf0 then 3 else 4) := by
  by_cases h2 : lead < 0xe0
  · simp only [leadLength, h2, decide_true, Bool.true_or, if_true]
    split_ifs <;> omega
  · by_cases h3 : lead < 0xf0
    · simp only [leadLength, h2, h3, decide_true, decide_false, Bool.true_or, Bool.false_or,
        decide_eq_true_eq, if_true, if_false]
      split_ifs <;> omega
    · simp only [leadLength, h2, h3, decide_false, Bool.false_or, decide_eq_true_eq, if_false]
      split_ifs <;> omega

theorem escapeLength_newline (t : Bytes) : escapeLength (Byte.newline :: t) = 0 := by
  cases t <;> rfl

theorem isLocal_escapeLength : IsLocal escapeLength := by
  intro u t t'
  match u with
  | [] =>
    rw [List.nil_append, List.nil_append, escapeLength_newline, escapeLength_newline]
    exact .refl _ _
  | [a] => exact .inl (by simp [escapeLength, isLineEnd])
  | a :: b :: u =>
    simp only [List.cons_append, escapeLength, List.length_cons]
    refine .ite (fun _ => .refl _ _) fun _ => .ite (fun _ => ?_) fun _ => .ite (fun _ => ?_)
      fun _ => .refl _ _
    · -- behind the digits at most the newline itself is looked at
      have hle := classLength_le Byte.isHexDigit u
      have hspace : ∀ s, classLength isSpace
          (((u ++ Byte.newline :: s).drop (min 5 (classLength Byte.isHexDigit u))).take 1) =
          classLength isSpace (((u ++ [Byte.newline]).drop
            (min 5 (classLength Byte.isHexDigit u))).take 1) := by
        intro s
        rw [drop_append_newline (by omega), drop_append_newline (by omega)]
        cases u.drop (min 5 (classLength Byte.isHexDigit u)) <;> rfl
      simp only [classLength_take, classLength_append_newline (p := Byte.isHexDigit) rfl,
        Nat.add_sub_cancel_left, hspace]
      exact .refl _ _
    · rw [leadLength_succ, leadLength_succ, List.length_append, List.length_append,
        List.length_cons, List.length_cons]
      unfold Agree
      omega

theorem isLocal_nameUnit : IsLocal nameUnit := by
  intro u t t'
  cases u with
  | nil =>
    simp only [List.nil_append, nameUnit, escapeLength_newline]
    exact .refl _ _
  | cons b u =>
    simp only [List.cons_append, nameUnit]
    exact .ite (fun _ => .refl _ _) fun _ => isLocal_escapeLength (b :: u) t t'

theorem isLocal_nameLength : IsLocal nameLength := isLocal_runLength isLocal_nameUnit

/-- A name behind `k` bytes that have to be followed by its start. -/
theorem agree_nameLength (k : Nat) (u t t' : Bytes) (b : UInt8) : Agree (k + u.length)
    (if isNameStart b || escapeLength (u ++ Byte.newline :: t) ≠ 0 then
      k + nameLength (u ++ Byte.newline :: t) else 0)
    (if isNameStart b || escapeLength (u ++ Byte.newline :: t') ≠ 0 then
      k + nameLength (u ++ Byte.newline :: t') else 0) := by
  rw [decide_eq_decide.2 (not_congr (isLocal_escapeLength u t t').eq_zero_iff)]
  exact .ite (fun _ => (isLocal_nameLength u t t').add_left k) fun _ => .refl _ _

theorem identLength_newline (t : Bytes) : identLength (Byte.newline :: t) = 0 := by
  cases t <;> rfl

theorem isLocal_identLength : IsLocal identLength := by
  intro u t t'
  match u with
  | [] =>
    rw [List.nil_append, List.nil_append, identLength_newline, identLength_newline]
    exact .refl _ _
  | [b] =>
    simp only [List.cons_append, List.nil_append, identLength]
    refine .ite (fun _ => ?_) fun _ => ?_
    · exact agree_nameLength 1 [] t t' Byte.newline
    · simpa using agree_nameLength 0 [b] t t' b
  | b :: c :: u =>
    simp only [List.cons_append, identLength, List.length_cons]
    refine .ite (fun _ => .ite (fun _ => ?_) fun _ => ?_) fun _ => ?_
    · rw [Nat.add_assoc, Nat.add_comm]
      exact (isLocal_nameLength u t t').add_left 2
    · rw [Nat.add_comm]
      exact agree_nameLength 1 (c :: u) t t' c
    · simpa using agree_nameLength 0 (b :: c :: u) t t' b

/-! ## Strings and numbers -/

theorem lineEndLength_append_newline (u t t' : Bytes) :
    lineEndLength (u ++ Byte.newline :: t) = lineEndLength (u ++ Byte.newline :: t') := by
  match u with
  | [] => rfl
  | [b] => rfl
  | b :: c :: u => rfl

/-- An escape, or what takes its place where there is none. -/
theorem agree_escapeLength {u t t' : Bytes} {n n' : Nat} (h : Agree u.length n n') :
    Agree u.length
      (match escapeLength (u ++ Byte.newline :: t) with
        | 0 => n
        | m => m)
      (match escapeLength (u ++ Byte.newline :: t') with
        | 0 => n'
        | m => m) := by
  have hlocal := isLocal_escapeLength u t t'
  cases hm : escapeLength (u ++ Byte.newline :: t) with
  | zero =>
    rw [hlocal.eq_zero_iff.2 hm]
    exact h
  | succ m =>
    obtain ⟨m', hm'⟩ := Nat.exists_eq_succ_of_ne_zero (mt hlocal.eq_zero_iff.1 (by omega))
    rw [hm, hm'] at hlocal
    rw [hm']
    exact hlocal

theorem isLocal_stringUnit (quote : UInt8) : IsLocal (stringUnit quote) := by
  intro u t t'
  cases u with
  | nil => exact .inl (by simp [stringUnit, isLineEnd])
  | cons b u =>
    simp only [List.cons_append, stringUnit]
    refine .ite (fun _ => .refl _ _) fun _ => .ite (fun _ => ?_) fun _ => .refl _ _
    rw [lineEndLength_append_newline u t' t]
    exact agree_escapeLength (u := b :: u) (.refl _ _)

/-- A string that ends before a newline does not depend on what stands behind the newline. -/
theorem stringTail_append_newline (quote : UInt8) (u t t' : Bytes) :
    stringTail quote (u ++ Byte.newline :: t') = stringTail quote (u ++ Byte.newline :: t) ∨
      u.length < (stringTail quote (u ++ Byte.newline :: t)).1 ∧
        u.length < (stringTail quote (u ++ Byte.newline :: t')).1 := by
  have le_fst : ∀ s, runLength (stringUnit quote) s ≤ (stringTail quote s).1 := by
    intro s
    rw [stringTail]
    split <;> simp
  rcases isLocal_runLength (isLocal_stringUnit quote) u t t' with hbody | ⟨hlt, hlt'⟩
  · by_cases hle : runLength (stringUnit quote) (u ++ Byte.newline :: t) ≤ u.length
    · left
      rw [stringTail, stringTail, hbody, drop_append_newline hle, drop_append_newline hle]
      cases u.drop (runLength (stringUnit quote) (u ++ Byte.newline :: t)) <;> rfl
    · right
      have := le_fst (u ++ Byte.newline :: t)
      have := le_fst (u ++ Byte.newline :: t')
      omega
  · exact .inr ⟨hlt.trans_le (le_fst _), hlt'.trans_le (le_fst _)⟩

/-- Whether a text starts with a byte that is no newline is decided before the newline. -/
theorem head?_append_newline {b : UInt8} (hb : b ≠ Byte.newline) (u t : Bytes) :
    ((u ++ Byte.newline :: t).head? == some b) = (u.head? == some b) := by
  cases u with
  | nil => simpa using hb.symm
  | cons c u => rfl

/-- A sign is one byte of the text. -/
theorem sign_le (u : Bytes) :
    (if u.head? == some Byte.plus || u.head? == some Byte.hyphen then 1 else 0) ≤ u.length := by
  cases u with
  | nil => decide
  | cons b u =>
    rw [List.length_cons]
    split <;> omega

theorem exponentLength_append_newline (u t : Bytes) :
    exponentLength (u ++ Byte.newline :: t) = exponentLength u := by
  cases u with
  | nil => rfl
  | cons e u =>
    rw [List.cons_append, exponentLength, exponentLength,
      head?_append_newline (by decide), head?_append_newline (by decide)]
    dsimp only
    rw [drop_append_newline (sign_le u), classLength_append_newline rfl]

theorem exponentLength_le (u : Bytes) : exponentLength u ≤ u.length := by
  cases u with
  | nil => exact Nat.le_refl 0
  | cons e u =>
    have hsign := sign_le u
    rw [exponentLength, List.length_cons]
    split
    · exact Nat.zero_le _
    · dsimp only
      generalize (if u.head? == some Byte.plus || u.head? == some Byte.hyphen then 1 else 0) =
        sign at hsign ⊢
      have hdigits := classLength_le Byte.isDigit (u.drop sign)
      rw [List.length_drop] at hdigits
      split <;> omega

/-- The digits behind a point. -/
theorem fraction_append_newline (u t : Bytes) :
    (if (u ++ Byte.newline :: t).head? == some Byte.dot then
      classLength Byte.isDigit ((u ++ Byte.newline :: t).drop 1) else 0) =
      if u.head? == some Byte.dot then classLength Byte.isDigit (u.drop 1) else 0 := by
  cases u with
  | nil => rfl
  | cons b u => simp [classLength_append_newline (p := Byte.isDigit) rfl]

theorem fraction_le {u : Bytes} {fraction : Nat}
    (hf : fraction = if u.head? == some Byte.dot then classLength Byte.isDigit (u.drop 1) else 0) :
    (if fraction = 0 then 0 else fraction + 1) ≤ u.length := by
  cases u with
  | nil =>
    subst hf
    exact Nat.le_refl 0
  | cons b u =>
    have hle := classLength_le Byte.isDigit u
    rw [List.drop_one, List.tail_cons] at hf
    rw [List.length_cons]
    split at hf <;> split <;> omega

/-- A number lies before the first newline and does not depend on what stands behind it. -/
theorem numberLength_append_newline (u t : Bytes) :
    numberLength (u ++ Byte.newline :: t) = numberLength u ∧ numberLength u ≤ u.length := by
  unfold numberLength
  rw [head?_append_newline (by decide), head?_append_newline (by decide)]
  have hsign := sign_le u
  generalize (if u.head? == some Byte.plus || u.head? == some Byte.hyphen then 1 else 0) =
    sign at hsign ⊢
  dsimp only
  rw [drop_append_newline hsign, classLength_append_newline rfl]
  have hwhole := classLength_le Byte.isDigit (u.drop sign)
  generalize classLength Byte.isDigit (u.drop sign) = whole at hwhole ⊢
  rw [List.length_drop] at hwhole
  rw [drop_append_newline (by omega), fraction_append_newline]
  have hfraction := fraction_le (u := u.drop (sign + whole)) rfl
  generalize (if (u.drop (sign + whole)).head? == some Byte.dot then
    classLength Byte.isDigit ((u.drop (sign + whole)).drop 1) else 0) = fraction at hfraction ⊢
  generalize (if fraction = 0 then 0 else fraction + 1) = point at hfraction ⊢
  rw [List.length_drop] at hfraction
  have hmantissa : sign + whole + point ≤ u.length := by omega
  have hexponent := exponentLength_le (u.drop (sign + whole + point))
  rw [List.length_drop] at hexponent
  rw [drop_append_newline hmantissa, exponentLength_append_newline]
  refine ⟨rfl, ?_⟩
  split <;> omega

theorem isLocal_numericLength : IsLocal numericLength := by
  intro u t t'
  obtain ⟨hnumber, hle⟩ := numberLength_append_newline u t
  have hnumber' := (numberLength_append_newline u t').1
  rw [numericLength, numericLength, hnumber, hnumber']
  cases hn : numberLength u with
  | zero => exact .refl _ _
  | succ n =>
    rw [hn] at hle
    have hident := isLocal_identLength.drop hle t t'
    have hpercent : (0x25 : UInt8) ≠ Byte.newline := by decide
    simp only [drop_append_newline hle, head?_append_newline hpercent] at hident ⊢
    exact .ite (fun _ => .refl _ _) fun _ => .add (.refl _ _) fun _ _ => hident

/-! ## Addresses -/

theorem isLocal_remnantUnit : IsLocal remnantUnit := by
  intro u t t'
  cases u with
  | nil => exact .inl (by simp [remnantUnit, escapeLength_newline])
  | cons b u =>
    simp only [List.cons_append, remnantUnit]
    refine .ite (fun _ => .refl _ _) fun _ => ?_
    exact agree_escapeLength (u := b :: u) (.refl _ 1)

theorem isLocal_remnantLength : IsLocal remnantLength := by
  intro u t t'
  have le_remnant : ∀ s, runLength remnantUnit s ≤ remnantLength s := by
    intro s
    rw [remnantLength]
    split <;> omega
  rcases isLocal_runLength isLocal_remnantUnit u t t' with hbody | ⟨hlt, hlt'⟩
  · by_cases hle : runLength remnantUnit (u ++ Byte.newline :: t) ≤ u.length
    · left
      rw [remnantLength, remnantLength, hbody, drop_append_newline hle, drop_append_newline hle]
      simp
    · right
      have := le_remnant (u ++ Byte.newline :: t)
      have := le_remnant (u ++ Byte.newline :: t')
      omega
  · exact .inr ⟨hlt.trans_le (le_remnant _), hlt'.trans_le (le_remnant _)⟩

theorem isLocal_addressUnit : IsLocal addressUnit := by
  intro u t t'
  cases u with
  | nil => exact .inl (by simp [addressUnit, Byte.newline, Byte.space])
  | cons b u =>
    simp only [List.cons_append, addressUnit]
    refine .ite (fun _ => .refl _ _) fun _ => .ite (fun _ => ?_) fun _ => .refl _ _
    exact isLocal_escapeLength (b :: u) t t'

/-- An address ends in space and then a closing parenthesis or a remnant. -/
theorem addressEnd_eq (s : Bytes) : addressEnd s = classLength isSpace s +
    if (s.drop (classLength isSpace s)).head?.any (· == Byte.closeParen) then 1
      else remnantLength (s.drop (classLength isSpace s)) := by
  rw [addressEnd]
  cases s.drop (classLength isSpace s) with
  | nil => rfl
  | cons b t =>
    simp only [List.head?_cons, Option.any_some, beq_iff_eq]
    split <;> rfl

theorem isLocal_addressEnd : IsLocal addressEnd := by
  have hone : IsLocal fun _ => 1 := fun u _ _ => .refl _ _
  rw [funext addressEnd_eq]
  exact (isLocal_classLength isSpace).seq (hone.ite isLocal_remnantLength (· == Byte.closeParen))

/-- The content and end of an address behind the space at its start. -/
def contentLength : Bytes → Nat
  | [] => 0
  | b :: t =>
    if b = Byte.doubleQuote || b = Byte.singleQuote then
      1 + ((stringTail b t).1 + if (stringTail b t).2 then remnantLength (t.drop (stringTail b t).1)
        else addressEnd (t.drop (stringTail b t).1))
    else
      runLength addressUnit (b :: t) +
        if ((b :: t).drop (runLength addressUnit (b :: t))).head?.any
            fun c => c == Byte.closeParen || isSpace c then
          addressEnd ((b :: t).drop (runLength addressUnit (b :: t)))
        else remnantLength ((b :: t).drop (runLength addressUnit (b :: t)))

theorem addressTail_eq (s : Bytes) :
    addressTail s = classLength isSpace s + contentLength (s.drop (classLength isSpace s)) := by
  unfold addressTail
  extract_lets blank
  cases hd : s.drop blank with
  | nil => rfl
  | cons b t =>
    dsimp only
    rw [contentLength]
    split
    · have hdrop : ∀ n, s.drop (blank + 1 + n) = t.drop n := by
        intro n
        rw [Nat.add_assoc, ← List.drop_drop, hd, Nat.add_comm, List.drop_succ_cons]
      rw [hdrop]
      omega
    · have hdrop : ∀ n, s.drop (blank + n) = (b :: t).drop n := by
        intro n
        rw [← List.drop_drop, hd]
      rw [hdrop]
      cases (b :: t).drop (runLength addressUnit (b :: t)) with
      | nil => rfl
      | cons c v =>
        simp only [List.head?_cons, Option.any_some, Bool.or_eq_true, beq_iff_eq,
          decide_eq_true_eq]
        split <;> omega

theorem isLocal_contentLength : IsLocal contentLength := by
  have hunquoted : IsLocal fun s => runLength addressUnit s +
      if (s.drop (runLength addressUnit s)).head?.any
          fun c => c == Byte.closeParen || isSpace c then
        addressEnd (s.drop (runLength addressUnit s))
      else remnantLength (s.drop (runLength addressUnit s)) :=
    (isLocal_runLength isLocal_addressUnit).seq (isLocal_addressEnd.ite isLocal_remnantLength _)
  intro u t t'
  cases u with
  | nil => exact hunquoted [] t t'
  | cons b u =>
    simp only [List.cons_append, contentLength]
    refine .ite (fun _ => ?_) fun _ => hunquoted (b :: u) t t'
    rw [List.length_cons, Nat.add_comm]
    refine .add_left 1 ?_
    rcases stringTail_append_newline b u t t' with heq | ⟨hlt, hlt'⟩
    · rw [heq]
      refine .add (.refl _ _) fun hle _ => .ite (fun _ => ?_) fun _ => ?_
      · exact isLocal_remnantLength.drop hle t t'
      · exact isLocal_addressEnd.drop hle t t'
    · exact .inr ⟨by omega, by omega⟩

theorem isLocal_addressTail : IsLocal addressTail := by
  rw [funext addressTail_eq]
  exact (isLocal_classLength isSpace).seq isLocal_contentLength

/-! ## Tokens -/

theorem isLocal_wordLength : IsLocal wordLength := by
  intro u t t'
  have le_word : ∀ s, identLength s ≤ wordLength s := by
    intro s
    rw [wordLength]
    split
    · omega
    · split_ifs <;> omega
  rcases isLocal_identLength u t t' with hident | ⟨hlt, hlt'⟩
  · by_cases hle : identLength (u ++ Byte.newline :: t) ≤ u.length
    · rw [wordLength, wordLength, hident]
      cases hn : identLength (u ++ Byte.newline :: t) with
      | zero => exact .refl _ _
      | succ n =>
        rw [hn] at hle
        have hhead : ∀ s, ((u ++ Byte.newline :: s).drop (n + 1)).head? ≠ some Byte.openParen ↔
            ((u.drop (n + 1)).head? == some Byte.openParen) = false := by
          intro s
          rw [drop_append_newline hle, ← head?_append_newline (t := s) (by decide)]
          simp
        simp only [hhead, List.take_append_of_le_length hle]
        refine .ite (fun _ => .refl _ _) fun hparen => .ite (fun _ => ?_) fun _ => .refl _ _
        have hlt : n + 1 + 1 ≤ u.length := by
          by_contra hge
          rw [List.drop_of_length_le (by omega)] at hparen
          exact hparen rfl
        exact .add (.refl _ _) fun _ _ => isLocal_addressTail.drop hlt t t'
    · right
      have := le_word (u ++ Byte.newline :: t)
      have := le_word (u ++ Byte.newline :: t')
      omega
  · exact .inr ⟨hlt.trans_le (le_word _), hlt'.trans_le (le_word _)⟩

theorem rangeLength_append_newline (u t : Bytes) :
    rangeLength (u ++ Byte.newline :: t) = rangeLength u := by
  have hle := classLength_le Byte.isHexDigit u
  unfold rangeLength
  dsimp only
  rw [classLength_append_newline rfl, drop_append_newline hle,
    head?_append_newline (by decide), classLength_append_newline rfl]
  cases u.drop (classLength Byte.isHexDigit u) with
  | nil => rfl
  | cons b v => simp [classLength_append_newline (p := Byte.isHexDigit) rfl]

/-- A mark without newlines stands before the newline or not at all. -/
theorem isPrefixOf_append_newline (mark : Bytes) (hmark : Byte.newline ∉ mark) (u t : Bytes) :
    mark.isPrefixOf (u ++ Byte.newline :: t) = mark.isPrefixOf u := by
  induction mark generalizing u with
  | nil => rw [List.isPrefixOf_nil_left, List.isPrefixOf_nil_left]
  | cons b mark ih =>
    rw [List.mem_cons, not_or] at hmark
    cases u with
    | nil => simp [List.isPrefixOf, Ne.symm hmark.1]
    | cons c u => rw [List.cons_append, List.isPrefixOf, List.isPrefixOf, ih hmark.2]

/-- Where the comment ends whose start is taken. -/
def commentEnd (s : Bytes) : Nat :=
  match find? [Byte.star, Byte.slash] s with
  | some n => n + 2
  | none => s.length

theorem commentLength_cons_cons (a b : UInt8) (s : Bytes) :
    commentLength (a :: b :: s) = 2 + commentEnd s := by
  rw [commentLength, commentEnd, List.drop_succ_cons, List.drop_succ_cons, List.drop_zero]
  cases find? [Byte.star, Byte.slash] s with
  | none => simp only [List.length_cons]; omega
  | some n => simp only; omega

theorem commentEnd_cons (b : UInt8) (s : Bytes) : commentEnd (b :: s) =
    if [Byte.star, Byte.slash].isPrefixOf (b :: s) then 2 else commentEnd s + 1 := by
  rw [commentEnd, find?, commentEnd]
  split_ifs
  · rfl
  · cases find? [Byte.star, Byte.slash] s with
    | none => rfl
    | some n => simp only [Option.map_some]

theorem isLocal_commentEnd : IsLocal commentEnd := by
  intro u t t'
  have hmark := isPrefixOf_append_newline [Byte.star, Byte.slash] (by decide)
  induction u with
  | nil =>
    rw [List.nil_append, List.nil_append, commentEnd_cons, commentEnd_cons]
    exact .inr ⟨by split_ifs <;> simp, by split_ifs <;> simp⟩
  | cons b u ih =>
    rw [List.cons_append, List.cons_append, commentEnd_cons, commentEnd_cons, ← List.cons_append,
      ← List.cons_append, hmark, hmark]
    exact .ite (fun _ => .refl _ _) fun _ => ih.succ

theorem isLocal_hyphenLength : IsLocal hyphenLength := by
  intro u t t'
  have harrow := isPrefixOf_append_newline (Bytes.ofString "-->") (by decide +kernel)
  have hdouble := isPrefixOf_append_newline (Bytes.ofString "--") (by decide +kernel)
  simp only [hyphenLength, Bytes.startsWith, harrow, hdouble]
  refine .ite (fun _ => .refl _ _) fun _ => .ite (fun _ => isLocal_identLength u t t') fun _ => ?_
  exact .firstLength (.cons (isLocal_wordLength u t t') (.cons (isLocal_numericLength u t t') .nil))

/-- **A token that ends before a newline does not depend on what stands behind it.** -/
theorem isLocal_tokenLength : IsLocal tokenLength := by
  intro u t t'
  cases u with
  | nil => exact .inr ⟨tokenLength_pos _ _, tokenLength_pos _ _⟩
  | cons b u =>
    have hnumeric := isLocal_numericLength (b :: u) t t'
    have hword := Agree.firstLength (.cons (isLocal_wordLength (b :: u) t t') .nil)
    have hmark := isPrefixOf_append_newline (Bytes.ofString "!--") (by decide +kernel) u
    have hequals : Byte.equals ≠ Byte.newline := by decide
    have hbar : Byte.bar ≠ Byte.newline := by decide
    have hstar : Byte.star ≠ Byte.newline := by decide
    have hplus : Byte.plus ≠ Byte.newline := by decide
    simp only [List.cons_append, List.length_cons, tokenLength, Bytes.startsWith, hmark,
      head?_append_newline hequals, head?_append_newline hbar, head?_append_newline hstar,
      head?_append_newline hplus, Nat.add_comm 1] at hnumeric hword ⊢
    refine .ite (fun _ => ?_) fun _ => .ite (fun _ => .refl _ _) fun _ => .ite (fun _ => ?_)
      fun _ => .ite (fun _ => ?_) fun _ => .ite (fun _ => ?_) fun _ => .ite (fun _ => ?_)
      fun _ => .ite (fun _ => ?_) fun _ => .ite (fun _ => .refl _ _) fun _ => .ite
      (fun _ => .refl _ _) fun _ => .ite (fun _ => ?_) fun _ => .ite (fun _ => hword) fun _ =>
      .ite (fun _ => ?_) fun _ => ?_
    · exact (isLocal_classLength isSpace u t t').succ
    · exact (isLocal_nameLength u t t').succ
    · rcases stringTail_append_newline b u t t' with heq | ⟨hlt, hlt'⟩
      · rw [heq]
        exact .refl _ _
      · exact .inr ⟨by omega, by omega⟩
    · exact .firstLength (.cons hnumeric .nil)
    · exact isLocal_hyphenLength (b :: u) t t'
    · exact (isLocal_identLength u t t').succ
    · refine .ite (fun hcomment => ?_) fun _ => .refl _ _
      obtain ⟨v, rfl⟩ := List.head?_eq_some_iff.1 (beq_iff_eq.1 hcomment)
      rw [List.cons_append, List.cons_append, commentLength_cons_cons, commentLength_cons_cons,
        List.length_cons, Nat.add_assoc, Nat.add_comm]
      exact (isLocal_commentEnd v t t').add_left 2
    · have hrange : ∀ s, (if u.head? == some Byte.plus then
          rangeLength ((u ++ Byte.newline :: s).drop 1) else 0) =
          if u.head? == some Byte.plus then rangeLength (u.drop 1) else 0 := by
        intro s
        cases u with
        | nil => rfl
        | cons c v => simp only [List.cons_append, List.drop_one, List.tail_cons,
            rangeLength_append_newline]
      rw [hrange, hrange]
      cases (if u.head? == some Byte.plus then rangeLength (u.drop 1) else 0) with
      | zero => exact hword
      | succ n => exact .refl _ _
    · exact .firstLength (.cons hnumeric (.cons (isLocal_wordLength (b :: u) t t') .nil))

end TemplateLint.Stylesheet
