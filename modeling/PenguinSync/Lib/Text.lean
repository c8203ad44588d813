import Mathlib.Algebra.Group.Nat.Defs
import Mathlib.Data.List.Basic

/-!
# Reading text

A reader takes a value off the front of a text, or fails and leaves the text as
it was. Numbers are read to the last digit there is, so what was written before
some other text reads back when that text does not start with a digit.
-/

namespace Text

abbrev Reader := StateT (List Char) Option

section
variable {α β : Type}

theorem Reader.bind_some {p : Reader α} {s s' : List Char} {a : α} (h : p s = some (a, s')) (f : α → Reader β) :
    (p >>= f) s = f a s' := by
  simp [bind, StateT.bind, h]

theorem Reader.bind_none {p : Reader α} {s : List Char} (h : p s = none) (f : α → Reader β) :
    (p >>= f) s = none := by
  simp [bind, StateT.bind, h]

theorem Reader.orElse_eq (p q : Reader α) (s : List Char) : (p <|> q) s = (p s <|> q s) := rfl

/-- Whatever the text, a value that is read meets `P`. -/
def Reader.Yields (P : α → Prop) (p : Reader α) : Prop := ∀ s a s', p s = some (a, s') → P a

theorem Reader.Yields.pure {P : α → Prop} {a : α} (h : P a) : Yields P (pure a) := by
  intro s a' s' hs
  obtain ⟨rfl, -⟩ := Prod.mk.inj (Option.some.inj hs)
  exact h

theorem Reader.Yields.bind {P : β → Prop} (p : Reader α) {f : α → Reader β} (h : ∀ a, Yields P (f a)) :
    Yields P (p >>= f) := by
  intro s b s' hs
  cases hp : p s with
  | none =>
    rw [bind_none hp] at hs
    cases hs
  | some r =>
    rw [bind_some hp] at hs
    exact h r.1 r.2 b s' hs

theorem Reader.Yields.orElse {P : α → Prop} {p q : Reader α} (hp : Yields P p) (hq : Yields P q) :
    Yields P (p <|> q) := by
  intro s a s' hs
  rw [orElse_eq] at hs
  cases h : p s with
  | none =>
    rw [h] at hs
    exact hq s a s' hs
  | some r =>
    rw [h] at hs
    exact hp s a s' (h.trans hs)

def readGivenChar (target : Char) : Reader Unit
  | [] => none
  | c :: s => if c = target then some ((), s) else none

/-- The separator comes before every part but the first. -/
def readSeparator (sep : Char) (index : Nat) (inner : Reader α) : Reader α :=
  if 0 < index then do
    readGivenChar sep
    inner
  else inner

theorem readGivenChar_cons (c : Char) (s : List Char) : readGivenChar c (c :: s) = some ((), s) := by
  simp [readGivenChar]

theorem readGivenChar_none {c : Char} {s : List Char} (h : s.head? ≠ some c) : readGivenChar c s = none := by
  cases s with
  | nil => rfl
  | cons a s =>
    have ha : a ≠ c := by simpa using h
    simp [readGivenChar, ha]

theorem readSeparator_zero (sep : Char) (inner : Reader α) : readSeparator sep 0 inner = inner := rfl

theorem readSeparator_succ (sep : Char) (i : Nat) (inner : Reader α) (s : List Char) :
    readSeparator sep (i + 1) inner (sep :: s) = inner s := by
  unfold readSeparator
  rw [if_pos (Nat.succ_pos i)]
  exact Reader.bind_some (readGivenChar_cons sep s) _

theorem readSeparator_none {sep : Char} {i : Nat} {s : List Char} (hi : 0 < i) (h : s.head? ≠ some sep)
    (inner : Reader α) : readSeparator sep i inner s = none := by
  unfold readSeparator
  rw [if_pos hi]
  exact Reader.bind_none (readGivenChar_none h) _

end

/-! ## Digits -/

def digitOf (c : Char) : Option Nat :=
  if '0' ≤ c ∧ c ≤ '9' then some (c.toNat - 48)
  else if 'a' ≤ c ∧ c ≤ 'z' then some (c.toNat - 87)
  else if 'A' ≤ c ∧ c ≤ 'Z' then some (c.toNat - 55)
  else none

def toDigit (radix : Nat) (c : Char) : Option Nat := (digitOf c).filter (· < radix)

def isDigit (radix : Nat) (c : Char) : Bool := (toDigit radix c).isSome

def value (radix : Nat) (ds : List Char) : Nat :=
  ds.foldl (fun n c => radix * n + (toDigit radix c).getD 0) 0

/-- At most `maxDigits` digits, and below `bound`. Without `zeroPrefix` only zero
itself starts with a zero. -/
def readNumber (radix : Nat) (maxDigits : Option Nat) (zeroPrefix : Bool) (bound : Nat) : Reader Nat := fun s =>
  let ds := s.takeWhile (isDigit radix)
  if ds = [] then none
  else if maxDigits.any (· < ds.length) then none
  else if !zeroPrefix && ds.head? = some '0' && 1 < ds.length then none
  else if value radix ds < bound then some (value radix ds, s.dropWhile (isDigit radix))
  else none

def skipPlus : List Char → List Char
  | '+' :: s => s
  | s => s

/-- A whole text: digits after a plus sign or no sign. -/
def parseNat (bound : Nat) (s : List Char) : Option Nat :=
  match readNumber 10 none true bound (skipPlus s) with
  | some (n, []) => some n
  | _ => none

def Stops (radix : Nat) (s : List Char) : Prop := ∀ c ∈ s.head?, isDigit radix c = false

theorem digitOf_digitChar : ∀ d < 16, digitOf d.digitChar = some d := by
  decide

theorem toDigit_digitChar {b d : Nat} (hb : b ≤ 16) (hd : d < b) : toDigit b d.digitChar = some d := by
  unfold toDigit
  rw [digitOf_digitChar d (Nat.lt_of_lt_of_le hd hb)]
  simpa using hd

section
variable {b : Nat}

theorem isDigit_toDigits (hb : 1 < b) (hb16 : b ≤ 16) (n : Nat) : ∀ c ∈ Nat.toDigits b n, isDigit b c = true := by
  induction n using Nat.base_induction b hb with
  | single m hm =>
    rw [Nat.toDigits_of_lt_base hm]
    simp [isDigit, toDigit_digitChar hb16 hm]
  | digit m k hk hm ih =>
    intro c hc
    rw [← Nat.toDigits_append_toDigits hb hm hk, Nat.toDigits_of_lt_base hk, List.mem_append,
      List.mem_singleton] at hc
    rcases hc with hc | rfl
    · exact ih c hc
    · simp [isDigit, toDigit_digitChar hb16 hk]

theorem value_toDigits (hb : 1 < b) (hb16 : b ≤ 16) (n : Nat) : value b (Nat.toDigits b n) = n := by
  induction n using Nat.base_induction b hb with
  | single m hm =>
    rw [Nat.toDigits_of_lt_base hm]
    simp [value, toDigit_digitChar hb16 hm]
  | digit m k hk hm ih =>
    rw [← Nat.toDigits_append_toDigits hb hm hk, Nat.toDigits_of_lt_base hk]
    unfold value at ih ⊢
    rw [List.foldl_append, ih]
    simp [toDigit_digitChar hb16 hk]

theorem head_toDigits (hb : 1 < b) {n : Nat} (hn : 0 < n) : (Nat.toDigits b n).head? ≠ some '0' := by
  induction n using Nat.base_induction b hb with
  | single m hm =>
    rw [Nat.toDigits_of_lt_base hm]
    intro h
    have := Nat.digitChar_eq_zero.mp (Option.some.inj h)
    omega
  | digit m k hk hm ih =>
    rw [← Nat.toDigits_append_toDigits hb hm hk, List.head?_append_of_ne_nil _ Nat.toDigits_ne_nil]
    exact ih hm

theorem no_zero_prefix (hb : 1 < b) (n : Nat) :
    ¬ ((Nat.toDigits b n).head? = some '0' ∧ 1 < (Nat.toDigits b n).length) := by
  rintro ⟨hhead, hlen⟩
  by_cases hn : n = 0
  · subst hn
    simp at hlen
  · exact head_toDigits hb (by omega) hhead

theorem takeWhile_toDigits (hb : 1 < b) (hb16 : b ≤ 16) (n : Nat) {s : List Char} (hs : Stops b s) :
    (Nat.toDigits b n ++ s).takeWhile (isDigit b) = Nat.toDigits b n ∧
      (Nat.toDigits b n ++ s).dropWhile (isDigit b) = s := by
  rw [List.takeWhile_append_of_pos (isDigit_toDigits hb hb16 n),
    List.dropWhile_append_of_pos (isDigit_toDigits hb hb16 n)]
  cases s with
  | nil => simp
  | cons c s =>
    have hc : isDigit b c = false := hs c rfl
    simp [hc]

theorem readNumber_toDigits {maxDigits : Option Nat} {bound n : Nat} {s : List Char} (hb : 1 < b) (hb16 : b ≤ 16)
    (zeroPrefix : Bool) (hmax : ∀ m ∈ maxDigits, 0 < m ∧ n < b ^ m) (hn : n < bound) (hs : Stops b s) :
    readNumber b maxDigits zeroPrefix bound (Nat.toDigits b n ++ s) = some (n, s) := by
  obtain ⟨htake, hdrop⟩ := takeWhile_toDigits hb hb16 n hs
  have hlen : maxDigits.any (· < (Nat.toDigits b n).length) = false := by
    cases maxDigits with
    | none => rfl
    | some m =>
      obtain ⟨hm, hnm⟩ := hmax m rfl
      have := (Nat.length_toDigits_le_iff hb hm).mpr hnm
      simpa using this
  have hzero : ¬ (!zeroPrefix && (Nat.toDigits b n).head? = some '0' && 1 < (Nat.toDigits b n).length) = true := by
    intro h
    simp only [Bool.and_eq_true, decide_eq_true_eq] at h
    exact no_zero_prefix hb n ⟨h.1.2, h.2⟩
  unfold readNumber
  simp only [htake, hdrop, hlen, value_toDigits hb hb16, Nat.toDigits_ne_nil, if_neg hzero, if_pos hn, if_false]
  simp

theorem readNumber_none {maxDigits : Option Nat} {zeroPrefix : Bool} {bound : Nat} {s : List Char}
    (hs : Stops b s) : readNumber b maxDigits zeroPrefix bound s = none := by
  have htake : s.takeWhile (isDigit b) = [] := by
    cases s with
    | nil => rfl
    | cons c s =>
      have hc : isDigit b c = false := hs c rfl
      simp [hc]
  simp [readNumber, htake]

theorem readNumber_rest {maxDigits : Option Nat} {zeroPrefix : Bool} {bound n : Nat} {s s' : List Char}
    (h : readNumber b maxDigits zeroPrefix bound s = some (n, s')) : s' = s.dropWhile (isDigit b) := by
  unfold readNumber at h
  simp only at h
  repeat' split at h
  all_goals cases h
  rfl

end

theorem skipPlus_toDigits (n : Nat) : skipPlus (Nat.toDigits 10 n) = Nat.toDigits 10 n := by
  unfold skipPlus
  split
  · rename_i s h
    have hplus := isDigit_toDigits (b := 10) (by decide) (by decide) n '+' (by rw [h]; exact List.mem_cons_self)
    exact absurd hplus (by decide)
  · rfl

theorem parseNat_toDigits {bound n : Nat} (hn : n < bound) : parseNat bound (Nat.toDigits 10 n) = some n := by
  have hread : readNumber 10 none true bound (Nat.toDigits 10 n ++ []) = some (n, []) :=
    readNumber_toDigits (by decide) (by decide) true (by simp) hn (by simp [Stops])
  rw [List.append_nil] at hread
  unfold parseNat
  rw [skipPlus_toDigits, hread]

end Text
