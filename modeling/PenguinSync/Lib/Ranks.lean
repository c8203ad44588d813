import Mathlib.Data.List.Sort

/-!
# Places in a sorted list

A stable sort by a key moves an element to its rank: the number of elements with
a smaller key, and of those with the same key that stand before it.
-/

namespace Ranks

section
variable {α κ : Type*} [LinearOrder κ] (key : α → κ)

/-- Elements with equal keys keep their order. -/
def sortBy (l : List α) : List α := l.insertionSort fun a b => key a ≤ key b

def rank (pre : List α) (a : α) (post : List α) : Nat :=
  pre.countP (fun b => key b ≤ key a) + post.countP fun b => ¬ key a ≤ key b

theorem sortBy_perm (l : List α) : (sortBy key l).Perm l := List.perm_insertionSort _ l

theorem sortBy_sorted (l : List α) : (sortBy key l).Pairwise fun a b => key a ≤ key b :=
  haveI : Std.Total fun a b : α => key a ≤ key b := ⟨fun _ _ => le_total _ _⟩
  haveI : IsTrans α fun a b => key a ≤ key b := ⟨fun _ _ _ => le_trans⟩
  List.pairwise_insertionSort _ l

/-! ## One insertion -/

section
variable {key} {a b d : α} {l : List α}

theorem le_of_head (h : (b :: l).Pairwise fun a b => key a ≤ key b) (hab : key a ≤ key b) (hd : d ∈ b :: l) :
    key a ≤ key d := by
  rcases List.mem_cons.mp hd with rfl | hd
  · exact hab
  · exact hab.trans (List.rel_of_pairwise_cons h hd)

theorem no_smaller (h : (b :: l).Pairwise fun a b => key a ≤ key b) (hab : key a ≤ key b) :
    (b :: l).countP (fun b => ¬ key a ≤ key b) = 0 :=
  List.countP_eq_zero.mpr fun c hc => by simpa using le_of_head h hab hc

theorem insert_self (h : l.Pairwise fun a b => key a ≤ key b) :
    (l.orderedInsert (fun a b => key a ≤ key b) a)[l.countP fun b => ¬ key a ≤ key b]? = some a := by
  induction l with
  | nil => rfl
  | cons b l ih =>
    by_cases hab : key a ≤ key b
    · rw [List.orderedInsert_cons, if_pos hab, no_smaller h hab]
      rfl
    · rw [List.orderedInsert_cons, if_neg hab, List.countP_cons_of_pos (by simpa using hab), List.getElem?_cons_succ]
      exact ih h.of_cons

theorem insert_other (h : l.Pairwise fun a b => key a ≤ key b) : ∀ {k : Nat}, l[k]? = some d →
    (l.orderedInsert (fun a b => key a ≤ key b) a)[if key a ≤ key d then k + 1 else k]? = some d := by
  induction l with
  | nil => exact fun hk => nomatch hk
  | cons b l ih =>
    intro k hk
    by_cases hab : key a ≤ key b
    · have had : key a ≤ key d := le_of_head h hab (List.mem_of_getElem? hk)
      rw [List.orderedInsert_cons, if_pos hab, if_pos had, List.getElem?_cons_succ]
      exact hk
    · rw [List.orderedInsert_cons, if_neg hab]
      cases k with
      | zero =>
        obtain rfl : b = d := Option.some.inj hk
        rw [if_neg hab]
        rfl
      | succ k =>
        rw [List.getElem?_cons_succ] at hk
        have hrest := ih h.of_cons hk
        by_cases had : key a ≤ key d
        · rw [if_pos had] at hrest ⊢
          exact hrest
        · rw [if_neg had] at hrest ⊢
          exact hrest

theorem of_insert (h : l.Pairwise fun a b => key a ≤ key b) : ∀ {k : Nat},
    (l.orderedInsert (fun a b => key a ≤ key b) a)[k]? = some d →
      d = a ∧ k = l.countP (fun b => ¬ key a ≤ key b) ∨
        ∃ k', l[k']? = some d ∧ k = if key a ≤ key d then k' + 1 else k' := by
  induction l with
  | nil =>
    intro k hk
    cases k with
    | zero => exact Or.inl ⟨(Option.some.inj hk).symm, rfl⟩
    | succ k => cases hk
  | cons b l ih =>
    intro k hk
    by_cases hab : key a ≤ key b
    · rw [List.orderedInsert_cons, if_pos hab] at hk
      cases k with
      | zero => exact Or.inl ⟨(Option.some.inj hk).symm, (no_smaller h hab).symm⟩
      | succ k =>
        rw [List.getElem?_cons_succ] at hk
        have had : key a ≤ key d := le_of_head h hab (List.mem_of_getElem? hk)
        exact Or.inr ⟨k, hk, by rw [if_pos had]⟩
    · rw [List.orderedInsert_cons, if_neg hab] at hk
      cases k with
      | zero =>
        obtain rfl : b = d := Option.some.inj hk
        exact Or.inr ⟨0, rfl, by rw [if_neg hab]⟩
      | succ k =>
        rw [List.getElem?_cons_succ] at hk
        rcases ih h.of_cons hk with ⟨rfl, rfl⟩ | ⟨k', hk', rfl⟩
        · exact Or.inl ⟨rfl, by rw [List.countP_cons_of_pos (by simpa using hab)]⟩
        · refine Or.inr ⟨k' + 1, hk', ?_⟩
          by_cases had : key a ≤ key d
          · rw [if_pos had, if_pos had]
          · rw [if_neg had, if_neg had]

end

/-! ## The whole list -/

theorem sortBy_cons (a : α) (l : List α) :
    sortBy key (a :: l) = (sortBy key l).orderedInsert (fun a b => key a ≤ key b) a := rfl

theorem sortBy_rank (a : α) (post : List α) : ∀ pre : List α,
    (sortBy key (pre ++ a :: post))[rank key pre a post]? = some a
  | [] => by
    have hcount := (sortBy_perm key post).countP_eq fun b => decide (¬ key a ≤ key b)
    rw [List.nil_append, sortBy_cons, rank, List.countP_nil, Nat.zero_add, ← hcount]
    exact insert_self (sortBy_sorted key post)
  | b :: pre => by
    have hpre := insert_other (a := b) (sortBy_sorted key _) (sortBy_rank a post pre)
    rw [List.cons_append, sortBy_cons]
    by_cases hba : key b ≤ key a
    · rw [if_pos hba] at hpre
      rw [rank, List.countP_cons_of_pos (by simpa using hba), Nat.add_right_comm]
      exact hpre
    · rw [if_neg hba] at hpre
      rw [rank, List.countP_cons_of_neg (by simpa using hba)]
      exact hpre

/-- Every place of the sorted list is a rank. -/
theorem rank_of_sortBy {d : α} : ∀ {l : List α} {k : Nat}, (sortBy key l)[k]? = some d →
    ∃ pre post, l = pre ++ d :: post ∧ rank key pre d post = k
  | [], k, h => nomatch h
  | b :: l, k, h => by
    rw [sortBy_cons] at h
    rcases of_insert (sortBy_sorted key l) h with ⟨rfl, rfl⟩ | ⟨k', hk', rfl⟩
    · refine ⟨[], l, rfl, ?_⟩
      rw [rank, List.countP_nil, Nat.zero_add]
      exact ((sortBy_perm key l).countP_eq _).symm
    · obtain ⟨pre, post, rfl, rfl⟩ := rank_of_sortBy hk'
      refine ⟨b :: pre, post, rfl, ?_⟩
      by_cases hbd : key b ≤ key d
      · rw [if_pos hbd, rank, List.countP_cons_of_pos (by simpa using hbd), Nat.add_right_comm]
        rfl
      · rw [if_neg hbd, rank, List.countP_cons_of_neg (by simpa using hbd)]
        rfl

end

end Ranks
