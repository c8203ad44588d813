import Mathlib.Data.List.Basic

/-!
# Labelled transition systems with observations

A system takes partial steps, each of which may emit observations. A run is
judged by its trace, the observations it emitted in order, together with the
state it reached. `Run C` are the runs of which every step meets the side
condition `C`, which may look at the trace so far; `exec` replays a list of
actions, so that a concrete run is checked by evaluation.
-/

namespace Lts

/-- A step is `none` where the action is not enabled. -/
structure System (σ : Type*) (α : Type*) (ω : Type*) where
  init : σ → Prop
  step : σ → α → Option (σ × List ω)

section
variable {σ α ω : Type*} (M : System σ α ω)

inductive Run (C : List ω → σ → α → Prop) : List ω → σ → Prop
  | init {s} : M.init s → Run C [] s
  | step {tr s a s' os} : Run C tr s → C tr s a → M.step s a = some (s', os) → Run C (tr ++ os) s'

def always : List ω → σ → α → Prop := fun _ _ _ => True

variable {M}

theorem Run.mono {C D : List ω → σ → α → Prop} (h : ∀ tr s a, C tr s a → D tr s a) {tr : List ω} {s : σ}
    (hr : Run M C tr s) : Run M D tr s := by
  induction hr with
  | init h0 => exact .init h0
  | step _ hc hs ih => exact .step ih (h _ _ _ hc) hs

/-- A predicate of trace and state that holds initially and is kept by every allowed step. -/
theorem Run.invariant {C : List ω → σ → α → Prop} {I : List ω → σ → Prop} (h0 : ∀ s, M.init s → I [] s)
    (hk : ∀ tr s a s' os, Run M C tr s → I tr s → C tr s a → M.step s a = some (s', os) → I (tr ++ os) s')
    {tr : List ω} {s : σ} (hr : Run M C tr s) : I tr s := by
  induction hr with
  | init hi => exact h0 _ hi
  | step hr hc hs ih => exact hk _ _ _ _ _ hr ih hc hs

/-- Every observation was made by a step of the run, from the state a run had reached. -/
theorem Run.emitted {C : List ω → σ → α → Prop} {tr post : List ω} {s : σ} {o : ω} (hr : Run M C tr s) :
    ∀ {pre}, tr = pre ++ o :: post → ∃ tr₀ s₀ a s₁ os₁ os₂, Run M C tr₀ s₀ ∧ C tr₀ s₀ a ∧
      M.step s₀ a = some (s₁, os₁ ++ o :: os₂) ∧ pre = tr₀ ++ os₁ := by
  induction hr generalizing post with
  | init => intro pre h; simp at h
  | @step tr s a s' os hr hc hs ih =>
    intro pre h
    rcases List.append_eq_append_iff.mp h with ⟨mid, rfl, rfl⟩ | ⟨mid, rfl, hmid⟩
    · exact ⟨tr, s, a, s', mid, post, hr, hc, hs, rfl⟩
    · cases mid with
      | nil =>
        simp only [List.nil_append] at hmid
        subst hmid
        exact ⟨_, s, a, s', [], post, hr, hc, hs, by simp⟩
      | cons x mid =>
        simp only [List.cons_append, List.cons.injEq] at hmid
        obtain ⟨rfl, -⟩ := hmid
        exact ih rfl

variable (M) in
/-- Replay `as` from `s`; `none` if an action is not enabled or fails `ok`. -/
def exec (ok : List ω → σ → α → Bool) : List ω → σ → List α → Option (List ω × σ)
  | tr, s, [] => some (tr, s)
  | tr, s, a :: as =>
    if ok tr s a then
      match M.step s a with
      | none => none
      | some (s', os) => exec ok (tr ++ os) s' as
    else none

theorem Run.exec {C : List ω → σ → α → Prop} {ok : List ω → σ → α → Bool}
    (hok : ∀ tr s a, ok tr s a = true → C tr s a) :
    ∀ {as : List α} {tr tr' : List ω} {s s' : σ}, Run M C tr s → exec M ok tr s as = some (tr', s') →
      Run M C tr' s'
  | [], tr, tr', s, s', hr, he => by
    simp only [Lts.exec, Option.some.injEq, Prod.mk.injEq] at he
    obtain ⟨rfl, rfl⟩ := he
    exact hr
  | a :: as, tr, tr', s, s', hr, he => by
    simp only [Lts.exec] at he
    split at he
    · rename_i hg
      split at he
      · cases he
      · rename_i hs
        exact Run.exec hok (.step hr (hok _ _ _ hg) hs) he
    · cases he

theorem run_of_exec {C : List ω → σ → α → Prop} {ok : List ω → σ → α → Bool}
    (hok : ∀ tr s a, ok tr s a = true → C tr s a) {as : List α} {s : σ} (h0 : M.init s)
    (he : (exec M ok [] s as).isSome = true) :
    Run M C ((exec M ok [] s as).get he).1 ((exec M ok [] s as).get he).2 :=
  Run.exec hok (.init h0) (Option.eq_some_of_isSome he)

def anyway : List ω → σ → α → Bool := fun _ _ _ => true

theorem run_of_anyway {as : List α} {s : σ} (h0 : M.init s) (he : (exec M anyway [] s as).isSome = true) :
    Run M always ((exec M anyway [] s as).get he).1 ((exec M anyway [] s as).get he).2 :=
  run_of_exec (fun _ _ _ _ => trivial) h0 he

end

/-! ## Continuations -/

section
variable {σ α ω : Type*} (M : System σ α ω)

/-- How a run goes on from `tr` and `s` by steps that meet `C`. -/
inductive Path (C : List ω → σ → α → Prop) (tr : List ω) (s : σ) : List ω → σ → Prop
  | refl : Path C tr s tr s
  | step {tr' s' a s'' os} : Path C tr s tr' s' → C tr' s' a → M.step s' a = some (s'', os) →
      Path C tr s (tr' ++ os) s''

variable {M} {C : List ω → σ → α → Prop} {tr tr' : List ω} {s s' : σ}

theorem Path.invariant {I : List ω → σ → Prop} (hp : Path M C tr s tr' s') (h0 : I tr s)
    (hk : ∀ tr s a s' os, I tr s → C tr s a → M.step s a = some (s', os) → I (tr ++ os) s') : I tr' s' := by
  induction hp with
  | refl => exact h0
  | step _ hc hs ih => exact hk _ _ _ _ _ ih hc hs

theorem Path.trans {tr'' : List ω} {s'' : σ} (h : Path M C tr s tr' s') (h' : Path M C tr' s' tr'' s'') :
    Path M C tr s tr'' s'' := by
  induction h' with
  | refl => exact h
  | step _ hc hs ih => exact .step ih hc hs

theorem Run.path (h : Run M C tr s) (hp : Path M C tr s tr' s') : Run M C tr' s' := by
  induction hp with
  | refl => exact h
  | step _ hc hs ih => exact .step ih hc hs

/-- How a run goes on, with the number of its steps of a kind. -/
inductive Counted (M : System σ α ω) (C : σ → α → Prop) (kind : α → Bool) (s : σ) : Nat → σ → Prop
  | refl : Counted M C kind s 0 s
  | step {n s' a s'' os} : Counted M C kind s n s' → C s' a → M.step s' a = some (s'', os) →
      Counted M C kind s (if kind a then n + 1 else n) s''

/-- What every step of a kind lessens, and no other step makes more, bounds their number. -/
theorem Counted.bounded {D : σ → α → Prop} {kind : α → Bool} {rank : σ → Nat}
    (hk : ∀ s a s' os, D s a → M.step s a = some (s', os) → kind a = true → rank s' < rank s)
    (ho : ∀ s a s' os, D s a → M.step s a = some (s', os) → kind a = false → rank s' ≤ rank s) {n : Nat}
    (h : Counted M D kind s n s') : rank s' + n ≤ rank s := by
  induction h with
  | refl => exact Nat.le_refl _
  | @step n s' a s'' os _ hd hs ih =>
    cases hka : kind a with
    | true =>
      have := hk _ _ _ _ hd hs hka
      simp only [if_true]
      omega
    | false =>
      have := ho _ _ _ _ hd hs hka
      simp only [Bool.false_eq_true, if_false]
      omega

theorem Path.exec {ok : List ω → σ → α → Bool} (hok : ∀ tr s a, ok tr s a = true → C tr s a) :
    ∀ {as : List α} {tr' tr'' : List ω} {s' s'' : σ}, Path M C tr s tr' s' →
      exec M ok tr' s' as = some (tr'', s'') → Path M C tr s tr'' s''
  | [], tr', tr'', s', s'', hp, he => by
    simp only [Lts.exec, Option.some.injEq, Prod.mk.injEq] at he
    obtain ⟨rfl, rfl⟩ := he
    exact hp
  | a :: as, tr', tr'', s', s'', hp, he => by
    simp only [Lts.exec] at he
    split at he
    · rename_i hg
      split at he
      · cases he
      · rename_i hs
        exact Path.exec hok (.step hp (hok _ _ _ hg) hs) he
    · cases he

end

/-! ## Two systems -/

section
variable {σ α τ β ω : Type*} {M : System σ α ω} {N : System τ β ω} {C : List ω → σ → α → Prop} {R : σ → τ → Prop}

/-- Where every step of `M` is a step of `N` with the same observations, or one
without observations that `N` need not take, `N` follows every path of `M`. -/
theorem Path.simulates (hstep : ∀ tr s t a s' os, R s t → C tr s a → M.step s a = some (s', os) →
      os = [] ∧ R s' t ∨ ∃ b t', N.step t b = some (t', os) ∧ R s' t') {tr tr' : List ω} {s s' : σ} {t : τ}
    (hp : Path M C tr s tr' s') (h0 : R s t) : ∃ t', Path N always tr t tr' t' ∧ R s' t' := by
  induction hp with
  | refl => exact ⟨t, .refl, h0⟩
  | step _ hc hs ih =>
    obtain ⟨u, hu, hr⟩ := ih
    rcases hstep _ _ _ _ _ _ hr hc hs with ⟨rfl, hr⟩ | ⟨b, u', hs', hr⟩
    · rw [List.append_nil]
      exact ⟨u, hu, hr⟩
    · exact ⟨u', .step hu trivial hs', hr⟩

/-- Where `N` starts as `M` does and takes at most one step for each of `M`'s, with
traces of its own, `N` has a run for every run of `M`. -/
theorem Run.simulated {κ : Type*} {N : System τ β κ} {R : List ω → σ → List κ → τ → Prop}
    (h0 : ∀ s, M.init s → ∃ t, N.init t ∧ R [] s [] t)
    (hstep : ∀ tr s a s' os tr' t, Run N always tr' t → R tr s tr' t → C tr s a → M.step s a = some (s', os) →
      R (tr ++ os) s' tr' t ∨ ∃ b t' os', N.step t b = some (t', os') ∧ R (tr ++ os) s' (tr' ++ os') t')
    {tr : List ω} {s : σ} (hr : Run M C tr s) : ∃ tr' t, Run N always tr' t ∧ R tr s tr' t := by
  induction hr with
  | init hi =>
    obtain ⟨t, ht, hR⟩ := h0 _ hi
    exact ⟨[], t, .init ht, hR⟩
  | step _ hc hs ih =>
    obtain ⟨tr', t, hN, hR⟩ := ih
    rcases hstep _ _ _ _ _ _ _ hN hR hc hs with hR | ⟨b, t', os', hb, hR⟩
    · exact ⟨tr', t, hN, hR⟩
    · exact ⟨tr' ++ os', t', .step hN trivial hb, hR⟩

/-- Where `N` has some steps of its own for every step of `M`, it has a run for every run of `M`. -/
theorem Run.refined {κ : Type*} {N : System τ β κ} {D : List κ → τ → β → Prop} {R : List ω → σ → List κ → τ → Prop}
    (h0 : ∀ s, M.init s → ∃ t, N.init t ∧ R [] s [] t)
    (hstep : ∀ tr s a s' os tr' t, Run N D tr' t → R tr s tr' t → C tr s a → M.step s a = some (s', os) →
      ∃ tr'' t', Path N D tr' t tr'' t' ∧ R (tr ++ os) s' tr'' t')
    {tr : List ω} {s : σ} (hr : Run M C tr s) : ∃ tr' t, Run N D tr' t ∧ R tr s tr' t := by
  induction hr with
  | init hi =>
    obtain ⟨t, ht, hR⟩ := h0 _ hi
    exact ⟨[], t, .init ht, hR⟩
  | step _ hc hs ih =>
    obtain ⟨tr', t, hN, hR⟩ := ih
    obtain ⟨tr'', t', hp, hR⟩ := hstep _ _ _ _ _ _ _ hN hR hc hs
    exact ⟨tr'', t', hN.path hp, hR⟩

/-- Where every step of `M` is a step of `N` on a part of the state, or leaves that
part and what it observes alone, the part of `M`'s run is a run of `N`. -/
theorem Run.projected {κ : Type*} {N : System τ β κ} {D : List κ → τ → β → Prop} {f : σ → τ} {g : ω → Option κ}
    (h0 : ∀ s, M.init s → N.init (f s))
    (hstep : ∀ tr s a s' os, Run M C tr s → C tr s a → M.step s a = some (s', os) →
      (∃ b, D (tr.filterMap g) (f s) b ∧ N.step (f s) b = some (f s', os.filterMap g)) ∨
        f s' = f s ∧ os.filterMap g = []) {tr : List ω} {s : σ} (hr : Run M C tr s) :
    Run N D (tr.filterMap g) (f s) := by
  induction hr with
  | init hi => exact .init (h0 _ hi)
  | step hr hc hs ih =>
    rw [List.filterMap_append]
    rcases hstep _ _ _ _ _ hr hc hs with ⟨b, hd, hb⟩ | ⟨hf, hos⟩
    · exact .step ih hd hb
    · rw [hf, hos, List.append_nil]
      exact ih

/-- Where each step makes one observation, which shows its action, the actions determine the path. -/
theorem Path.determined {act : ω → α} (hact : ∀ s a s' os, M.step s a = some (s', os) → ∃ o, os = [o] ∧ act o = a)
    {s s₁ s₂ : σ} {tr₁ tr₂ : List ω} (h₁ : Path M always [] s tr₁ s₁) (h₂ : Path M always [] s tr₂ s₂)
    (hin : tr₁.map act = tr₂.map act) : tr₁ = tr₂ ∧ s₁ = s₂ := by
  induction h₁ generalizing tr₂ s₂ with
  | refl =>
    cases h₂ with
    | refl => exact ⟨rfl, rfl⟩
    | step _ _ hs =>
      obtain ⟨o, rfl, -⟩ := hact _ _ _ _ hs
      simp at hin
  | step _ _ hs ih =>
    obtain ⟨o, rfl, rfl⟩ := hact _ _ _ _ hs
    cases h₂ with
    | refl => simp at hin
    | step h₂ _ hs₂ =>
      obtain ⟨o₂, rfl, rfl⟩ := hact _ _ _ _ hs₂
      rw [List.map_append, List.map_append] at hin
      obtain ⟨htr, ho⟩ := List.append_inj' hin rfl
      obtain ⟨rfl, rfl⟩ := ih h₂ htr
      have ho : act o = act o₂ := List.singleton_inj.mp ho
      rw [← ho, hs] at hs₂
      cases hs₂
      exact ⟨rfl, rfl⟩

end

/-! ## Since the last `on`, no `off` -/

section
variable {ω : Type*}

theorem position_snoc {x o : ω} {post : List ω} : ∀ {tr pre : List ω}, tr ++ [x] = pre ++ o :: post →
    post = [] ∧ tr = pre ∧ x = o ∨ ∃ post', post = post' ++ [x] ∧ tr = pre ++ o :: post'
  | [], [], h => by
    simp only [List.nil_append, List.cons.injEq] at h
    exact Or.inl ⟨h.2.symm, rfl, h.1⟩
  | y :: tr, [], h => by
    simp only [List.cons_append, List.nil_append, List.cons.injEq] at h
    exact Or.inr ⟨tr, h.2.symm, by rw [h.1, List.nil_append]⟩
  | [], z :: pre, h => by simp at h
  | y :: tr, z :: pre, h => by
    simp only [List.cons_append, List.cons.injEq] at h
    obtain ⟨rfl, h⟩ := h
    rcases position_snoc h with ⟨hp, rfl, hx⟩ | ⟨post', hp, rfl⟩
    · exact Or.inl ⟨hp, rfl, hx⟩
    · exact Or.inr ⟨post', hp, rfl⟩

/-- An `on` observation was made and no `off` observation after it. -/
def Since (on off : ω → Prop) (tr : List ω) : Prop :=
  ∃ pre o post, tr = pre ++ o :: post ∧ on o ∧ ∀ x ∈ post, ¬ off x

variable {on off : ω → Prop} {tr os : List ω}

theorem not_since_nil : ¬ Since on off [] := by
  rintro ⟨pre, o, post, h, -⟩
  simp at h

theorem since_append :
    Since on off (tr ++ os) ↔ Since on off os ∨ Since on off tr ∧ ∀ x ∈ os, ¬ off x := by
  constructor
  · rintro ⟨pre, o, post, h, ho, hp⟩
    rcases List.append_eq_append_iff.mp h with ⟨mid, rfl, hmid⟩ | ⟨mid, rfl, hmid⟩
    · exact Or.inl ⟨mid, o, post, hmid, ho, hp⟩
    · cases mid with
      | nil => exact Or.inl ⟨[], o, post, by simpa using hmid.symm, ho, hp⟩
      | cons y mid =>
        simp only [List.cons_append, List.cons.injEq] at hmid
        obtain ⟨rfl, rfl⟩ := hmid
        refine Or.inr ⟨⟨pre, o, mid, rfl, ho, fun x hx => hp x (by simp [hx])⟩, fun x hx => hp x (by simp [hx])⟩
  · rintro (⟨pre, o, post, rfl, ho, hp⟩ | ⟨⟨pre, o, post, rfl, ho, hp⟩, hos⟩)
    · exact ⟨tr ++ pre, o, post, by simp, ho, hp⟩
    · refine ⟨pre, o, post ++ os, by simp, ho, fun x hx => ?_⟩
      rcases List.mem_append.mp hx with h | h
      · exact hp x h
      · exact hos x h

theorem since_singleton {x : ω} : Since on off [x] ↔ on x := by
  constructor
  · rintro ⟨pre, o, post, h, ho, -⟩
    cases pre with
    | nil => simp only [List.nil_append, List.cons.injEq] at h; exact h.1 ▸ ho
    | cons y pre => simp at h
  · exact fun h => ⟨[], x, [], rfl, h, by simp⟩

theorem since_cons {x : ω} : Since on off (x :: tr) ↔ Since on off tr ∨ on x ∧ ∀ y ∈ tr, ¬ off y := by
  constructor
  · rintro ⟨pre, o, post, h, ho, hp⟩
    cases pre with
    | nil =>
      simp only [List.nil_append, List.cons.injEq] at h
      obtain ⟨rfl, rfl⟩ := h
      exact Or.inr ⟨ho, hp⟩
    | cons y pre =>
      simp only [List.cons_append, List.cons.injEq] at h
      exact Or.inl ⟨pre, o, post, h.2, ho, hp⟩
  · rintro (⟨pre, o, post, rfl, ho, hp⟩ | ⟨ho, hp⟩)
    · exact ⟨x :: pre, o, post, rfl, ho, hp⟩
    · exact ⟨[], x, tr, rfl, ho, hp⟩

instance decidableSince [DecidablePred on] [DecidablePred off] : ∀ tr : List ω, Decidable (Since on off tr)
  | [] => isFalse not_since_nil
  | _ :: tr => haveI := decidableSince tr; decidable_of_iff _ since_cons.symm

end

/-! ## The last observation of a kind -/

section
variable {ω β : Type*} {f : ω → Option β} {tr os : List ω} {o : ω} {b : β}

/-- What `f` makes of the last observation it applies to. -/
def lastOf (f : ω → Option β) (tr : List ω) : Option β := (tr.filterMap f).getLast?

theorem lastOf_append : lastOf f (tr ++ os) = (lastOf f os).or (lastOf f tr) := by
  unfold lastOf
  rw [List.filterMap_append, List.getLast?_append]

theorem lastOf_none (h : ∀ o ∈ os, f o = none) : lastOf f os = none := by
  unfold lastOf
  rw [List.filterMap_eq_nil_iff.mpr h]
  rfl

theorem lastOf_congr {g : ω → Option β} (h : ∀ o ∈ tr, f o = g o) : lastOf f tr = lastOf g tr := by
  unfold lastOf
  rw [List.filterMap_congr h]

theorem lastOf_singleton (h : f o = some b) : lastOf f [o] = some b := by
  unfold lastOf
  rw [List.filterMap_cons_some h]
  rfl

theorem lastOf_append_none (h : ∀ o ∈ os, f o = none) : lastOf f (tr ++ os) = lastOf f tr := by
  rw [lastOf_append, lastOf_none h, Option.none_or]

theorem lastOf_snoc (h : f o = some b) : lastOf f (tr ++ [o]) = some b := by
  rw [lastOf_append, lastOf_singleton h, Option.some_or]

end

/-! ## Positions in a trace -/

section
variable {ω : Type*} {tr os : List ω} {P : ω → Prop} {k : Nat} {o : ω}

theorem get_append (h : tr[k]? = some o) (os : List ω) : (tr ++ os)[k]? = some o := by
  obtain ⟨hk, -⟩ := List.getElem?_eq_some_iff.mp h
  rw [List.getElem?_append_left hk, h]

theorem get_lt (h : tr[k]? = some o) : k < tr.length := (List.getElem?_eq_some_iff.mp h).1

theorem get_of_append (h : (tr ++ os)[k]? = some o) : tr[k]? = some o ∨ tr.length ≤ k ∧ o ∈ os := by
  rcases Nat.lt_or_ge k tr.length with hk | hk
  · rw [List.getElem?_append_left hk] at h
    exact Or.inl h
  · rw [List.getElem?_append_right hk] at h
    exact Or.inr ⟨hk, List.mem_of_getElem? h⟩

theorem get_snoc (tr : List ω) (o : ω) (os : List ω) : (tr ++ o :: os)[tr.length]? = some o := by
  rw [List.getElem?_append_right (Nat.le_refl _), Nat.sub_self]; rfl

/-- No observation of kind `P` stands between `k` and `n`. -/
def NoneBetween (P : ω → Prop) (k n : Nat) (tr : List ω) : Prop :=
  ∀ m o, k < m → m < n → tr[m]? = some o → ¬ P o

/-- No observation of kind `P` stands after `k`. -/
def NoneAfter (P : ω → Prop) (k : Nat) (tr : List ω) : Prop := NoneBetween P k tr.length tr

theorem NoneBetween.append {n : Nat} (h : NoneBetween P k n tr) (hn : n ≤ tr.length) :
    NoneBetween P k n (tr ++ os) := by
  intro m o hk hm ho
  rw [List.getElem?_append_left (by omega)] at ho
  exact h m o hk hm ho

theorem NoneAfter.append (h : NoneAfter P k tr) (hos : ∀ o ∈ os, ¬ P o) : NoneAfter P k (tr ++ os) := by
  intro m o hk _ ho
  rcases get_of_append ho with ho | ⟨-, ho⟩
  · exact h m o hk (get_lt ho) ho
  · exact hos o ho

theorem NoneAfter.between (h : NoneAfter P k tr) : NoneBetween P k tr.length (tr ++ os) :=
  NoneBetween.append h (Nat.le_refl _)

theorem noneAfter_last (tr : List ω) {o : ω} {os : List ω} (hos : ∀ x ∈ os, ¬ P x) :
    NoneAfter P tr.length (tr ++ o :: os) := by
  intro m x hk _ hx
  rw [List.getElem?_append_right (Nat.le_of_lt hk)] at hx
  obtain ⟨j, hj⟩ : ∃ j, m - tr.length = j + 1 := ⟨m - tr.length - 1, by omega⟩
  rw [hj, List.getElem?_cons_succ] at hx
  exact hos x (List.mem_of_getElem? hx)

end

end Lts
