import Mathlib.Logic.Function.Basic
import Mathlib.Data.List.Basic

/-!
# Files under failures and crashes

A disk is the bytes of its files. A program is a list of operations; it runs to
its end, or it stops in one of them, by an error or a crash. Operations take
effect in the order in which they are made, and a rename in one go; of a write
that is cut off a prefix may have arrived, over the file's old content.
-/

namespace Files

abbrev Disk (ρ : Type*) := ρ → Option (List UInt8)

inductive Op (ρ : Type*) where
  | createDirAll (dir : ρ)
  | write (path : ρ) (bytes : List UInt8)
  | setPermissions (path : ρ) (mode : Nat)
  | rename (src dst : ρ)

/-- `stopped n cut`: the first `n` operations are done, and the next one, if there
is one, is not, or a write of which `cut` bytes have arrived. -/
inductive Ending where
  | completed
  | stopped (n : Nat) (cut : Option Nat)
  deriving DecidableEq

section
variable {ρ : Type*} [DecidableEq ρ]

def Op.done (d : Disk ρ) : Op ρ → Option (Disk ρ)
  | .createDirAll _ => some d
  | .write path bytes => some (Function.update d path (some bytes))
  | .setPermissions path _ => if (d path).isSome then some d else none
  | .rename src dst => (d src).map fun bytes => Function.update (Function.update d src none) dst (some bytes)

def Op.cut (d : Disk ρ) : Op ρ → Option Nat → Disk ρ
  | .write path bytes, some n => Function.update d path (some (bytes.take n))
  | _, _ => d

/-- The disk a program leaves, and whether it ran to its end. -/
def run (d : Disk ρ) : List (Op ρ) → Ending → Disk ρ × Bool
  | [], .completed => (d, true)
  | [], .stopped _ _ => (d, false)
  | op :: _, .stopped 0 cut => (op.cut d cut, false)
  | op :: ops, .stopped (n + 1) cut =>
    match op.done d with
    | some d => run d ops (.stopped n cut)
    | none => (d, false)
  | op :: ops, .completed =>
    match op.done d with
    | some d => run d ops .completed
    | none => (d, false)

/-! ## Replacing a file -/

section
variable {d : Disk ρ} {dir tmp path : ρ} {bytes : List UInt8}

def replace (dir tmp path : ρ) (bytes : List UInt8) : List (Op ρ) :=
  [.createDirAll dir, .write tmp bytes, .rename tmp path]

theorem replace_completes {e : Ending} : (run d (replace dir tmp path bytes) e).2 = true ↔ e = .completed := by
  match e with
  | .completed => simp [run, replace, Op.done]
  | .stopped 0 _ | .stopped 1 _ | .stopped 2 _ | .stopped (_ + 3) _ => simp [run, replace, Op.done]

theorem replace_old (htmp : path ≠ tmp) {n : Nat} (hn : n < 3) (cut : Option Nat) :
    (run d (replace dir tmp path bytes) (.stopped n cut)).1 path = d path := by
  match n with
  | 0 => rfl
  | 1 =>
    cases cut with
    | none => rfl
    | some n => exact Function.update_of_ne htmp ..
  | 2 => exact Function.update_of_ne htmp ..

theorem replace_new {e : Ending} (h : e = .completed ∨ ∃ n cut, e = .stopped (n + 3) cut) :
    (run d (replace dir tmp path bytes) e).1 path = some bytes := by
  rcases h with rfl | ⟨n, cut, rfl⟩
  · simp [run, replace, Op.done]
  · simp [run, replace, Op.done]

theorem replace_atomic (htmp : path ≠ tmp) (e : Ending) :
    (run d (replace dir tmp path bytes) e).1 path = some bytes ∨
      e ≠ .completed ∧ (run d (replace dir tmp path bytes) e).1 path = d path := by
  cases e with
  | completed => exact Or.inl (replace_new (Or.inl rfl))
  | stopped n cut =>
    by_cases hn : n < 3
    · exact Or.inr ⟨nofun, replace_old htmp hn cut⟩
    · exact Or.inl (replace_new (Or.inr ⟨n - 3, cut, by rw [Nat.sub_add_cancel (Nat.le_of_not_lt hn)]⟩))

end

/-! ## One program after another -/

section
variable {α : Type*}

def runAll (ops : α → List (Op ρ)) : Disk ρ → List (α × Ending) → Disk ρ × List (α × Bool)
  | d, [] => (d, [])
  | d, (a, e) :: calls =>
    let r := run d (ops a) e
    let rest := runAll ops r.1 calls
    (rest.1, (a, r.2) :: rest.2)

/-- `a` is what the last call that ran to its end was given, or one after it. -/
def Latest (log : List (α × Bool)) (a : α) : Prop :=
  ∃ pre b post, log = pre ++ (a, b) :: post ∧ ∀ x ∈ post, x.2 = false

theorem Latest.cons {log : List (α × Bool)} {a : α} (h : Latest log a) (x : α × Bool) : Latest (x :: log) a := by
  obtain ⟨pre, b, post, rfl, hpost⟩ := h
  exact ⟨x :: pre, b, post, rfl, hpost⟩

theorem runAll_calls {ops : α → List (Op ρ)} {x : α × Bool} : ∀ {d : Disk ρ} {calls : List (α × Ending)},
    x ∈ (runAll ops d calls).2 → ∃ e, (x.1, e) ∈ calls
  | d, (a, e) :: calls, hx => by
    rcases List.mem_cons.mp hx with rfl | hx
    · exact ⟨e, List.mem_cons_self⟩
    · obtain ⟨e', he'⟩ := runAll_calls hx
      exact ⟨e', List.mem_cons_of_mem _ he'⟩

theorem Latest.mem_calls {ops : α → List (Op ρ)} {d : Disk ρ} {calls : List (α × Ending)} {a : α}
    (h : Latest (runAll ops d calls).2 a) : ∃ e, (a, e) ∈ calls := by
  obtain ⟨pre, b, post, hlog, -⟩ := h
  have hmem : (a, b) ∈ (runAll ops d calls).2 := by
    rw [hlog]
    exact List.mem_append_right _ List.mem_cons_self
  exact runAll_calls hmem

/-- Where each call replaces the file or leaves it, and replaces it if it runs to
its end, the file holds what the latest call put there. -/
theorem runAll_latest {ops : α → List (Op ρ)} {bytes : α → List UInt8} {path : ρ}
    (hops : ∀ a d e, (run d (ops a) e).1 path = some (bytes a) ∨
      (run d (ops a) e).2 = false ∧ (run d (ops a) e).1 path = d path) :
    ∀ (d : Disk ρ) (calls : List (α × Ending)),
      (∃ a, Latest (runAll ops d calls).2 a ∧ (runAll ops d calls).1 path = some (bytes a)) ∨
        (∀ x ∈ (runAll ops d calls).2, x.2 = false) ∧ (runAll ops d calls).1 path = d path
  | d, [] => Or.inr ⟨nofun, rfl⟩
  | d, (a, e) :: calls => by
    rcases runAll_latest hops (run d (ops a) e).1 calls with ⟨b, hb, hd⟩ | ⟨hnone, hd⟩
    · exact Or.inl ⟨b, hb.cons _, hd⟩
    · rcases hops a d e with hnew | ⟨hstop, hold⟩
      · exact Or.inl ⟨a, ⟨[], _, _, rfl, hnone⟩, hd.trans hnew⟩
      · refine Or.inr ⟨fun x hx => ?_, hd.trans hold⟩
        rcases List.mem_cons.mp hx with rfl | hx
        · exact hstop
        · exact hnone x hx

end

end

end Files
