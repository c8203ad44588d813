import Mathlib.Algebra.Group.Nat.Defs
import Mathlib.Order.Lattice
import Mathlib.Order.MinMax

/-!
# Machine arithmetic that panics

Unsigned integers of `w` bits as natural numbers. An operation whose result does
not fit, or whose precondition fails, is `none`.
-/

namespace Checked

variable {w a b c : Nat}

def add (w a b : Nat) : Option Nat := if a + b < 2 ^ w then some (a + b) else none

def sub (a b : Nat) : Option Nat := if b ≤ a then some (a - b) else none

def mul (w a b : Nat) : Option Nat := if a * b < 2 ^ w then some (a * b) else none

/-- `Ord::clamp` asserts that the lower bound is not above the upper one. -/
def clamp (x lo hi : Nat) : Option Nat := if lo ≤ hi then some (max lo (min x hi)) else none

theorem add_of_lt (h : a + b < 2 ^ w) : add w a b = some (a + b) := if_pos h

theorem sub_of_le (h : b ≤ a) : sub a b = some (a - b) := if_pos h

theorem mul_of_lt (h : a * b < 2 ^ w) : mul w a b = some (a * b) := if_pos h

theorem clamp_of_le {lo hi : Nat} (h : lo ≤ hi) (x : Nat) : clamp x lo hi = some (max lo (min x hi)) := if_pos h

theorem lt_of_add (h : add w a b = some c) : a + b < 2 ^ w := by
  by_contra hlt
  rw [add, if_neg hlt] at h
  cases h

theorem lt_of_mul (h : mul w a b = some c) : a * b < 2 ^ w := by
  by_contra hlt
  rw [mul, if_neg hlt] at h
  cases h

theorem le_of_clamp {x lo hi : Nat} (h : clamp x lo hi = some c) : lo ≤ hi := by
  by_contra hle
  rw [clamp, if_neg hle] at h
  cases h

end Checked
