import Mathlib.Tactic

/-!
# 32-bit words

Unsigned arithmetic modulo `2 ^ 32` on natural numbers.
-/

namespace Word32

/-- Addition. -/
def add (left right : ℕ) : ℕ := (left + right) % 2 ^ 32

/-- Subtraction. -/
def sub (left right : ℕ) : ℕ := (left + (2 ^ 32 - right % 2 ^ 32)) % 2 ^ 32

/-- Multiplication. -/
def mul (left right : ℕ) : ℕ := left * right % 2 ^ 32

theorem add_of_lt {left right : ℕ} (small : left + right < 2 ^ 32) :
    add left right = left + right := Nat.mod_eq_of_lt small

theorem sub_of_le {left right : ℕ} (ordered : right ≤ left) (small : left < 2 ^ 32) :
    sub left right = left - right := by
  rw [sub]
  omega

theorem mul_of_lt {left right : ℕ} (small : left * right < 2 ^ 32) :
    mul left right = left * right := Nat.mod_eq_of_lt small

end Word32
