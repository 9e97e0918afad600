import Mathlib.Tactic

/-!
# Words packed from an aligned base and flag bits

A word `base * 2 ^ shift + flags` with `flags < 2 ^ shift` carries two independent fields. The
lemmas below turn the masks that extract them into division and remainder.
-/

namespace PackedWord

/-- A mask of `width` bits above `shift` selects a field of the word. -/
theorem and_field (value width shift : ℕ) :
    value &&& ((2 ^ width - 1) * 2 ^ shift) = value / 2 ^ shift % 2 ^ width * 2 ^ shift := by
  apply Nat.eq_of_testBit_eq
  intro index
  rw [Nat.testBit_and, Nat.testBit_mul_two_pow, Nat.testBit_mul_two_pow,
    Nat.testBit_two_pow_sub_one,
    Nat.testBit_mod_two_pow, Nat.testBit_div_two_pow]
  by_cases above : shift ≤ index
  · rw [Nat.sub_add_cancel above]
    simp only [above, decide_true, Bool.true_and]
    exact Bool.and_comm _ _
  · simp [above]

/-- A single-bit mask tests one bit of the word. -/
theorem and_bit_eq_zero (value position : ℕ) :
    value &&& 2 ^ position = 0 ↔ value / 2 ^ position % 2 = 0 := by
  have field := and_field value 1 position
  rw [show (2 ^ 1 - 1) * 2 ^ position = 2 ^ position by simp] at field
  rw [field, Nat.mul_eq_zero]
  simp

/-- Joining an aligned base with small flags is addition. -/
theorem or_flags (base : ℕ) {flags shift : ℕ} (small : flags < 2 ^ shift) :
    base * 2 ^ shift ||| flags = base * 2 ^ shift + flags := by
  rw [Nat.mul_comm, Nat.two_pow_add_eq_or_of_lt small]

end PackedWord
