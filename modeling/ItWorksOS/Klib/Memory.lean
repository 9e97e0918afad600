import ItWorksOS.Foundation.PagedMemory

/-!
# Memory routines of `klib/memory.c`
-/

namespace ItWorksOS

/-- `memset`. -/
def memset (mem : ByteMemory) (dst : ℕ) (val : UInt8) (n : ℕ) : ByteMemory := mem.fill dst val n

/-- `memcpy`, byte by byte in ascending order. -/
def memcpy (mem : ByteMemory) (dst src : ℕ) : ℕ → ByteMemory
  | 0 => mem
  | n + 1 =>
      let mem := memcpy mem dst src n
      mem.write8 (dst + n) (mem (src + n))

theorem memcpy_of_outside {mem : ByteMemory} {dst src n target : ℕ}
    (outside : target < dst ∨ dst + n ≤ target) : memcpy mem dst src n target = mem target := by
  induction n with
  | zero => rfl
  | succ n induction =>
      rw [memcpy, ByteMemory.write8, Function.update_of_ne (by omega)]
      exact induction (by omega)

/-- A copy between disjoint ranges. -/
theorem memcpy_apply {mem : ByteMemory} {dst src n offset : ℕ}
    (disjoint : src + n ≤ dst ∨ dst + n ≤ src) (inside : offset < n) :
    memcpy mem dst src n (dst + offset) = mem (src + offset) := by
  induction n with
  | zero => omega
  | succ n induction =>
      rw [memcpy, ByteMemory.write8]
      by_cases last : offset = n
      · subst last
        rw [Function.update_self]
        exact memcpy_of_outside (by omega)
      · rw [Function.update_of_ne (by omega)]
        exact induction (by omega) (by omega)

/-! ## `memmove` -/

/-- The backward loop of `memmove`, with `n` bytes left. -/
def memmoveBackward (mem : ByteMemory) (dst src : ℕ) : ℕ → ByteMemory
  | 0 => mem
  | n + 1 => memmoveBackward (mem.write8 (dst + n) (mem (src + n))) dst src n

/-- `memmove`. The forward loop is the one of `memcpy`. -/
def memmove (mem : ByteMemory) (dst src n : ℕ) : ByteMemory :=
  if dst = src then mem
  else if dst < src then memcpy mem dst src n
  else memmoveBackward mem dst src n

/-- Exactly the interval `[lower, upper)` of the copy has been written, with bytes of the original
memory. -/
def Moved (mem : ByteMemory) (dst src lower upper : ℕ) (after : ByteMemory) : Prop :=
  ∀ target, after target =
    if dst + lower ≤ target ∧ target < dst + upper then mem (target - dst + src) else mem target

section Memmove

variable {mem : ByteMemory} {dst src n : ℕ}

/-- A byte that is still original can be copied to either end of the written interval. -/
theorem Moved.write {lower upper lower' upper' i : ℕ} {after : ByteMemory}
    (moved : Moved mem dst src lower upper after)
    (original : src + i < dst + lower ∨ dst + upper ≤ src + i)
    (grows : ∀ offset, (lower ≤ offset ∧ offset < upper ∨ offset = i) ↔
      lower' ≤ offset ∧ offset < upper') :
    Moved mem dst src lower' upper' (after.write8 (dst + i) (after (src + i))) := by
  intro target
  have source : after (src + i) = mem (src + i) := by
    rw [moved (src + i), if_neg (by omega)]
  rw [ByteMemory.write8, Function.update_apply, source, moved target]
  by_cases written : target = dst + i
  · have inside := (grows i).mp (.inr rfl)
    rw [if_pos written, if_pos (by omega), written, Nat.add_sub_cancel_left, Nat.add_comm]
  · rw [if_neg written]
    by_cases before : dst ≤ target
    · have range := grows (target - dst)
      refine if_congr ?_ rfl rfl
      omega
    · rw [if_neg (by omega), if_neg (by omega)]

/-- The forward loop reads above the bytes it has written. -/
theorem memcpy_moved (below : dst < src) : Moved mem dst src 0 n (memcpy mem dst src n) := by
  induction n with
  | zero => exact fun target => (if_neg (by omega)).symm
  | succ n induction => exact induction.write (by omega) fun offset => by omega

/-- The backward loop reads below the bytes it has written. -/
theorem memmoveBackward_moved (above : src < dst) {upper : ℕ} {after : ByteMemory}
    (moved : Moved mem dst src n upper after) (room : n ≤ upper) :
    Moved mem dst src 0 upper (memmoveBackward after dst src n) := by
  induction n generalizing after with
  | zero => exact moved
  | succ n induction =>
      exact induction (moved.write (by omega) fun offset => by omega) (by omega)

theorem memmove_moved (mem : ByteMemory) (dst src n : ℕ) :
    Moved mem dst src 0 n (memmove mem dst src n) := by
  rw [memmove]
  split_ifs with same below
  · subst same
    intro target
    split_ifs with inside
    · rw [Nat.sub_add_cancel (by omega)]
    · rfl
  · exact memcpy_moved below
  · exact memmoveBackward_moved (by omega) (fun target => (if_neg (by omega)).symm) le_rfl

/-- `memmove` copies the original bytes and changes nothing else, whether or not the ranges overlap,
and does what `memcpy` does when they do not. -/
theorem memmove_eq (mem : ByteMemory) (dst src n : ℕ) :
    (∀ i < n, memmove mem dst src n (dst + i) = mem (src + i)) ∧
      (∀ target, target < dst ∨ dst + n ≤ target → memmove mem dst src n target = mem target) ∧
      (src + n ≤ dst ∨ dst + n ≤ src → memcpy mem dst src n = memmove mem dst src n) := by
  have moved := memmove_moved mem dst src n
  have copied : ∀ i < n, memmove mem dst src n (dst + i) = mem (src + i) := by
    intro i inside
    rw [moved (dst + i), if_pos (by omega), Nat.add_sub_cancel_left, Nat.add_comm]
  have kept : ∀ target, target < dst ∨ dst + n ≤ target →
      memmove mem dst src n target = mem target := by
    intro target outside
    rw [moved target, if_neg (by omega)]
  refine ⟨copied, kept, fun disjoint => funext fun target => ?_⟩
  by_cases outside : target < dst ∨ dst + n ≤ target
  · rw [memcpy_of_outside outside, kept target outside]
  · obtain ⟨i, rfl⟩ : ∃ i, target = dst + i := ⟨target - dst, by omega⟩
    rw [memcpy_apply disjoint (by omega), copied i (by omega)]

end Memmove

end ItWorksOS
