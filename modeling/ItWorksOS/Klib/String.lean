import Mathlib.Data.List.TakeWhile
import Mathlib.Data.UInt

/-!
# Null-terminated strings

A pointer to a string is the memory from its address on; the string ends at the first null
character.
-/

namespace ItWorksOS

/-- The code of a character. -/
def charCode (c : Char) : UInt8 := c.toNat.toUInt8

/-- The characters of a null-terminated string. -/
def cstring (str : List UInt8) : List UInt8 := str.takeWhile (· ≠ 0)

theorem cstring_cons (c : UInt8) (str : List UInt8) :
    cstring (c :: str) = if c = 0 then [] else c :: cstring str := by
  rw [cstring, List.takeWhile_cons]
  by_cases null : c = 0 <;> simp [null, cstring]

theorem cstring_append_null (str : List UInt8) : cstring (str ++ [0]) = cstring str := by
  induction str with
  | nil => rfl
  | cons c str induction => rw [List.cons_append, cstring_cons, cstring_cons, induction]

theorem cstring_isPrefix (str : List UInt8) : cstring str <+: str := List.takeWhile_prefix _

/-- A string is as long as its memory exactly when that holds no null character. -/
theorem length_cstring_eq_iff (str : List UInt8) :
    (cstring str).length = str.length ↔ (0 : UInt8) ∉ str := by
  constructor
  · intro same member
    have all := (cstring_isPrefix str).eq_of_length same
    rw [← all] at member
    simpa using List.mem_takeWhile_imp member
  · intro absent
    rw [cstring, List.takeWhile_eq_self_iff.mpr]
    intro c member
    simp only [decide_eq_true_eq]
    rintro rfl
    exact absent member

end ItWorksOS
