import Mathlib.Data.Nat.ModEq
import Mathlib.Data.List.Basic

/-!
# Circular buffers

Cells indexed modulo a capacity hold a list from a starting position on. Appending and dropping
the oldest element only move the ends.
-/

namespace CircularBuffer

variable {α : Type*} {cap start start' : ℕ} {cells : ℕ → α} {items : List α}

/-- The cells hold the items in order, from the starting position on. -/
def Holds (cap : ℕ) (cells : ℕ → α) (start : ℕ) (items : List α) : Prop :=
  ∀ i item, items[i]? = some item → cells ((start + i) % cap) = item

theorem Holds.nil : Holds cap cells start [] := by
  intro i item at_i
  cases at_i

theorem Holds.start_congr (holds : Holds cap cells start items)
    (same : start' ≡ start [MOD cap]) : Holds cap cells start' items := by
  intro i item at_i
  rw [show (start' + i) % cap = (start + i) % cap from same.add_right i]
  exact holds i item at_i

theorem Holds.drop_one (holds : Holds cap cells start items) :
    Holds cap cells (start + 1) (items.drop 1) := by
  intro i item at_i
  rw [List.getElem?_drop] at at_i
  rw [Nat.add_assoc]
  exact holds (1 + i) item at_i

/-- Writing behind the last item appends to the list. -/
theorem Holds.append (holds : Holds cap cells start items) (room : items.length < cap) (item : α) :
    Holds cap (Function.update cells ((start + items.length) % cap) item) start
      (items ++ [item]) := by
  intro i old at_i
  rcases Nat.lt_trichotomy i items.length with inside | rfl | outside
  · rw [List.getElem?_append_left inside] at at_i
    rw [Function.update_of_ne, holds i old at_i]
    intro same
    have congruent : i ≡ items.length [MOD cap] := Nat.ModEq.add_left_cancel' start same
    exact inside.ne (congruent.eq_of_lt_of_lt (inside.trans room) room)
  · rw [List.getElem?_append_right le_rfl, Nat.sub_self, List.getElem?_cons_zero] at at_i
    rw [Function.update_self, Option.some.inj at_i]
  · rw [List.getElem?_eq_none (by rw [List.length_append, List.length_singleton]; omega)] at at_i
    cases at_i

/-- The last `cap` items of a list. -/
def window (cap : ℕ) (items : List α) : List α := items.drop (items.length - cap)

theorem length_window (cap : ℕ) (items : List α) :
    (window cap items).length = min cap items.length := by
  rw [window, List.length_drop]
  omega

/-- Appending an item drops the oldest one of a full window. -/
theorem window_append (positive : 0 < cap) (items : List α) (item : α) :
    window cap (items ++ [item]) =
      (if (window cap items).length = cap then (window cap items).drop 1
        else window cap items) ++ [item] := by
  rw [length_window]
  simp only [window, List.length_append, List.length_singleton, List.drop_drop]
  split_ifs with full
  · have succ : items.length + 1 - cap = items.length - cap + 1 := by omega
    rw [List.drop_append_of_le_length (by omega), succ]
  · have all : items.length + 1 - cap = 0 := by omega
    have short : items.length - cap = 0 := by omega
    rw [all, short, List.drop_zero, List.drop_zero]

end CircularBuffer
