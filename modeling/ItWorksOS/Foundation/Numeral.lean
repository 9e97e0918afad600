import Mathlib.Data.Nat.Digits.Lemmas
import Mathlib.Tactic

/-!
# Numerals

A number is printed by storing its digits lowest first in consecutive cells and reversing these
cells in place. The result is the canonical numeral, which determines the number.
-/

namespace Numeral

/-- The canonical digits of a number, highest first. -/
def digits (base value : ℕ) : List ℕ := if value = 0 then [0] else (Nat.digits base value).reverse

section Digits

variable {base value : ℕ}

theorem digits_of_ne_zero (positive : value ≠ 0) :
    digits base value = (Nat.digits base value).reverse := if_neg positive

theorem digits_ne_nil (base value : ℕ) : digits base value ≠ [] := by
  rw [digits]
  split_ifs with zero
  · exact List.cons_ne_nil 0 []
  · rw [ne_eq, List.reverse_eq_nil_iff]
    exact Nat.digits_ne_nil_iff_ne_zero.mpr zero

/-- Only zero has a numeral that starts with a zero. -/
theorem digits_head_ne_zero (positive : value ≠ 0) : (digits base value).head? ≠ some 0 := by
  rw [digits_of_ne_zero positive, List.head?_reverse,
    List.getLast?_eq_some_getLast (Nat.digits_ne_nil_iff_ne_zero.mpr positive), ne_eq,
    Option.some.injEq]
  exact Nat.getLast_digit_ne_zero base positive

theorem digits_lt (base_ge : 2 ≤ base) {digit : ℕ} (member : digit ∈ digits base value) :
    digit < base := by
  rw [digits] at member
  split_ifs at member
  · obtain rfl := List.mem_singleton.mp member
    omega
  · exact Nat.digits_lt_base base_ge (List.mem_reverse.mp member)

theorem digits_length_le (base_ge : 2 ≤ base) {count : ℕ} (positive : 0 < count)
    (small : value < base ^ count) : (digits base value).length ≤ count := by
  rw [digits]
  split_ifs
  · exact positive
  · rw [List.length_reverse]
    exact (Nat.digits_length_le_iff base_ge value).mpr small

/-- A numeral without superfluous zeros. -/
structure Canonical (base : ℕ) (digits : List ℕ) : Prop where
  nonempty : digits ≠ []
  lt : ∀ digit ∈ digits, digit < base
  leading : digits.head? = some 0 → digits = [0]

theorem digits_canonical (base_ge : 2 ≤ base) (value : ℕ) : Canonical base (digits base value) := by
  refine ⟨digits_ne_nil base value, fun digit => digits_lt base_ge, fun leading => ?_⟩
  by_cases zero : value = 0
  · rw [zero]
    rfl
  · exact absurd leading (digits_head_ne_zero zero)

/-- Reading the digits from left to right returns the number. -/
theorem foldl_digits (base value : ℕ) :
    (digits base value).foldl (fun result digit => result * base + digit) 0 = value := by
  rw [digits]
  split_ifs with zero
  · rw [zero]
    simp only [List.foldl_cons, List.foldl_nil, Nat.zero_mul, Nat.zero_add]
  · rw [List.foldl_reverse]
    calc (Nat.digits base value).foldr (fun digit result => result * base + digit) 0
        = (Nat.digits base value).foldr (fun digit result => digit + base * result) 0 := by
          simp only [Nat.add_comm, Nat.mul_comm]
      _ = Nat.ofDigits base (Nat.digits base value) :=
          (Nat.ofDigits_eq_foldr base (Nat.digits base value)).symm
      _ = value := Nat.ofDigits_digits base value

end Digits

/-! ## Storing digits -/

section Cells

variable {α : Type*}

/-- The items lie in consecutive cells from a position on, and the other cells are as before. -/
structure Stored (before after : ℕ → α) (start : ℕ) (items : List α) : Prop where
  inside : ∀ i, (inside : i < items.length) → after (start + i) = items[i]
  outside : ∀ target, target < start ∨ start + items.length ≤ target → after target = before target

variable {before after : ℕ → α} {start : ℕ} {items : List α}

theorem Stored.nil (cells : ℕ → α) (start : ℕ) : Stored cells cells start [] :=
  ⟨nofun, fun _ _ => rfl⟩

/-- The cell behind the last item plays no part in what is stored. -/
theorem Stored.update_behind (stored : Stored before after start items) (item : α) :
    Stored (Function.update before (start + items.length) item)
      (Function.update after (start + items.length) item) start items := by
  refine ⟨fun i inside => ?_, fun target outside => ?_⟩
  · rw [Function.update_of_ne (by omega), stored.inside i inside]
  · by_cases behind : target = start + items.length
    · rw [behind, Function.update_self, Function.update_self]
    · rw [Function.update_of_ne behind, Function.update_of_ne behind,
        stored.outside target outside]

/-- An item that was behind the others is the last one. -/
theorem Stored.concat {item : α}
    (stored : Stored (Function.update before (start + items.length) item) after start items) :
    Stored before after start (items ++ [item]) := by
  refine ⟨fun i inside => ?_, fun target outside => ?_⟩
  · rw [List.length_append, List.length_singleton] at inside
    by_cases last : i = items.length
    · subst last
      rw [stored.outside _ (.inr le_rfl), Function.update_self, List.getElem_concat_length rfl]
    · rw [stored.inside i (by omega), List.getElem_append_left (by omega)]
  · rw [List.length_append, List.length_singleton] at outside
    rw [stored.outside target (by omega), Function.update_of_ne (by omega)]

/-- An item that was before the others is the first one. -/
theorem Stored.cons {item : α}
    (stored : Stored (Function.update before start item) after (start + 1) items) :
    Stored before after start (item :: items) := by
  refine ⟨fun i inside => ?_, fun target outside => ?_⟩
  · cases i with
    | zero =>
        rw [stored.outside _ (.inl (by omega)), Nat.add_zero, Function.update_self]
        rfl
    | succ i =>
        rw [List.getElem_cons_succ, ← stored.inside i (by simpa using inside), Nat.add_assoc,
          Nat.add_comm 1]
  · rw [List.length_cons] at outside
    rw [stored.outside target (by omega), Function.update_of_ne (by omega)]

theorem Stored.map_range (stored : Stored before after start items) :
    ((List.range items.length).map fun i => after (start + i)) = items := by
  refine List.ext_getElem (by simp) fun i inside _ => ?_
  rw [List.getElem_map, List.getElem_range, stored.inside i (by simpa using inside)]

/-- Store the digits of a number from a position on, lowest first, and return the position behind
them. There is no result when they take more than `room` cells. -/
def storeDigits (char : ℕ → α) (base : ℕ) : ℕ → (ℕ → α) → ℕ → ℕ → Option ((ℕ → α) × ℕ)
  | 0, cells, pos, value => if value = 0 then some (cells, pos) else none
  | room + 1, cells, pos, value =>
      if value = 0 then some (cells, pos)
      else
        storeDigits char base room (Function.update cells pos (char (value % base))) (pos + 1)
          (value / base)

theorem storeDigits_stored (char : ℕ → α) {base : ℕ} (base_ge : 2 ≤ base) {room value : ℕ}
    (small : value < base ^ room) (cells : ℕ → α) (pos : ℕ) :
    ∃ after, storeDigits char base room cells pos value =
        some (after, pos + (Nat.digits base value).length) ∧
      Stored cells after pos ((Nat.digits base value).map char) := by
  induction room generalizing cells pos value with
  | zero =>
      obtain rfl : value = 0 := Nat.lt_one_iff.mp small
      exact ⟨cells, by simp [storeDigits], by simpa using Stored.nil cells pos⟩
  | succ room induction =>
      by_cases zero : value = 0
      · subst zero
        exact ⟨cells, by simp [storeDigits], by simpa using Stored.nil cells pos⟩
      · have smaller : value / base < base ^ room := by
          rw [Nat.div_lt_iff_lt_mul (by omega), ← Nat.pow_succ]
          exact small
        obtain ⟨after, ran, stored⟩ := induction smaller
          (Function.update cells pos (char (value % base))) (pos + 1)
        rw [storeDigits, if_neg zero, ran, Nat.digits_def' base_ge (Nat.pos_of_ne_zero zero)]
        refine ⟨after, ?_, stored.cons⟩
        rw [List.length_cons, Nat.add_assoc, Nat.add_comm 1]

/-! ## Reversal in place -/

/-- Exchange two cells. -/
def swap (cells : ℕ → α) (left right : ℕ) : ℕ → α :=
  Function.update (Function.update cells left (cells right)) right (cells left)

/-- The first rounds of the reversal of `length` cells: the `i`-th cell from the start is exchanged
with the `i`-th cell from the end. -/
def reverseRounds (cells : ℕ → α) (start length : ℕ) : ℕ → ℕ → α
  | 0 => cells
  | i + 1 => swap (reverseRounds cells start length i) (start + i) (start + (length - 1 - i))

/-- After some rounds the outer cells are exchanged and the inner ones as before. -/
theorem reverseRounds_apply (cells : ℕ → α) (start : ℕ) {length rounds : ℕ}
    (half : 2 * rounds ≤ length) (target : ℕ) :
    reverseRounds cells start length rounds target =
      if start ≤ target ∧ target < start + length ∧
          (target < start + rounds ∨ start + length - rounds ≤ target) then
        cells (start + (length - 1 - (target - start)))
      else cells target := by
  induction rounds generalizing target with
  | zero => rw [reverseRounds, if_neg (by omega)]
  | succ i induction =>
      have rounds := induction (by omega)
      have first : reverseRounds cells start length i (start + i) = cells (start + i) := by
        rw [rounds, if_neg (by omega)]
      have last : reverseRounds cells start length i (start + (length - 1 - i)) =
          cells (start + (length - 1 - i)) := by
        rw [rounds, if_neg (by omega)]
      rw [reverseRounds, swap, Function.update_apply, Function.update_apply, first, last, rounds]
      by_cases right : target = start + (length - 1 - i)
      · rw [if_pos right, if_pos (by omega)]
        congr 1
        omega
      · rw [if_neg right]
        by_cases left : target = start + i
        · rw [if_pos left, if_pos (by omega)]
          congr 1
          omega
        · rw [if_neg left]
          refine if_congr ?_ rfl rfl
          omega

/-- Half as many rounds as cells reverse what is stored there. -/
theorem Stored.reverse (stored : Stored before after start items) :
    Stored before (reverseRounds after start items.length (items.length / 2)) start
      items.reverse := by
  refine ⟨fun i inside => ?_, fun target outside => ?_⟩
  · rw [List.length_reverse] at inside
    have mirrored : after (start + (items.length - 1 - i)) = items[items.length - 1 - i] :=
      stored.inside _ (by omega)
    rw [reverseRounds_apply _ _ (by omega), List.getElem_reverse, ← mirrored]
    split_ifs with moved
    · rw [Nat.add_sub_cancel_left]
    · congr 1
      omega
  · rw [List.length_reverse] at outside
    rw [reverseRounds_apply _ _ (by omega), if_neg (by omega), stored.outside target (by omega)]

end Cells

end Numeral
