import ItWorksOS.Foundation.Word32
import ItWorksOS.Klib.Bitmap

/-!
# Bitmaps over a word array

The operations of `klib/bitmap.c` on an array that has just the words of its bits. An access outside
the array has no result, and the arithmetic of the search is that of `size_t`.
-/

namespace ItWorksOS

/-- `struct bitmap` over its own array; the last word may hold more bits than are represented. -/
structure BitmapArray where
  /-- Backing words. -/
  data : List (BitVec 32)
  /-- Number of represented bits. -/
  nbits : ℕ
  elems : data.length = (nbits + 31) / 32

namespace BitmapArray

/-- The bitmap that the array backs. -/
def bitmap (array : BitmapArray) : Bitmap where
  data word := array.data.getD word 0#32
  nbits := array.nbits

/-- Replace one word of the array. -/
def store (array : BitmapArray) (word : ℕ) (value : BitVec 32) : BitmapArray where
  data := array.data.set word value
  nbits := array.nbits
  elems := List.length_set.trans array.elems

/-- `bitmap_set`. -/
def set (array : BitmapArray) (position : ℕ) : Option BitmapArray :=
  array.data[position / 32]?.map fun word =>
    array.store (position / 32) (word ||| bit (position % 32))

/-- `bitmap_clear`. -/
def clear (array : BitmapArray) (position : ℕ) : Option BitmapArray :=
  array.data[position / 32]?.map fun word =>
    array.store (position / 32) (word &&& ~~~bit (position % 32))

/-- `bitmap_test`. -/
def test (array : BitmapArray) (position : ℕ) : Option Bool :=
  array.data[position / 32]?.map fun word => word &&& bit (position % 32) != 0#32

/-- The outer loop of `bitmap_find_zero` over `count` words. -/
def findZeroFrom (array : BitmapArray) : ℕ → ℕ → Option (Option ℕ)
  | 0, _ => some none
  | count + 1, word =>
      array.data[word]?.bind fun stored =>
        if ~~~stored = 0#32 then findZeroFrom array count (word + 1)
        else
          match bitmapFindBit (~~~stored) 32 0 with
          | some position =>
              if array.nbits ≤ Word32.add (Word32.mul word 32) position then some none
              else some (some (Word32.add (Word32.mul word 32) position))
          | none => findZeroFrom array count (word + 1)

/-- `bitmap_find_zero`, with the position it stores. -/
def findZero (array : BitmapArray) : Option (Option ℕ) :=
  findZeroFrom array (Word32.add array.nbits 31 / 32) 0

section Accesses

variable {array : BitmapArray} {position : ℕ}

theorem bitmap_data (array : BitmapArray) (word : ℕ) :
    array.bitmap.data word = array.data.getD word 0#32 := rfl

theorem getElem?_data {word : ℕ} (inside : word < array.data.length) :
    array.data[word]? = some (array.bitmap.data word) := by
  rw [bitmap_data, List.getD_eq_getElem?_getD, List.getElem?_eq_getElem inside, Option.getD_some]

/-- The words of the represented bits are in the array. -/
theorem word_lt (inside : position < array.nbits) : position / 32 < array.data.length := by
  rw [array.elems]
  omega

theorem bitmap_store {word : ℕ} (inside : word < array.data.length) (value : BitVec 32) :
    (array.store word value).bitmap =
      { array.bitmap with data := Function.update array.bitmap.data word value } := by
  have data_eq : (array.store word value).bitmap.data =
      Function.update array.bitmap.data word value := by
    funext other
    rw [bitmap_data, List.getD_eq_getElem?_getD, store]
    by_cases same : other = word
    · subst same
      rw [List.getElem?_set_self inside, Option.getD_some, Function.update_self]
    · rw [List.getElem?_set_ne (Ne.symm same), Function.update_of_ne same, bitmap_data,
        List.getD_eq_getElem?_getD]
  exact Bitmap.ext data_eq rfl

theorem set_eq (inside : position < array.nbits) :
    ∃ array', array.set position = some array' ∧
      array'.bitmap = bitmapSet array.bitmap position := by
  have word_inside := word_lt inside
  refine ⟨_, by rw [set, getElem?_data word_inside, Option.map_some], ?_⟩
  rw [bitmap_store word_inside, bitmapSet]

theorem clear_eq (inside : position < array.nbits) :
    ∃ array', array.clear position = some array' ∧
      array'.bitmap = bitmapClear array.bitmap position := by
  have word_inside := word_lt inside
  refine ⟨_, by rw [clear, getElem?_data word_inside, Option.map_some], ?_⟩
  rw [bitmap_store word_inside, bitmapClear]

theorem test_eq (inside : position < array.nbits) :
    array.test position = some (bitmapTest array.bitmap position) := by
  rw [test, getElem?_data (word_lt inside), Option.map_some, bitmapTest]

/-- The search stays inside the array, and its positions do not wrap. -/
theorem findZeroFrom_eq (bounded : array.nbits ≤ 2 ^ 32 - 32) {count word : ℕ}
    (inside : word + count ≤ array.data.length) :
    array.findZeroFrom count word = some (bitmapFindZeroFrom array.bitmap count word) := by
  induction count generalizing word with
  | zero => rfl
  | succ count induction =>
      have word_inside : word < array.data.length := by omega
      have later := induction (show word + 1 + count ≤ array.data.length by omega)
      rw [findZeroFrom, bitmapFindZeroFrom, getElem?_data word_inside, Option.bind_some, later]
      rcases bitmapFindBit_cases (~~~array.bitmap.data word) (show 0 + 32 ≤ 32 by decide) with
        ⟨missing, -⟩ | ⟨position, result, -, upper, -, -⟩
      · rw [missing]
        split_ifs <;> rfl
      · have elems := array.elems
        have scaled : Word32.mul word 32 = word * 32 := Word32.mul_of_lt (by omega)
        have moved : Word32.add (word * 32) position = word * 32 + position :=
          Word32.add_of_lt (by omega)
        rw [result]
        simp only [scaled, moved]
        have same_nbits : array.bitmap.nbits = array.nbits := rfl
        rw [same_nbits]
        split_ifs <;> rfl

theorem findZero_eq (bounded : array.nbits ≤ 2 ^ 32 - 32) :
    array.findZero = some (bitmapFindZero array.bitmap) := by
  have count_eq : Word32.add array.nbits 31 = array.nbits + 31 := Word32.add_of_lt (by omega)
  rw [findZero, count_eq]
  refine findZeroFrom_eq bounded ?_
  rw [array.elems, Nat.zero_add]

end Accesses

/-! ## Histories -/

/-- The positions of the array whose bit is set. -/
def bits (array : BitmapArray) : Finset ℕ :=
  (Finset.range array.nbits).filter fun position =>
    (array.data.getD (position / 32) 0#32).getLsbD (position % 32)

/-- The array shows a set of positions: `bitmap_test` reports it at every represented bit. -/
def Shows (array : BitmapArray) (bits : Finset ℕ) : Prop :=
  ∀ position < array.nbits, array.test position = some (decide (position ∈ bits))

end BitmapArray

/-- The calls that change a bitmap. -/
inductive BitmapCall
  | set (position : ℕ)
  | clear (position : ℕ)

namespace BitmapCall

/-- The position that a call changes. -/
def position : BitmapCall → ℕ
  | set position | clear position => position

/-- The set positions after a call. -/
def bits (bits : Finset ℕ) : BitmapCall → Finset ℕ
  | set position => insert position bits
  | clear position => bits.erase position

/-- The array after a call. -/
def run (array : BitmapArray) : BitmapCall → Option BitmapArray
  | set position => array.set position
  | clear position => array.clear position

end BitmapCall

namespace BitmapArray

variable {array : BitmapArray} {bits : Finset ℕ}

theorem shows_iff : array.Shows bits ↔
    ∀ position < array.nbits, bitmapTest array.bitmap position = decide (position ∈ bits) := by
  refine forall₂_congr fun position inside => ?_
  rw [test_eq inside, Option.some.injEq]

/-- An array shows the bits that are set in its words. -/
theorem shows_bits (array : BitmapArray) : array.Shows array.bits := by
  refine shows_iff.mpr fun position inside => ?_
  rw [bitmapTest_eq_getLsbD, Bool.eq_iff_iff, decide_eq_true_eq, bits, Finset.mem_filter,
    Finset.mem_range]
  exact ⟨fun set => ⟨inside, set⟩, And.right⟩

theorem Shows.call (shows : array.Shows bits) {call : BitmapCall}
    (inside : call.position < array.nbits) :
    ∃ array', call.run array = some array' ∧ array'.nbits = array.nbits ∧
      array'.Shows (call.bits bits) := by
  rw [shows_iff] at shows
  cases call with
  | set position =>
      obtain ⟨array', result, bitmap_eq⟩ := set_eq inside
      have same_nbits : array'.nbits = array.nbits := congrArg Bitmap.nbits bitmap_eq
      refine ⟨array', result, same_nbits, shows_iff.mpr fun query query_lt => ?_⟩
      rw [bitmap_eq, bitmapTest_bitmapSet, shows query (same_nbits ▸ query_lt), ← Bool.decide_or,
        BitmapCall.bits]
      exact decide_eq_decide.mpr Finset.mem_insert.symm
  | clear position =>
      obtain ⟨array', result, bitmap_eq⟩ := clear_eq inside
      have same_nbits : array'.nbits = array.nbits := congrArg Bitmap.nbits bitmap_eq
      refine ⟨array', result, same_nbits, shows_iff.mpr fun query query_lt => ?_⟩
      rw [bitmap_eq, bitmapTest_bitmapClear, shows query (same_nbits ▸ query_lt), ← decide_not,
        ← Bool.decide_and, BitmapCall.bits]
      exact decide_eq_decide.mpr Finset.mem_erase.symm

theorem Shows.run (shows : array.Shows bits) {calls : List BitmapCall}
    (inside : ∀ call ∈ calls, call.position < array.nbits) :
    ∃ array', calls.foldlM BitmapCall.run array = some array' ∧ array'.nbits = array.nbits ∧
      array'.Shows (calls.foldl BitmapCall.bits bits) := by
  induction calls generalizing array bits with
  | nil => exact ⟨array, rfl, rfl, shows⟩
  | cons call calls induction =>
      obtain ⟨array', result, same_nbits, shows'⟩ := shows.call (inside call List.mem_cons_self)
      have later : ∀ call ∈ calls, call.position < array'.nbits := fun call member =>
        same_nbits ▸ inside call (List.mem_cons_of_mem _ member)
      obtain ⟨array'', results, same_nbits', shows''⟩ := induction shows' later
      refine ⟨array'', ?_, same_nbits'.trans same_nbits, shows''⟩
      rw [List.foldlM_cons, result]
      exact results

/-- The search finds the least position that is not shown. -/
theorem Shows.findZero (shows : array.Shows bits) (bounded : array.nbits ≤ 2 ^ 32 - 32) :
    (∃ position, array.findZero = some (some position) ∧
        IsLeast {clear | clear < array.nbits ∧ clear ∉ bits} position) ∨
      (array.findZero = some none ∧ ∀ position < array.nbits, position ∈ bits) := by
  rw [shows_iff] at shows
  rw [findZero_eq bounded]
  rcases bitmapFindZero_cases array.bitmap with
    ⟨missing, full⟩ | ⟨found, result, inside, clear, least⟩
  · refine .inr ⟨by rw [missing], fun position inside => ?_⟩
    have set := full position inside
    rw [shows position inside, decide_eq_true_eq] at set
    exact set
  · have inside : found < array.nbits := inside
    rw [shows found inside, decide_eq_false_iff_not] at clear
    refine .inl ⟨found, by rw [result], ⟨inside, clear⟩, ?_⟩
    rintro other ⟨other_inside, other_clear⟩
    by_contra earlier
    have set := least other (Nat.lt_of_not_le earlier)
    rw [shows other other_inside, decide_eq_true_eq] at set
    exact other_clear set

end BitmapArray

/-- After any history of `bitmap_set` and `bitmap_clear` at represented positions, `bitmap_test`
reports the set positions and `bitmap_find_zero` finds the least other one; no access leaves the
array. -/
theorem bitmap_exact_of_history {array : BitmapArray} (bounded : array.nbits ≤ 2 ^ 32 - 32)
    {calls : List BitmapCall} (inside : ∀ call ∈ calls, call.position < array.nbits) :
    ∃ array', calls.foldlM BitmapCall.run array = some array' ∧
      array'.Shows (calls.foldl BitmapCall.bits array.bits) ∧ array'.nbits = array.nbits ∧
      ((∃ position, array'.findZero = some (some position) ∧
          IsLeast {clear | clear < array.nbits ∧ clear ∉ calls.foldl BitmapCall.bits array.bits}
            position) ∨
        (array'.findZero = some none ∧
          ∀ position < array.nbits, position ∈ calls.foldl BitmapCall.bits array.bits)) := by
  obtain ⟨array', result, same_nbits, shows⟩ := array.shows_bits.run inside
  refine ⟨array', result, shows, same_nbits, ?_⟩
  rw [← same_nbits] at bounded ⊢
  exact shows.findZero bounded

/-- Forty bits in two words, the first full and the second clear up to its padding. -/
theorem bitmap_exact_of_history_forty :
    ∃ array', [BitmapCall.set 32, .clear 7, .set 7].foldlM BitmapCall.run
      ⟨[0xffffffff#32, 0xffffff00#32], 40, rfl⟩ = some array' ∧
        array'.findZero = some (some 33) := by
  obtain ⟨array', result, -, -, found⟩ := bitmap_exact_of_history
    (show (BitmapArray.mk [0xffffffff#32, 0xffffff00#32] 40 rfl).nbits ≤ 2 ^ 32 - 32 by decide)
    (show ∀ call ∈ [BitmapCall.set 32, .clear 7, .set 7], call.position < 40 by decide)
  refine ⟨array', result, ?_⟩
  have clear : 33 ∉ [BitmapCall.set 32, .clear 7, .set 7].foldl BitmapCall.bits
      (BitmapArray.mk [0xffffffff#32, 0xffffff00#32] 40 rfl).bits := by decide +kernel
  have below : ∀ other < 33, other ∈ [BitmapCall.set 32, .clear 7, .set 7].foldl BitmapCall.bits
      (BitmapArray.mk [0xffffffff#32, 0xffffff00#32] 40 rfl).bits := by decide +kernel
  rcases found with ⟨position, found, least⟩ | ⟨-, full⟩
  · have first : position = 33 := least.unique ⟨⟨by decide, clear⟩, fun other unset =>
      Nat.le_of_not_lt fun earlier => unset.2 (below other earlier)⟩
    rw [found, first]
  · exact absurd (full 33 (by decide)) clear

end ItWorksOS
