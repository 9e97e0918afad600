import Mathlib.Tactic

/-!
# Bitmaps of `klib/bitmap.c`

One bit per position, packed in 32-bit words. Every operation is characterised by the bit that
`bitmap_test` reports at each position.
-/

namespace ItWorksOS

/-- `struct bitmap`: a word array and the number of bits it represents. -/
@[ext] structure Bitmap where
  /-- Backing words. -/
  data : ℕ → BitVec 32
  /-- Number of represented bits. -/
  nbits : ℕ

/-- `BIT(n)` on 32-bit words. -/
def bit (position : ℕ) : BitVec 32 := 1#32 <<< position

/-- `bitmap_set`. -/
def bitmapSet (bitmap : Bitmap) (position : ℕ) : Bitmap :=
  { bitmap with
    data := Function.update bitmap.data (position / 32)
      (bitmap.data (position / 32) ||| bit (position % 32)) }

/-- `bitmap_clear`. -/
def bitmapClear (bitmap : Bitmap) (position : ℕ) : Bitmap :=
  { bitmap with
    data := Function.update bitmap.data (position / 32)
      (bitmap.data (position / 32) &&& ~~~bit (position % 32)) }

/-- `bitmap_test`. -/
def bitmapTest (bitmap : Bitmap) (position : ℕ) : Bool :=
  bitmap.data (position / 32) &&& bit (position % 32) != 0#32

private theorem getLsbD_bit (position index : ℕ) (bounded : position < 32) :
    (bit position).getLsbD index = decide (index = position) := by
  rw [bit, BitVec.getLsbD_shiftLeft]
  by_cases equal : index = position
  · simp [equal, bounded]
  · simp [equal]
    omega

private theorem and_bit_ne_zero (word : BitVec 32) {position : ℕ} (bounded : position < 32) :
    (word &&& bit position != 0#32) = word.getLsbD position := by
  cases stored : word.getLsbD position with
  | false =>
      have masked : word &&& bit position = 0#32 := by
        apply BitVec.eq_of_getLsbD_eq
        intro index _
        rw [BitVec.getLsbD_and, getLsbD_bit position index bounded]
        by_cases equal : index = position
        · simp [equal, stored]
        · simp [equal]
      simp [masked]
  | true =>
      have kept : (word &&& bit position).getLsbD position = true := by
        simp [BitVec.getLsbD_and, getLsbD_bit position position bounded, stored]
      have nonzero : word &&& bit position ≠ 0#32 := by
        intro zero
        rw [zero] at kept
        simp at kept
      simpa using nonzero

/-- The tested bit is the corresponding bit of the backing word. -/
theorem bitmapTest_eq_getLsbD (bitmap : Bitmap) (position : ℕ) :
    bitmapTest bitmap position = (bitmap.data (position / 32)).getLsbD (position % 32) :=
  and_bit_ne_zero _ (Nat.mod_lt _ (by decide))

private theorem same_position_iff {left right : ℕ} (word : left / 32 = right / 32) :
    left % 32 = right % 32 ↔ left = right := by
  omega

/-- Replacing a word changes the tested bits of that word only. -/
private theorem bitmapTest_update (bitmap : Bitmap) (position query : ℕ) (value : BitVec 32) :
    bitmapTest
        { bitmap with data := Function.update bitmap.data (position / 32) value } query =
      if query / 32 = position / 32 then value.getLsbD (query % 32)
      else bitmapTest bitmap query := by
  rw [bitmapTest_eq_getLsbD, bitmapTest_eq_getLsbD]
  split_ifs with word
  · simp only [word, Function.update_self]
  · simp only [Function.update_of_ne word]

@[simp] theorem bitmapTest_bitmapSet (bitmap : Bitmap) (position query : ℕ) :
    bitmapTest (bitmapSet bitmap position) query =
      (decide (query = position) || bitmapTest bitmap query) := by
  rw [bitmapSet, bitmapTest_update]
  split_ifs with word
  · rw [BitVec.getLsbD_or, getLsbD_bit _ _ (Nat.mod_lt _ (by decide)), ← word,
      ← bitmapTest_eq_getLsbD, Bool.or_comm, decide_eq_decide.mpr (same_position_iff word)]
  · have distinct : query ≠ position := fun equal => word (by rw [equal])
    rw [decide_eq_false distinct, Bool.false_or]

@[simp] theorem bitmapTest_bitmapClear (bitmap : Bitmap) (position query : ℕ) :
    bitmapTest (bitmapClear bitmap position) query =
      (!decide (query = position) && bitmapTest bitmap query) := by
  rw [bitmapClear, bitmapTest_update]
  split_ifs with word
  · rw [BitVec.getLsbD_and, BitVec.getLsbD_not, getLsbD_bit _ _ (Nat.mod_lt _ (by decide)), ← word,
      ← bitmapTest_eq_getLsbD, Bool.and_comm, decide_eq_decide.mpr (same_position_iff word),
      decide_eq_true (Nat.mod_lt query (by decide)), Bool.true_and]
  · have distinct : query ≠ position := fun equal => word (by rw [equal])
    rw [decide_eq_false distinct, Bool.not_false, Bool.true_and]

/-- Two word arrays with the same bits are the same array. -/
theorem data_eq_of_bitmapTest {left right : Bitmap}
    (agree : ∀ position, bitmapTest left position = bitmapTest right position) :
    left.data = right.data := by
  funext word
  apply BitVec.eq_of_getLsbD_eq
  intro index bounded
  have same := agree (32 * word + index)
  rw [bitmapTest_eq_getLsbD, bitmapTest_eq_getLsbD,
    show (32 * word + index) / 32 = word by omega,
    show (32 * word + index) % 32 = index by omega] at same
  exact same

/-- A loop that sets `count` consecutive bits. -/
def bitmapSetRange (bitmap : Bitmap) (first : ℕ) : ℕ → Bitmap
  | 0 => bitmap
  | count + 1 => bitmapSet (bitmapSetRange bitmap first count) (first + count)

/-- A loop that clears `count` consecutive bits. -/
def bitmapClearRange (bitmap : Bitmap) (first : ℕ) : ℕ → Bitmap
  | 0 => bitmap
  | count + 1 => bitmapClear (bitmapClearRange bitmap first count) (first + count)

@[simp] theorem bitmapTest_bitmapSetRange (bitmap : Bitmap) (first count query : ℕ) :
    bitmapTest (bitmapSetRange bitmap first count) query =
      (decide (first ≤ query ∧ query < first + count) || bitmapTest bitmap query) := by
  induction count with
  | zero =>
      have outside : ¬ (first ≤ query ∧ query < first + 0) := by omega
      rw [bitmapSetRange, decide_eq_false outside, Bool.false_or]
  | succ count induction =>
      rw [bitmapSetRange, bitmapTest_bitmapSet, induction, ← Bool.or_assoc]
      congr 1
      rw [← Bool.decide_or]
      apply decide_eq_decide.mpr
      omega

@[simp] theorem bitmapTest_bitmapClearRange (bitmap : Bitmap) (first count query : ℕ) :
    bitmapTest (bitmapClearRange bitmap first count) query =
      (!decide (first ≤ query ∧ query < first + count) && bitmapTest bitmap query) := by
  induction count with
  | zero =>
      have outside : ¬ (first ≤ query ∧ query < first + 0) := by omega
      rw [bitmapClearRange, decide_eq_false outside, Bool.not_false, Bool.true_and]
  | succ count induction =>
      rw [bitmapClearRange, bitmapTest_bitmapClear, induction, ← Bool.and_assoc]
      congr 1
      rw [← Bool.not_or, ← Bool.decide_or]
      congr 1
      apply decide_eq_decide.mpr
      omega

@[simp] theorem nbits_bitmapSetRange (bitmap : Bitmap) (first count : ℕ) :
    (bitmapSetRange bitmap first count).nbits = bitmap.nbits := by
  induction count with
  | zero => rfl
  | succ count induction => simpa [bitmapSetRange, bitmapSet] using induction

@[simp] theorem nbits_bitmapClearRange (bitmap : Bitmap) (first count : ℕ) :
    (bitmapClearRange bitmap first count).nbits = bitmap.nbits := by
  induction count with
  | zero => rfl
  | succ count induction => simpa [bitmapClearRange, bitmapClear] using induction

/-! ## First run of clear bits -/

/-- The search loop that `pmm_alloc` and `irq_alloc_range` share, over `count` positions.
`consecutive` counts the clear bits immediately before `position`; the result is the first position
of the run that reaches `length`. -/
def bitmapFindRun (bitmap : Bitmap) (length : ℕ) : ℕ → ℕ → ℕ → Option ℕ
  | 0, _, _ => none
  | count + 1, position, consecutive =>
      if bitmapTest bitmap position then bitmapFindRun bitmap length count (position + 1) 0
      else if consecutive + 1 = length then some (position + 1 - length)
      else bitmapFindRun bitmap length count (position + 1) (consecutive + 1)

/-- All bits of a run are clear. -/
def Bitmap.ClearRun (bitmap : Bitmap) (first length : ℕ) : Prop :=
  ∀ position, first ≤ position → position < first + length → bitmapTest bitmap position = false

theorem bitmapFindRun_sound {bitmap : Bitmap} {length count position consecutive first : ℕ}
    (run : bitmap.ClearRun (position - consecutive) consecutive) (bounded : consecutive ≤ position)
    (found : bitmapFindRun bitmap length count position consecutive = some first) :
    position - consecutive ≤ first ∧ first + length ≤ position + count ∧
      bitmap.ClearRun first length := by
  induction count generalizing position consecutive with
  | zero => simp [bitmapFindRun] at found
  | succ count induction =>
      rw [bitmapFindRun] at found
      split at found
      · obtain ⟨lower, upper, clear⟩ :=
          induction (by intro other; omega : bitmap.ClearRun (position + 1 - 0) 0) (Nat.zero_le _)
            found
        exact ⟨by omega, by omega, clear⟩
      · rename_i clear
        have extended : bitmap.ClearRun (position - consecutive) (consecutive + 1) := by
          intro other lower upper
          by_cases last : other = position
          · subst last
            exact Bool.eq_false_iff.mpr clear
          · exact run other lower (by omega)
        split at found
        · rename_i reached
          obtain rfl := Option.some.inj found
          refine ⟨by omega, by omega, ?_⟩
          rw [← reached, show position + 1 - (consecutive + 1) = position - consecutive by omega]
          exact extended
        · obtain ⟨lower, upper, clear⟩ := induction
            (by rw [show position + 1 - (consecutive + 1) = position - consecutive by omega]
                exact extended)
            (by omega) found
          exact ⟨by omega, by omega, clear⟩

theorem bitmapFindRun_complete {bitmap : Bitmap} {length count position consecutive : ℕ}
    (short : consecutive < length)
    (found : bitmapFindRun bitmap length count position consecutive = none) (first : ℕ)
    (lower : position - consecutive ≤ first) (bounded : consecutive ≤ position)
    (upper : first + length ≤ position + count) : ¬ bitmap.ClearRun first length := by
  induction count generalizing position consecutive with
  | zero => omega
  | succ count induction =>
      intro clear
      rw [bitmapFindRun] at found
      split at found
      · rename_i marked
        have later : position < first := by
          by_contra early
          rw [clear position (by omega) (by omega)] at marked
          cases marked
        exact induction (by omega : 0 < length) found (by omega) (Nat.zero_le _) (by omega) clear
      · split at found
        · contradiction
        · exact induction (by omega) found (by omega) (by omega) (by omega) clear

/-- The search stops at the first run. -/
theorem bitmapFindRun_least {bitmap : Bitmap} {length count position consecutive first : ℕ}
    (short : consecutive < length) (bounded : consecutive ≤ position)
    (found : bitmapFindRun bitmap length count position consecutive = some first) {other : ℕ}
    (lower : position - consecutive ≤ other) (clear : bitmap.ClearRun other length) :
    first ≤ other := by
  induction count generalizing position consecutive with
  | zero => cases found
  | succ count induction =>
      rw [bitmapFindRun] at found
      split at found
      · rename_i marked
        have later : position < other := by
          by_contra early
          rw [clear position (by omega) (by omega)] at marked
          cases marked
        exact induction (by omega : 0 < length) (Nat.zero_le _) found (by omega)
      · split at found
        · obtain rfl := Option.some.inj found
          omega
        · exact induction (by omega) (by omega) found (by omega)

/-- A search from a position on finds a run exactly when there is one. -/
theorem bitmapFindRun_cases (bitmap : Bitmap) {length : ℕ} (length_pos : 0 < length)
    (count position : ℕ) :
    (∃ first, bitmapFindRun bitmap length count position 0 = some first ∧ position ≤ first ∧
        first + length ≤ position + count ∧ bitmap.ClearRun first length) ∨
      (bitmapFindRun bitmap length count position 0 = none ∧
        ∀ first, position ≤ first → first + length ≤ position + count →
          ¬ bitmap.ClearRun first length) := by
  cases found : bitmapFindRun bitmap length count position 0 with
  | none =>
      refine .inr ⟨rfl, fun first lower upper => ?_⟩
      exact bitmapFindRun_complete length_pos found first (by omega) (Nat.zero_le _) upper
  | some first =>
      obtain ⟨lower, upper, clear⟩ := bitmapFindRun_sound
        (by intro other; omega : bitmap.ClearRun (position - 0) 0) (Nat.zero_le _) found
      exact .inl ⟨first, rfl, by omega, upper, clear⟩

/-! ## Runs of set bits -/

/-- A loop that tests whether `count` consecutive bits are all set. -/
def bitmapAllSet (bitmap : Bitmap) (first : ℕ) : ℕ → Bool
  | 0 => true
  | count + 1 => bitmapAllSet bitmap first count && bitmapTest bitmap (first + count)

theorem bitmapAllSet_iff (bitmap : Bitmap) (first count : ℕ) :
    bitmapAllSet bitmap first count = true ↔
      ∀ position, first ≤ position → position < first + count →
        bitmapTest bitmap position = true := by
  induction count with
  | zero =>
      simp only [bitmapAllSet, true_iff]
      intro position lower upper
      omega
  | succ count induction =>
      rw [bitmapAllSet, Bool.and_eq_true, induction]
      constructor
      · rintro ⟨earlier, last⟩ position lower upper
        by_cases equal : position = first + count
        · exact equal ▸ last
        · exact earlier position lower (by omega)
      · intro all
        exact ⟨fun position lower upper => all position lower (by omega),
          all _ (by omega) (by omega)⟩

/-! ## The first clear bit -/

/-- The inner loop of `bitmap_find_zero` over `count` bits: the first one set in a word. -/
def bitmapFindBit (free : BitVec 32) : ℕ → ℕ → Option ℕ
  | 0, _ => none
  | count + 1, position =>
      if free &&& bit position != 0#32 then some position
      else bitmapFindBit free count (position + 1)

/-- The outer loop of `bitmap_find_zero` over `count` words. -/
def bitmapFindZeroFrom (bitmap : Bitmap) : ℕ → ℕ → Option ℕ
  | 0, _ => none
  | count + 1, word =>
      if ~~~bitmap.data word = 0#32 then bitmapFindZeroFrom bitmap count (word + 1)
      else
        match bitmapFindBit (~~~bitmap.data word) 32 0 with
        | some position => if bitmap.nbits ≤ word * 32 + position then none
            else some (word * 32 + position)
        | none => bitmapFindZeroFrom bitmap count (word + 1)

/-- `bitmap_find_zero`, with the position it stores. -/
def bitmapFindZero (bitmap : Bitmap) : Option ℕ :=
  bitmapFindZeroFrom bitmap ((bitmap.nbits + 31) / 32) 0

theorem bitmapFindBit_cases (free : BitVec 32) {count position : ℕ}
    (bounded : position + count ≤ 32) :
    (bitmapFindBit free count position = none ∧
        ∀ index, position ≤ index → index < position + count → free.getLsbD index = false) ∨
      ∃ found, bitmapFindBit free count position = some found ∧ position ≤ found ∧
        found < position + count ∧ free.getLsbD found = true ∧
        ∀ index, position ≤ index → index < found → free.getLsbD index = false := by
  induction count generalizing position with
  | zero => exact .inl ⟨rfl, fun index lower upper => by omega⟩
  | succ count induction =>
      rw [bitmapFindBit, and_bit_ne_zero _ (by omega)]
      by_cases set : free.getLsbD position = true
      · rw [if_pos set]
        exact .inr ⟨position, rfl, le_rfl, by omega, set, fun index lower upper => by omega⟩
      · rw [if_neg set]
        rw [Bool.not_eq_true] at set
        have extend {limit : ℕ} (later : ∀ index, position + 1 ≤ index → index < limit →
            free.getLsbD index = false) (index : ℕ) (lower : position ≤ index)
            (upper : index < limit) : free.getLsbD index = false := by
          rcases Nat.eq_or_lt_of_le lower with rfl | above
          · exact set
          · exact later index above upper
        rcases induction (show position + 1 + count ≤ 32 by omega) with
          ⟨missing, clear⟩ | ⟨found, result, lower, upper, bit_set, clear⟩
        · exact .inl ⟨missing, fun index lower upper =>
            extend clear index lower (by omega)⟩
        · exact .inr ⟨found, result, by omega, by omega, bit_set, extend clear⟩

/-- The search ends at the first clear bit, or finds every represented bit set. -/
theorem bitmapFindZeroFrom_cases (bitmap : Bitmap) {count word : ℕ}
    (before : ∀ query < word * 32, bitmapTest bitmap query = true)
    (covered : bitmap.nbits ≤ (word + count) * 32) :
    (bitmapFindZeroFrom bitmap count word = none ∧
        ∀ query < bitmap.nbits, bitmapTest bitmap query = true) ∨
      ∃ found, bitmapFindZeroFrom bitmap count word = some found ∧ found < bitmap.nbits ∧
        bitmapTest bitmap found = false ∧ ∀ query < found, bitmapTest bitmap query = true := by
  induction count generalizing word with
  | zero => exact .inl ⟨rfl, fun query bounded => before query (by omega)⟩
  | succ count induction =>
      have advance {limit : ℕ} (limit_le : limit ≤ 32)
          (clear : ∀ index, 0 ≤ index → index < limit →
            (~~~bitmap.data word).getLsbD index = false) :
          ∀ query < word * 32 + limit, bitmapTest bitmap query = true := by
        intro query bounded
        by_cases earlier : query < word * 32
        · exact before query earlier
        · rw [bitmapTest_eq_getLsbD, show query / 32 = word by omega]
          simpa [show query % 32 < 32 by omega] using clear (query % 32) (Nat.zero_le _) (by omega)
      rw [bitmapFindZeroFrom]
      rcases bitmapFindBit_cases (~~~bitmap.data word) (show 0 + 32 ≤ 32 by decide) with
        ⟨missing, clear⟩ | ⟨position, result, -, upper, bit_set, clear⟩
      · rw [missing]
        simp only [ite_self]
        have full := advance le_rfl (by simpa using clear)
        exact induction (fun query bounded => full query (by omega)) (by omega)
      · have nonzero : ¬ ~~~bitmap.data word = 0#32 := by
          intro zero
          rw [zero] at bit_set
          simp at bit_set
        rw [if_neg nonzero, result]
        simp only
        have full := advance (by omega) clear
        split_ifs with outside
        · exact .inl ⟨rfl, fun query bounded => full query (by omega)⟩
        · refine .inr ⟨_, rfl, by omega, ?_, full⟩
          rw [bitmapTest_eq_getLsbD, show (word * 32 + position) / 32 = word by omega,
            show (word * 32 + position) % 32 = position by omega]
          simpa [show position < 32 by omega] using bit_set

theorem bitmapFindZero_cases (bitmap : Bitmap) :
    (bitmapFindZero bitmap = none ∧ ∀ query < bitmap.nbits, bitmapTest bitmap query = true) ∨
      ∃ found, bitmapFindZero bitmap = some found ∧ found < bitmap.nbits ∧
        bitmapTest bitmap found = false ∧ ∀ query < found, bitmapTest bitmap query = true :=
  bitmapFindZeroFrom_cases bitmap (fun query bounded => by omega) (by omega)

end ItWorksOS
