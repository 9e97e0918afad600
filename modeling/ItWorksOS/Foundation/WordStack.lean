import ItWorksOS.Foundation.ByteMemory

/-!
# Stacks of words

A stack of 32-bit words grows downwards in a byte memory. The words that lie from an address on are
read as a list, the word at the lowest address first; pushing a list leaves it in reverse order
below the old top, and every other byte as it was.
-/

namespace ByteMemory

/-- The words at consecutive addresses. -/
def WordsAt (memory : ByteMemory) : ℕ → List ℕ → Prop
  | _, [] => True
  | address, word :: words => memory.read32 address = word ∧ memory.WordsAt (address + 4) words

/-- Push words on a stack with a given top, the first one first. -/
def pushWords (memory : ByteMemory) : ℕ → List ℕ → ByteMemory
  | _, [] => memory
  | top, word :: words => (memory.write32 (top - 4) word).pushWords (top - 4) words

/-- Two memories with the same bytes from one address up to another. -/
def AgreeBetween (left right : ByteMemory) (start stop : ℕ) : Prop :=
  ∀ target, start ≤ target → target < stop → left target = right target

@[simp] theorem wordsAt_nil (memory : ByteMemory) (address : ℕ) : memory.WordsAt address [] :=
  trivial

@[simp] theorem wordsAt_cons {memory : ByteMemory} {address word : ℕ} {words : List ℕ} :
    memory.WordsAt address (word :: words) ↔
      memory.read32 address = word ∧ memory.WordsAt (address + 4) words := Iff.rfl

theorem AgreeBetween.refl (memory : ByteMemory) (start stop : ℕ) :
    memory.AgreeBetween memory start stop :=
  fun _ _ _ => rfl

theorem AgreeBetween.trans {first second third : ByteMemory} {start stop : ℕ}
    (left : first.AgreeBetween second start stop) (right : second.AgreeBetween third start stop) :
    first.AgreeBetween third start stop :=
  fun target lower upper => (left target lower upper).trans (right target lower upper)

theorem AgreeBetween.symm {left right : ByteMemory} {start stop : ℕ}
    (agree : left.AgreeBetween right start stop) : right.AgreeBetween left start stop :=
  fun target lower upper => (agree target lower upper).symm

theorem AgreeBetween.mono {left right : ByteMemory} {start stop start' stop' : ℕ}
    (agree : left.AgreeBetween right start stop) (lower : start ≤ start') (upper : stop' ≤ stop) :
    left.AgreeBetween right start' stop' :=
  fun target above below => agree target (lower.trans above) (below.trans_le upper)

theorem wordsAt_append {memory : ByteMemory} {address : ℕ} {first second : List ℕ} :
    memory.WordsAt address (first ++ second) ↔
      memory.WordsAt address first ∧ memory.WordsAt (address + 4 * first.length) second := by
  induction first generalizing address with
  | nil => simp
  | cons word words induction =>
      have shifted : address + 4 + 4 * words.length = address + 4 * (words.length + 1) := by ring
      simp only [List.cons_append, wordsAt_cons, induction, List.length_cons, shifted, and_assoc]

theorem WordsAt.congr {left right : ByteMemory} {address stop : ℕ} {words : List ℕ}
    (stored : left.WordsAt address words) (agree : left.AgreeBetween right address stop)
    (inside : address + 4 * words.length ≤ stop) : right.WordsAt address words := by
  induction words generalizing address with
  | nil => trivial
  | cons word words induction =>
      rw [List.length_cons] at inside
      obtain ⟨head, tail⟩ := stored
      have same : left.read32 address = right.read32 address :=
        read32_congr fun target lower upper => agree target lower (by omega)
      exact ⟨same ▸ head, induction tail (agree.mono (by omega) le_rfl) (by omega)⟩

theorem AgreeBetween.write32 {left right : ByteMemory} {start stop : ℕ}
    (agree : left.AgreeBetween right start stop) (address value : ℕ) :
    (left.write32 address value).AgreeBetween (right.write32 address value) start stop := by
  intro target lower upper
  unfold ByteMemory.write32
  split
  · rfl
  · exact agree target lower upper

/-- Pushing onto memories that agree. -/
theorem AgreeBetween.pushWords {left right : ByteMemory} {start stop : ℕ}
    (agree : left.AgreeBetween right start stop) (top : ℕ) (words : List ℕ) :
    (left.pushWords top words).AgreeBetween (right.pushWords top words) start stop := by
  induction words generalizing left right top with
  | nil => exact agree
  | cons word words induction => exact induction (agree.write32 (top - 4) word) (top - 4)

/-- Pushing touches only the bytes of the words pushed. -/
theorem pushWords_of_outside {memory : ByteMemory} {top target : ℕ} {words : List ℕ}
    (room : 4 * words.length ≤ top)
    (outside : target < top - 4 * words.length ∨ top ≤ target) :
    memory.pushWords top words target = memory target := by
  induction words generalizing memory top with
  | nil => rfl
  | cons word words induction =>
      rw [List.length_cons] at room outside
      rw [pushWords, induction (by omega) (by omega), write32_of_outside (by omega)]

/-- Words that were pushed are read back, the last one first. -/
theorem wordsAt_pushWords (memory : ByteMemory) {top : ℕ} (words : List ℕ)
    (room : 4 * words.length ≤ top) (small : ∀ word ∈ words, word < 2 ^ 32) :
    (memory.pushWords top words).WordsAt (top - 4 * words.length) words.reverse := by
  induction words generalizing memory top with
  | nil => trivial
  | cons word words induction =>
      rw [List.length_cons] at room
      have tail : ((memory.write32 (top - 4) word).pushWords (top - 4) words).WordsAt
          (top - 4 - 4 * words.length) words.reverse :=
        induction _ (by omega) fun other member => small other (List.mem_cons_of_mem word member)
      have start : top - 4 - 4 * words.length = top - 4 * (words.length + 1) := by omega
      have last : top - 4 * (words.length + 1) + 4 * words.reverse.length = top - 4 := by
        rw [List.length_reverse]
        omega
      have head : ((memory.write32 (top - 4) word).pushWords (top - 4) words).read32 (top - 4) =
          word := by
        have kept : ((memory.write32 (top - 4) word).pushWords (top - 4) words).read32 (top - 4) =
            (memory.write32 (top - 4) word).read32 (top - 4) :=
          read32_congr fun target lower _ => pushWords_of_outside (by omega) (Or.inr lower)
        rw [kept, read32_write32_of_lt _ _ (small word List.mem_cons_self)]
      rw [List.reverse_cons, List.length_cons, pushWords, wordsAt_append, last]
      exact ⟨start ▸ tail, head, trivial⟩

end ByteMemory
