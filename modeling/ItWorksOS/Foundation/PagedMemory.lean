import ItWorksOS.Foundation.ByteMemory

/-!
# Memory as frames of words

A frame holds 4096 bytes or 1024 words. Accesses to words of frames never overlap partially, so a
write is described by one frame and one index.
-/

namespace ByteMemory

/-- The word with the given index in a frame. -/
def word (memory : ByteMemory) (frame index : ℕ) : ℕ := memory.read32 (frame * 4096 + 4 * index)

/-- Overwrite the word with the given index in a frame. -/
def setWord (memory : ByteMemory) (frame index value : ℕ) : ByteMemory :=
  memory.write32 (frame * 4096 + 4 * index) value

/-- Store one byte at `count` consecutive addresses. -/
def fill (memory : ByteMemory) (address : ℕ) (value : UInt8) : ℕ → ByteMemory
  | 0 => memory
  | count + 1 => (fill memory address value count).write8 (address + count) value

/-- Two memories hold the same bytes in a frame. -/
def AgreeOn (memory memory' : ByteMemory) (frame : ℕ) : Prop :=
  ∀ address, address / 4096 = frame → memory' address = memory address

section

variable {memory memory' : ByteMemory} {frame frame' index index' value : ℕ}

theorem word_lt (memory : ByteMemory) (frame index : ℕ) : memory.word frame index < 2 ^ 32 :=
  read32_lt _ _

theorem AgreeOn.word_eq (agree : AgreeOn memory memory' frame) (index_lt : index < 1024) :
    memory'.word frame index = memory.word frame index := by
  apply read32_congr
  intro address lower upper
  exact agree address (by omega)

theorem AgreeOn.trans {memory'' : ByteMemory} (first : AgreeOn memory memory' frame)
    (second : AgreeOn memory' memory'' frame) : AgreeOn memory memory'' frame :=
  fun address inside => (second address inside).trans (first address inside)

theorem setWord_agreeOn (index_lt : index < 1024) (distinct : frame' ≠ frame) :
    AgreeOn memory (memory.setWord frame index value) frame' := by
  intro address inside
  exact write32_of_outside (by omega)

theorem word_setWord (index_lt : index < 1024) (index_lt' : index' < 1024)
    (bounded : value < 2 ^ 32) :
    (memory.setWord frame index value).word frame' index' =
      if frame' = frame ∧ index' = index then value else memory.word frame' index' := by
  split
  · rename_i same
    obtain ⟨rfl, rfl⟩ := same
    exact read32_write32_of_lt _ _ bounded
  · rename_i differ
    exact read32_write32_of_disjoint (by omega)

theorem fill_apply (memory : ByteMemory) (address : ℕ) (value : UInt8) (count target : ℕ) :
    memory.fill address value count target =
      if address ≤ target ∧ target < address + count then value else memory target := by
  induction count with
  | zero =>
      rw [fill, if_neg (by omega)]
  | succ count induction =>
      rw [fill, write8, Function.update_apply, induction]
      by_cases last : target = address + count
      · rw [if_pos last, if_pos (by omega)]
      · rw [if_neg last]
        congr 1
        apply propext
        omega

theorem fill_agreeOn (byte : UInt8) (distinct : frame' ≠ frame) :
    AgreeOn memory (memory.fill (frame * 4096) byte 4096) frame' := by
  intro address inside
  rw [fill_apply, if_neg (by omega)]

theorem word_fill_zero (memory : ByteMemory) (frame : ℕ) (index_lt : index < 1024) :
    (memory.fill (frame * 4096) 0 4096).word frame index = 0 := by
  have zero (offset : ℕ) (offset_lt : offset < 4) :
      memory.fill (frame * 4096) 0 4096 (frame * 4096 + 4 * index + offset) = 0 := by
    rw [fill_apply, if_pos (by omega)]
  have first := zero 0 (by omega)
  have second := zero 1 (by omega)
  have third := zero 2 (by omega)
  have fourth := zero 3 (by omega)
  simp only [Nat.add_zero] at first
  simp [word, read32, first, second, third, fourth]

end

end ByteMemory
