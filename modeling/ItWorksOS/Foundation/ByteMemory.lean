import Mathlib.Tactic

/-!
# Byte-addressed memory

Little-endian 32-bit words over a total byte memory. A word access is determined by the four bytes
it covers, so every frame property below is stated by the interval of touched addresses.
-/

/-- A memory assigns one byte to every address. -/
abbrev ByteMemory := ℕ → UInt8

namespace ByteMemory

/-- The little-endian 32-bit word at an address. -/
def read32 (memory : ByteMemory) (address : ℕ) : ℕ :=
  (memory address).toNat + 2 ^ 8 * (memory (address + 1)).toNat +
    2 ^ 16 * (memory (address + 2)).toNat + 2 ^ 24 * (memory (address + 3)).toNat

/-- Store the low 32 bits of a value at an address, little-endian. -/
def write32 (memory : ByteMemory) (address value : ℕ) : ByteMemory := fun target =>
  if address ≤ target ∧ target < address + 4 then
    UInt8.ofNat (value / 2 ^ (8 * (target - address)))
  else
    memory target

/-- Store one byte. -/
def write8 (memory : ByteMemory) (address : ℕ) (value : UInt8) : ByteMemory :=
  Function.update memory address value

/-- Store a block of bytes. -/
def blit (memory : ByteMemory) (address count : ℕ) (bytes : ℕ → UInt8) : ByteMemory := fun target =>
  if address ≤ target ∧ target < address + count then bytes (target - address) else memory target

theorem blit_of_outside {memory : ByteMemory} {address count target : ℕ} {bytes : ℕ → UInt8}
    (outside : target < address ∨ address + count ≤ target) :
    memory.blit address count bytes target = memory target := by
  rw [blit, if_neg (by omega)]

theorem blit_of_inside {memory : ByteMemory} {address count offset : ℕ} {bytes : ℕ → UInt8}
    (inside : offset < count) : memory.blit address count bytes (address + offset) =
      bytes offset := by
  rw [blit, if_pos (by omega), Nat.add_sub_cancel_left]

/-- Store a list of bytes. -/
def store (memory : ByteMemory) (address : ℕ) (bytes : List UInt8) : ByteMemory :=
  memory.blit address bytes.length fun index => bytes.getD index 0

theorem store_of_outside {memory : ByteMemory} {address target : ℕ} {bytes : List UInt8}
    (outside : target < address ∨ address + bytes.length ≤ target) :
    memory.store address bytes target = memory target := blit_of_outside outside

theorem read32_lt (memory : ByteMemory) (address : ℕ) : memory.read32 address < 2 ^ 32 := by
  have first := (memory address).toNat_lt
  have second := (memory (address + 1)).toNat_lt
  have third := (memory (address + 2)).toNat_lt
  have fourth := (memory (address + 3)).toNat_lt
  simp only [read32]
  omega

/-- A word read depends only on the four bytes it covers. -/
theorem read32_congr {left right : ByteMemory} {address : ℕ}
    (agree : ∀ target, address ≤ target → target < address + 4 → left target = right target) :
    left.read32 address = right.read32 address := by
  simp only [read32]
  rw [agree address (by omega) (by omega), agree (address + 1) (by omega) (by omega),
    agree (address + 2) (by omega) (by omega), agree (address + 3) (by omega) (by omega)]

/-- A word read depends only on four bytes, wherever they lie. -/
theorem read32_shift {left right : ByteMemory} {source target : ℕ}
    (agree : ∀ offset < 4, left (target + offset) = right (source + offset)) :
    left.read32 target = right.read32 source := by
  have first := agree 0 (by decide)
  rw [Nat.add_zero, Nat.add_zero] at first
  simp only [read32]
  rw [first, agree 1 (by decide), agree 2 (by decide), agree 3 (by decide)]

/-- A block that is stored over another one replaces it. -/
theorem blit_blit (memory : ByteMemory) (address count : ℕ) (before after : ℕ → UInt8) :
    (memory.blit address count before).blit address count after =
      memory.blit address count after := by
  funext target
  simp only [blit]
  split_ifs <;> rfl

theorem write32_of_outside {memory : ByteMemory} {address value target : ℕ}
    (outside : target < address ∨ address + 4 ≤ target) :
    memory.write32 address value target = memory target := by
  rw [write32, if_neg (by omega)]

theorem read32_write32 (memory : ByteMemory) (address value : ℕ) :
    (memory.write32 address value).read32 address = value % 2 ^ 32 := by
  have first : memory.write32 address value address = UInt8.ofNat value := by
    simp [write32]
  have second : memory.write32 address value (address + 1) = UInt8.ofNat (value / 2 ^ 8) := by
    simp [write32]
  have third : memory.write32 address value (address + 2) = UInt8.ofNat (value / 2 ^ 16) := by
    simp [write32]
  have fourth : memory.write32 address value (address + 3) = UInt8.ofNat (value / 2 ^ 24) := by
    simp [write32]
  simp only [read32, first, second, third, fourth, UInt8.toNat_ofNat']
  omega

theorem read32_write32_of_lt (memory : ByteMemory) (address : ℕ) {value : ℕ}
    (bounded : value < 2 ^ 32) : (memory.write32 address value).read32 address = value := by
  rw [read32_write32, Nat.mod_eq_of_lt bounded]

theorem read32_write32_of_disjoint {memory : ByteMemory} {source target value : ℕ}
    (disjoint : source + 4 ≤ target ∨ target + 4 ≤ source) :
    (memory.write32 target value).read32 source = memory.read32 source := by
  apply read32_congr
  intro byte lower upper
  exact write32_of_outside (by omega)

end ByteMemory
