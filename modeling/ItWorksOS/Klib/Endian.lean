import ItWorksOS.Foundation.ByteMemory

/-!
# Little-endian accesses of `klib/endian.h`
-/

namespace ItWorksOS

/-- `read_le16`. -/
def readLe16 (mem : ByteMemory) (buf : ℕ) : UInt16 :=
  (mem buf).toUInt16 ||| (mem (buf + 1)).toUInt16 <<< 8

/-- `read_le32`. -/
def readLe32 (mem : ByteMemory) (buf : ℕ) : UInt32 :=
  (mem buf).toUInt32 ||| (mem (buf + 1)).toUInt32 <<< 8 |||
    (mem (buf + 2)).toUInt32 <<< 16 ||| (mem (buf + 3)).toUInt32 <<< 24

/-- The bytes that `write_le16` stores. -/
def le16 (value : UInt16) : List UInt8 := [value.toUInt8, (value >>> 8).toUInt8]

/-- The bytes that `write_le32` stores. -/
def le32 (value : UInt32) : List UInt8 :=
  [value.toUInt8, (value >>> 8).toUInt8, (value >>> 16).toUInt8, (value >>> 24).toUInt8]

private theorem or_shiftLeft {low high width : ℕ} (bounded : low < 2 ^ width) :
    low ||| high <<< width = low + 2 ^ width * high := by
  rw [Nat.or_comm, ← Nat.shiftLeft_add_eq_or_of_lt bounded, Nat.shiftLeft_eq]
  ring

/-- `read_le16` reads two bytes. -/
theorem readLe16_congr {mem mem' : ByteMemory} {buf buf' : ℕ}
    (same : ∀ offset < 2, mem' (buf' + offset) = mem (buf + offset)) :
    readLe16 mem' buf' = readLe16 mem buf := by
  have first := same 0 (by decide)
  rw [Nat.add_zero, Nat.add_zero] at first
  rw [readLe16, readLe16, first, same 1 (by decide)]

/-- `read_le32` reads four bytes. -/
theorem readLe32_congr {mem mem' : ByteMemory} {buf buf' : ℕ}
    (same : ∀ offset < 4, mem' (buf' + offset) = mem (buf + offset)) :
    readLe32 mem' buf' = readLe32 mem buf := by
  have first := same 0 (by decide)
  rw [Nat.add_zero, Nat.add_zero] at first
  rw [readLe32, readLe32, first, same 1 (by decide), same 2 (by decide), same 3 (by decide)]

theorem readLe16_toNat (mem : ByteMemory) (buf : ℕ) :
    (readLe16 mem buf).toNat = (mem buf).toNat + 2 ^ 8 * (mem (buf + 1)).toNat := by
  have first := (mem buf).toNat_lt
  have second := (mem (buf + 1)).toNat_lt
  have high : (mem (buf + 1)).toNat <<< 8 % 2 ^ 16 = (mem (buf + 1)).toNat <<< 8 :=
    Nat.mod_eq_of_lt (by rw [Nat.shiftLeft_eq]; omega)
  simp only [readLe16, UInt16.toNat_or, UInt16.toNat_shiftLeft, UInt8.toNat_toUInt16]
  rw [show (8 : UInt16).toNat % 16 = 8 from rfl, high, or_shiftLeft first]

theorem readLe32_toNat (mem : ByteMemory) (buf : ℕ) :
    (readLe32 mem buf).toNat = mem.read32 buf := by
  have first := (mem buf).toNat_lt
  have second := (mem (buf + 1)).toNat_lt
  have third := (mem (buf + 2)).toNat_lt
  have fourth := (mem (buf + 3)).toNat_lt
  have kept (byte : UInt8) (width : ℕ) (small : width ≤ 24) :
      byte.toNat <<< width % 2 ^ 32 = byte.toNat <<< width := by
    apply Nat.mod_eq_of_lt
    rw [Nat.shiftLeft_eq]
    calc byte.toNat * 2 ^ width < 2 ^ 8 * 2 ^ width :=
          Nat.mul_lt_mul_of_pos_right byte.toNat_lt (by positivity)
      _ ≤ 2 ^ 8 * 2 ^ 24 := Nat.mul_le_mul_left _ (Nat.pow_le_pow_right (by decide) small)
      _ = 2 ^ 32 := by norm_num
  simp only [readLe32, ByteMemory.read32, UInt32.toNat_or, UInt32.toNat_shiftLeft,
    UInt8.toNat_toUInt32]
  rw [show (8 : UInt32).toNat % 32 = 8 from rfl, show (16 : UInt32).toNat % 32 = 16 from rfl,
    show (24 : UInt32).toNat % 32 = 24 from rfl, kept _ 8 (by decide), kept _ 16 (by decide),
    kept _ 24 (by decide), or_shiftLeft first,
    or_shiftLeft (show (mem buf).toNat + 2 ^ 8 * (mem (buf + 1)).toNat < 2 ^ 16 by omega),
    or_shiftLeft (by omega)]

/-- The memory holds the listed bytes from an address on. -/
def Holds (mem : ByteMemory) (buf : ℕ) (bytes : List UInt8) : Prop :=
  ∀ index, (inside : index < bytes.length) → mem (buf + index) = bytes[index]

theorem holds_store (mem : ByteMemory) (buf : ℕ) (bytes : List UInt8) :
    Holds (mem.store buf bytes) buf bytes := by
  intro index inside
  rw [ByteMemory.store, ByteMemory.blit_of_inside inside, List.getD_eq_getElem?_getD,
    List.getElem?_eq_getElem inside, Option.getD_some]

theorem Holds.of_same {mem mem' : ByteMemory} {buf : ℕ} {bytes : List UInt8}
    (held : Holds mem buf bytes)
    (same : ∀ target, buf ≤ target → target < buf + bytes.length → mem' target = mem target) :
    Holds mem' buf bytes := by
  intro index inside
  rw [same (buf + index) (Nat.le_add_right ..) (Nat.add_lt_add_left inside buf), held index inside]

theorem holds_append {mem : ByteMemory} {buf : ℕ} {front back : List UInt8} :
    Holds mem buf (front ++ back) ↔ Holds mem buf front ∧ Holds mem (buf + front.length) back := by
  constructor
  · intro held
    refine ⟨fun index inside => ?_, fun index inside => ?_⟩
    · rw [held index (by rw [List.length_append]; omega), List.getElem_append_left inside]
    · rw [Nat.add_assoc, held (front.length + index) (by rw [List.length_append]; omega),
        List.getElem_append_right (by omega)]
      congr 1
      omega
  · rintro ⟨front_held, back_held⟩ index inside
    rw [List.length_append] at inside
    by_cases early : index < front.length
    · rw [List.getElem_append_left early, front_held index early]
    · rw [List.getElem_append_right (by omega), ← back_held (index - front.length) (by omega)]
      congr 1
      omega

/-- Two bytes are the encoding of a value exactly when `read_le16` returns it. -/
theorem holds_le16_iff {mem : ByteMemory} {buf : ℕ} {value : UInt16} :
    Holds mem buf (le16 value) ↔ readLe16 mem buf = value := by
  have first := (mem buf).toNat_lt
  have second := (mem (buf + 1)).toNat_lt
  rw [← UInt16.toNat_inj, readLe16_toNat]
  constructor
  · intro held
    have low := congrArg UInt8.toNat (held 0 (by decide : 0 < 2))
    have high := congrArg UInt8.toNat (held 1 (by decide : 1 < 2))
    have bounded := value.toNat_lt
    simp only [le16, List.getElem_cons_zero, List.getElem_cons_succ, UInt16.toNat_toUInt8,
      UInt16.toNat_shiftRight, Nat.add_zero, show (8 : UInt16).toNat % 16 = 8 from rfl,
      Nat.shiftRight_eq_div_pow] at low high
    omega
  · intro same index inside
    apply UInt8.toNat_inj.mp
    match index, inside with
    | 0, _ =>
        simp only [le16, List.getElem_cons_zero, UInt16.toNat_toUInt8, Nat.add_zero]
        omega
    | 1, _ =>
        simp only [le16, List.getElem_cons_zero, List.getElem_cons_succ, UInt16.toNat_toUInt8,
          UInt16.toNat_shiftRight, show (8 : UInt16).toNat % 16 = 8 from rfl,
          Nat.shiftRight_eq_div_pow]
        omega

private theorem le32_toNat (value : UInt32) (index : ℕ) (inside : index < (le32 value).length) :
    ((le32 value)[index]).toNat = value.toNat / 2 ^ (8 * index) % 2 ^ 8 := by
  match index, inside with
  | 0, _ => simp [le32]
  | 1, _ => simp [le32, Nat.shiftRight_eq_div_pow]
  | 2, _ => simp [le32, Nat.shiftRight_eq_div_pow]
  | 3, _ => simp [le32, Nat.shiftRight_eq_div_pow]

/-- Four bytes are the encoding of a value exactly when `read_le32` returns it. -/
theorem holds_le32_iff {mem : ByteMemory} {buf : ℕ} {value : UInt32} :
    Holds mem buf (le32 value) ↔ readLe32 mem buf = value := by
  have first := (mem buf).toNat_lt
  have second := (mem (buf + 1)).toNat_lt
  have third := (mem (buf + 2)).toNat_lt
  have fourth := (mem (buf + 3)).toNat_lt
  have bounded := value.toNat_lt
  rw [← UInt32.toNat_inj, readLe32_toNat]
  constructor
  · intro held
    have bytes (index : ℕ) (inside : index < (le32 value).length) :
        (mem (buf + index)).toNat = value.toNat / 2 ^ (8 * index) % 2 ^ 8 := by
      rw [held index inside, le32_toNat]
    have zero := bytes 0 (by decide : 0 < 4)
    have one := bytes 1 (by decide : 1 < 4)
    have two := bytes 2 (by decide : 2 < 4)
    have three := bytes 3 (by decide : 3 < 4)
    rw [Nat.add_zero] at zero
    simp only [ByteMemory.read32]
    omega
  · intro same index inside
    apply UInt8.toNat_inj.mp
    rw [le32_toNat, ← same]
    simp only [ByteMemory.read32]
    have inside : index < 4 := inside
    obtain rfl | rfl | rfl | rfl : index = 0 ∨ index = 1 ∨ index = 2 ∨ index = 3 := by omega
    · rw [Nat.add_zero]
      omega
    · omega
    · omega
    · omega

end ItWorksOS
