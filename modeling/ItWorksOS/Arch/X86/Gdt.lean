import ItWorksOS.Arch.X86.Cpu
import ItWorksOS.Klib.Endian
import ItWorksOS.Foundation.PackedWord
import ItWorksOS.Klib.Memory

/-!
# Segment descriptors of `cpu/gdt.c` and the task state segment of `cpu/tss.c`

`x86_gdt_set_entry` splits the base and the limit of a segment over the eight bytes of a descriptor.
Whatever the entry, the processor decodes those bytes to its base, access byte, the low twenty bits
of its limit and the low four bits of its flags.
-/

namespace ItWorksOS

theorem Holds.congr {left right : ByteMemory} {address : ℕ} {bytes : List UInt8}
    (held : Holds left address bytes)
    (agree : left.AgreeBetween right address (address + bytes.length)) :
    Holds right address bytes := by
  intro index inside
  rw [← agree (address + index) (by omega) (by omega), held index inside]

/-- `X86_GDT_SELECTOR_KERN_CODE`. -/
def x86GdtSelectorKernCode : UInt16 := 0x08

/-- `X86_GDT_SELECTOR_KERN_DATA`. -/
def x86GdtSelectorKernData : UInt16 := 0x10

/-- `X86_GDT_SELECTOR_USER_CODE`. -/
def x86GdtSelectorUserCode : UInt16 := 0x18 ||| 3

/-- `X86_GDT_SELECTOR_USER_DATA`. -/
def x86GdtSelectorUserData : UInt16 := 0x20 ||| 3

/-- `X86_GDT_SELECTOR_TSS`. -/
def x86GdtSelectorTss : UInt16 := 0x28

/-- `X86_GDT_ENTRIES`. -/
def x86GdtEntries : ℕ := 6

/-- `struct x86_gdt_raw_entry`. -/
structure X86GdtRawEntry where
  limitLow : UInt16
  baseLow : UInt16
  baseMid : UInt8
  accessByte : UInt8
  limitHighFlags : UInt8
  baseHigh : UInt8

/-- The packed structure in memory. -/
def X86GdtRawEntry.bytes (raw : X86GdtRawEntry) : List UInt8 :=
  le16 raw.limitLow ++ le16 raw.baseLow ++
    [raw.baseMid, raw.accessByte, raw.limitHighFlags, raw.baseHigh]

/-- `struct x86_gdt_entry`. -/
structure X86GdtEntry where
  limit : UInt32
  base : UInt32
  access : UInt8
  flags : UInt8

/-- The fields that `x86_gdt_set_entry` assigns. -/
def X86GdtEntry.raw (e : X86GdtEntry) : X86GdtRawEntry where
  baseLow := (e.base &&& 0xFFFF).toUInt16
  baseMid := (e.base >>> 16 &&& 0xFF).toUInt8
  baseHigh := (e.base >>> 24 &&& 0xFF).toUInt8
  limitLow := (e.limit &&& 0xFFFF).toUInt16
  limitHighFlags := (e.limit >>> 16 &&& 0x0F).toUInt8 ||| (e.flags <<< 4 &&& 0xF0)
  accessByte := e.access

/-- `x86_gdt_set_entry`, for the table at an address. -/
def x86GdtSetEntry (gdt : ℕ) (memory : ByteMemory) (index : ℕ) (e : X86GdtEntry) : ByteMemory :=
  memory.store (gdt + 8 * index) e.raw.bytes

/-- `X86_GDT_FLAG_G_MASK`. -/
def x86GdtFlagGMask : UInt8 := 0x08

/-- `X86_GDT_FLAG_DB_MASK`. -/
def x86GdtFlagDbMask : UInt8 := 0x04

/-- `X86_GDT_ACCESS_BYTE_P_MASK`. -/
def x86GdtAccessBytePMask : UInt8 := 0x80

/-- `X86_GDT_ACCESS_BYTE_S_MASK`. -/
def x86GdtAccessByteSMask : UInt8 := 0x10

/-- `X86_GDT_ACCESS_BYTE_E_MASK`. -/
def x86GdtAccessByteEMask : UInt8 := 0x08

/-- `X86_GDT_ACCESS_BYTE_RW_MASK`. -/
def x86GdtAccessByteRwMask : UInt8 := 0x02

/-- `X86_GDT_ACCESS_BYTE_A_MASK`. -/
def x86GdtAccessByteAMask : UInt8 := 0x01

/-- A segment over the whole address space, with 4 KiB granularity and 32-bit operands. -/
def x86GdtFlat (access : UInt8) : X86GdtEntry where
  limit := 0xFFFFF
  base := 0
  access := access
  flags := x86GdtFlagGMask ||| x86GdtFlagDbMask

/-- Kernel code: flat, ring 0, read and execute. -/
def x86GdtKernCode : X86GdtEntry :=
  x86GdtFlat (x86GdtAccessBytePMask ||| x86GdtAccessByteSMask ||| x86GdtAccessByteEMask |||
    x86GdtAccessByteRwMask ||| x86GdtAccessByteAMask)

/-- Kernel data: flat, ring 0, read and write. -/
def x86GdtKernData : X86GdtEntry :=
  x86GdtFlat (x86GdtAccessBytePMask ||| x86GdtAccessByteSMask ||| x86GdtAccessByteRwMask |||
    x86GdtAccessByteAMask)

/-- User code: the access byte of kernel code, with ring 3. -/
def x86GdtUserCode : X86GdtEntry := x86GdtFlat (x86GdtKernCode.access ||| 0b01100000)

/-- User data: the access byte of kernel data, with ring 3. -/
def x86GdtUserData : X86GdtEntry := x86GdtFlat (x86GdtKernData.access ||| 0b01100000)

/-- `sizeof(struct x86_tss)`. -/
def x86TssSize : ℕ := 104

/-- The entry of the task state segment. -/
def x86GdtTss (tss : UInt32) : X86GdtEntry where
  limit := UInt32.ofNat (x86TssSize - 1)
  base := tss
  access := x86GdtAccessBytePMask ||| 0x9
  flags := 0

/-- The segments that selectors of the kernel and of its processes name, from the first entry on. -/
def x86GdtSegments : List X86GdtEntry :=
  [x86GdtKernCode, x86GdtKernData, x86GdtUserCode, x86GdtUserData]

/-- The table that `x86_gdt_init` fills, before `x86_gdt_flush`. -/
def x86GdtTable (gdt : ℕ) (tss : UInt32) (memory : ByteMemory) : ByteMemory :=
  let memory := memset memory gdt 0 (8 * x86GdtEntries)
  let memory := x86GdtSetEntry gdt memory 0 { limit := 0, base := 0, access := 0, flags := 0 }
  let memory := x86GdtSetEntry gdt memory 1 x86GdtKernCode
  let memory := x86GdtSetEntry gdt memory 2 x86GdtKernData
  let memory := x86GdtSetEntry gdt memory 3 x86GdtUserCode
  let memory := x86GdtSetEntry gdt memory 4 x86GdtUserData
  x86GdtSetEntry gdt memory 5 (x86GdtTss tss)

/-! ## Encoding -/

private theorem and_low (value width : ℕ) : value &&& 2 ^ width - 1 = value % 2 ^ width :=
  Nat.and_two_pow_sub_one_eq_mod value width

private theorem nibbles (low high : ℕ) (small : low < 16) :
    (low ||| (high * 16 % 256 &&& 240)) % 16 = low ∧
      (low ||| (high * 16 % 256 &&& 240)) / 16 = high % 16 := by
  have aligned : high * 16 % 256 &&& 240 = high % 16 * 2 ^ 4 := by
    have field := PackedWord.and_field (high * 16 % 256) 4 4
    rw [show (2 ^ 4 - 1) * 2 ^ 4 = 240 by decide] at field
    omega
  rw [aligned, Nat.or_comm, PackedWord.or_flags _ (show low < 2 ^ 4 by omega)]
  omega

/-- The descriptor an entry stands for: limits have twenty bits and flags have four. -/
def X86GdtEntry.descriptor (e : X86GdtEntry) : Descriptor where
  base := e.base.toNat
  limit := e.limit.toNat % 2 ^ 20
  access := e.access.toNat
  flags := e.flags.toNat % 2 ^ 4

/-- The eight bytes of an entry decode to the entry. -/
theorem decode_raw {memory : ByteMemory} {address : ℕ} {e : X86GdtEntry}
    (held : Holds memory address e.raw.bytes) :
    Descriptor.decode memory address = e.descriptor := by
  have low16 (value : ℕ) : value &&& 65535 = value % 65536 := and_low value 16
  have low8 (value : ℕ) : value &&& 255 = value % 256 := and_low value 8
  have low4 (value : ℕ) : value &&& 15 = value % 16 := and_low value 4
  have byte (index : ℕ) (inside : index < 8) :
      (memory (address + index)).toNat = (e.raw.bytes.get ⟨index, inside⟩).toNat :=
    congrArg UInt8.toNat (held index inside)
  have limit0 : (memory address).toNat = e.limit.toNat % 256 := by
    simpa [X86GdtRawEntry.bytes, X86GdtEntry.raw, le16, low16, low8] using byte 0 (by decide)
  have limit1 : (memory (address + 1)).toNat = e.limit.toNat % 65536 / 256 % 256 := by
    simpa [X86GdtRawEntry.bytes, X86GdtEntry.raw, le16, low16, Nat.shiftRight_eq_div_pow]
      using byte 1 (by decide)
  have base0 : (memory (address + 2)).toNat = e.base.toNat % 256 := by
    simpa [X86GdtRawEntry.bytes, X86GdtEntry.raw, le16, low16, low8] using byte 2 (by decide)
  have base1 : (memory (address + 3)).toNat = e.base.toNat % 65536 / 256 % 256 := by
    simpa [X86GdtRawEntry.bytes, X86GdtEntry.raw, le16, low16, Nat.shiftRight_eq_div_pow]
      using byte 3 (by decide)
  have base2 : (memory (address + 4)).toNat = e.base.toNat / 65536 % 256 := by
    simpa [X86GdtRawEntry.bytes, X86GdtEntry.raw, le16, low8, Nat.shiftRight_eq_div_pow]
      using byte 4 (by decide)
  have access : (memory (address + 5)).toNat = e.access.toNat := by
    simpa [X86GdtRawEntry.bytes, X86GdtEntry.raw, le16] using byte 5 (by decide)
  have mixed : (memory (address + 6)).toNat =
      (e.limit.toNat / 65536 % 16 ||| (e.flags.toNat * 16 % 256 &&& 240)) := by
    simpa [X86GdtRawEntry.bytes, X86GdtEntry.raw, le16, low4, Nat.shiftRight_eq_div_pow,
      Nat.shiftLeft_eq] using byte 6 (by decide)
  have base3 : (memory (address + 7)).toNat = e.base.toNat / 16777216 % 256 := by
    simpa [X86GdtRawEntry.bytes, X86GdtEntry.raw, le16, low8, Nat.shiftRight_eq_div_pow]
      using byte 7 (by decide)
  have bounded := e.base.toNat_lt
  obtain ⟨high, flags⟩ := nibbles (e.limit.toNat / 65536 % 16) e.flags.toNat (by omega)
  rw [← mixed] at high flags
  ext1
  · simp only [Descriptor.decode, X86GdtEntry.descriptor]
    omega
  · simp only [Descriptor.decode, X86GdtEntry.descriptor]
    omega
  · exact access
  · exact flags

/-! ## The table -/

/-- Entries from an index on. -/
def x86GdtSetEntries (gdt : ℕ) : ByteMemory → ℕ → List X86GdtEntry → ByteMemory
  | memory, _, [] => memory
  | memory, index, e :: rest =>
      x86GdtSetEntries gdt (x86GdtSetEntry gdt memory index e) (index + 1) rest

theorem x86GdtSetEntry_of_outside {gdt index target : ℕ} {memory : ByteMemory} {e : X86GdtEntry}
    (outside : target < gdt + 8 * index ∨ gdt + 8 * index + 8 ≤ target) :
    x86GdtSetEntry gdt memory index e target = memory target :=
  ByteMemory.store_of_outside outside

theorem x86GdtSetEntries_of_outside {gdt index target : ℕ} {memory : ByteMemory}
    {entries : List X86GdtEntry}
    (outside : target < gdt + 8 * index ∨ gdt + 8 * (index + entries.length) ≤ target) :
    x86GdtSetEntries gdt memory index entries target = memory target := by
  induction entries generalizing memory index with
  | nil => rfl
  | cons e rest induction =>
      rw [List.length_cons] at outside
      rw [x86GdtSetEntries, induction (by omega), x86GdtSetEntry_of_outside (by omega)]

theorem holds_x86GdtSetEntries {gdt : ℕ} (memory : ByteMemory) (index : ℕ) {position : ℕ}
    {entries : List X86GdtEntry} {e : X86GdtEntry} (listed : entries[position]? = some e) :
    Holds (x86GdtSetEntries gdt memory index entries) (gdt + 8 * (index + position))
      e.raw.bytes := by
  induction entries generalizing memory index position with
  | nil => simp at listed
  | cons first rest induction =>
      cases position with
      | zero =>
          obtain rfl : first = e := by simpa using listed
          apply (holds_store memory (gdt + 8 * index) first.raw.bytes).congr
          intro target lower upper
          have upper : target < gdt + 8 * index + 8 := upper
          exact (x86GdtSetEntries_of_outside (by omega)).symm
      | succ position =>
          have tail : Holds (x86GdtSetEntries gdt memory index (first :: rest))
              (gdt + 8 * (index + 1 + position)) e.raw.bytes :=
            induction _ (index + 1) (by simpa using listed)
          rwa [show index + 1 + position = index + (position + 1) by omega] at tail

/-- All entries of `x86_gdt_init`. -/
def x86GdtAll (tss : UInt32) : List X86GdtEntry :=
  { limit := 0, base := 0, access := 0, flags := 0 } :: x86GdtSegments ++ [x86GdtTss tss]

theorem x86GdtTable_eq (gdt : ℕ) (tss : UInt32) (memory : ByteMemory) :
    x86GdtTable gdt tss memory =
      x86GdtSetEntries gdt (memset memory gdt 0 (8 * x86GdtEntries)) 0 (x86GdtAll tss) := rfl

theorem holds_x86GdtTable {gdt index : ℕ} {tss : UInt32} {memory : ByteMemory} {e : X86GdtEntry}
    (listed : (x86GdtAll tss)[index]? = some e) :
    Holds (x86GdtTable gdt tss memory) (gdt + 8 * index) e.raw.bytes := by
  have held : Holds (x86GdtTable gdt tss memory) (gdt + 8 * (0 + index)) e.raw.bytes :=
    holds_x86GdtSetEntries (memset memory gdt 0 (8 * x86GdtEntries)) 0 listed
  rwa [Nat.zero_add] at held

theorem x86GdtTable_of_outside {gdt target : ℕ} {tss : UInt32} {memory : ByteMemory}
    (outside : target < gdt ∨ gdt + 8 * x86GdtEntries ≤ target) :
    x86GdtTable gdt tss memory target = memory target := by
  have count : (x86GdtAll tss).length = x86GdtEntries := rfl
  rw [x86GdtTable_eq, x86GdtSetEntries_of_outside (by omega), memset, ByteMemory.fill_apply,
    if_neg (by omega)]

/-! ## The task state segment -/

/-- `x86_tss_init`, for the segment at an address. -/
def x86TssInit (tss : ℕ) (memory : ByteMemory) : ByteMemory :=
  let memory := memset memory tss 0 x86TssSize
  let memory := memory.store (tss + 8) (le16 x86GdtSelectorKernData)
  memory.store (tss + 102) (le16 (UInt16.ofNat x86TssSize))

/-- `x86_tss_set_kernel_stack`. -/
def x86TssSetKernelStack (tss : ℕ) (esp0 : UInt32) (memory : ByteMemory) : ByteMemory :=
  memory.store (tss + 4) (le32 esp0)

end ItWorksOS
