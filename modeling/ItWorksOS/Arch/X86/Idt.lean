import ItWorksOS.Arch.X86.Gdt

/-!
# Gates of `interrupt/idt.c`, and the table that `x86_isr_init` fills

Every vector gets the address of its own stub. The processor decodes the eight bytes of a gate to
the address, the selector and the flags they were made of, so the privilege level and the type of
every vector are those that the loop of `x86_isr_init` chose.
-/

namespace ItWorksOS

/-- `X86_IDT_ENTRIES`. -/
def x86IdtEntries : ℕ := 256

/-- `struct x86_idt_gate`. -/
structure X86IdtGate where
  handler : UInt32
  selector : UInt16
  flags : UInt8

/-- `struct x86_idt_raw_entry`. -/
structure X86IdtRawEntry where
  offsetLow : UInt16
  segmentSelector : UInt16
  reserved : UInt8
  flags : UInt8
  offsetHigh : UInt16

/-- The packed structure in memory. -/
def X86IdtRawEntry.bytes (raw : X86IdtRawEntry) : List UInt8 :=
  le16 raw.offsetLow ++ le16 raw.segmentSelector ++ [raw.reserved, raw.flags] ++
    le16 raw.offsetHigh

/-- The fields that `x86_idt_set_gate` assigns. -/
def X86IdtGate.raw (g : X86IdtGate) : X86IdtRawEntry where
  offsetLow := (g.handler &&& 0xFFFF).toUInt16
  segmentSelector := g.selector
  reserved := 0
  flags := g.flags
  offsetHigh := (g.handler >>> 16 &&& 0xFFFF).toUInt16

/-- `x86_idt_set_gate`, for the table at an address. -/
def x86IdtSetGate (idt : ℕ) (memory : ByteMemory) (vector : UInt8) (g : X86IdtGate) :
    ByteMemory :=
  memory.store (idt + 8 * vector.toNat) g.raw.bytes

/-- `x86_idt_init`. -/
def x86IdtInit (idt : ℕ) (memory : ByteMemory) : ByteMemory :=
  memset memory idt 0 (8 * x86IdtEntries)

/-- `FIELD_SET`. -/
def fieldSet (v mask shift field : UInt8) : UInt8 := (v &&& ~~~ mask) ||| (field <<< shift &&& mask)

/-- `X86_IDT_FLAG_BUILD`. -/
def x86IdtFlagBuild (dpl type : UInt8) : UInt8 :=
  0x80 ||| fieldSet 0 0x60 5 dpl ||| fieldSet 0 0x0F 0 type

/-- `X86_IDT_GATE_INT_32`. -/
def x86IdtGateInt32 : UInt8 := 0xE

/-- `X86_IDT_GATE_TRAP_32`. -/
def x86IdtGateTrap32 : UInt8 := 0xF

/-- Gate flags that the loop of `x86_isr_init` builds for an index. -/
def x86IsrFlags (i : ℕ) : UInt8 :=
  if i < 32 then
    let type :=
      match i with
      | 1 => x86IdtGateTrap32
      | 3 => x86IdtGateTrap32
      | 4 => x86IdtGateTrap32
      | _ => x86IdtGateInt32
    x86IdtFlagBuild 0 type
  else if i = 0x80 then x86IdtFlagBuild 3 x86IdtGateTrap32
  else x86IdtFlagBuild 0 x86IdtGateInt32

/-- The gate of an index, for a table of stubs. -/
def x86IsrGate (stub : ℕ → UInt32) (i : ℕ) : X86IdtGate where
  handler := stub i
  selector := x86GdtSelectorKernCode
  flags := x86IsrFlags i

/-- The loop of `x86_isr_init` from an index on, for a number of iterations. -/
def x86IsrInitFrom (stub : ℕ → UInt32) (idt : ℕ) : ℕ → ℕ → ByteMemory → ByteMemory
  | 0, _, memory => memory
  | count + 1, i, memory =>
      x86IsrInitFrom stub idt count (i + 1)
        (x86IdtSetGate idt memory (UInt8.ofNat i) (x86IsrGate stub i))

/-- `x86_isr_init`. -/
def x86IsrInit (stub : ℕ → UInt32) (idt : ℕ) (memory : ByteMemory) : ByteMemory :=
  x86IsrInitFrom stub idt x86IdtEntries 0 memory

/-- The eight bytes of a gate decode to the gate. -/
theorem decode_gate {memory : ByteMemory} {address : ℕ} {g : X86IdtGate}
    (held : Holds memory address g.raw.bytes) :
    Gate.decode memory address =
      { offset := g.handler.toNat, selector := g.selector, flags := g.flags.toNat } := by
  have low16 (value : ℕ) : value &&& 65535 = value % 65536 :=
    Nat.and_two_pow_sub_one_eq_mod value 16
  have low8 (value : ℕ) : value &&& 255 = value % 256 := Nat.and_two_pow_sub_one_eq_mod value 8
  have byte (index : ℕ) (inside : index < 8) :
      (memory (address + index)).toNat = (g.raw.bytes.get ⟨index, inside⟩).toNat :=
    congrArg UInt8.toNat (held index inside)
  have offset0 : (memory address).toNat = g.handler.toNat % 256 := by
    simpa [X86IdtRawEntry.bytes, X86IdtGate.raw, le16, low16, low8] using byte 0 (by decide)
  have offset1 : (memory (address + 1)).toNat = g.handler.toNat % 65536 / 256 % 256 := by
    simpa [X86IdtRawEntry.bytes, X86IdtGate.raw, le16, low16, Nat.shiftRight_eq_div_pow]
      using byte 1 (by decide)
  have selector0 : (memory (address + 2)).toNat = g.selector.toNat % 256 := by
    simpa [X86IdtRawEntry.bytes, X86IdtGate.raw, le16] using byte 2 (by decide)
  have selector1 : (memory (address + 3)).toNat = g.selector.toNat / 256 % 256 := by
    simpa [X86IdtRawEntry.bytes, X86IdtGate.raw, le16, Nat.shiftRight_eq_div_pow]
      using byte 3 (by decide)
  have flags : (memory (address + 5)).toNat = g.flags.toNat := by
    simpa [X86IdtRawEntry.bytes, X86IdtGate.raw, le16] using byte 5 (by decide)
  have offset2 : (memory (address + 6)).toNat = g.handler.toNat / 65536 % 256 := by
    simpa [X86IdtRawEntry.bytes, X86IdtGate.raw, le16, low16, low8, Nat.shiftRight_eq_div_pow]
      using byte 6 (by decide)
  have offset3 : (memory (address + 7)).toNat = g.handler.toNat / 65536 % 65536 / 256 % 256 := by
    simpa [X86IdtRawEntry.bytes, X86IdtGate.raw, le16, low16, Nat.shiftRight_eq_div_pow]
      using byte 7 (by decide)
  have bounded := g.handler.toNat_lt
  have small := g.selector.toNat_lt
  ext1
  · simp only [Gate.decode]
    omega
  · have joined : (memory (address + 2)).toNat + 2 ^ 8 * (memory (address + 3)).toNat =
        g.selector.toNat := by omega
    rw [Gate.decode, joined, UInt16.ofNat_toNat]
  · exact flags

/-! ## The table -/

theorem x86IdtSetGate_of_outside {idt target : ℕ} {memory : ByteMemory} {vector : UInt8}
    {g : X86IdtGate} (outside : target < idt + 8 * vector.toNat ∨
      idt + 8 * vector.toNat + 8 ≤ target) :
    x86IdtSetGate idt memory vector g target = memory target :=
  ByteMemory.store_of_outside outside

theorem x86IsrInitFrom_of_outside {stub : ℕ → UInt32} {idt count i target : ℕ}
    {memory : ByteMemory} (inside : i + count ≤ 256)
    (outside : target < idt + 8 * i ∨ idt + 8 * (i + count) ≤ target) :
    x86IsrInitFrom stub idt count i memory target = memory target := by
  induction count generalizing i memory with
  | zero => rfl
  | succ count induction =>
      have index : (UInt8.ofNat i).toNat = i := by
        rw [UInt8.toNat_ofNat']
        omega
      rw [x86IsrInitFrom, induction (by omega) (by omega), x86IdtSetGate_of_outside]
      rw [index]
      omega

/-- The loop leaves the gate of every index it passes. -/
theorem holds_x86IsrInitFrom {stub : ℕ → UInt32} {idt count i vector : ℕ} {memory : ByteMemory}
    (inside : i + count ≤ 256) (first : i ≤ vector) (last : vector < i + count) :
    Holds (x86IsrInitFrom stub idt count i memory) (idt + 8 * vector)
      (x86IsrGate stub vector).raw.bytes := by
  induction count generalizing i memory with
  | zero => omega
  | succ count induction =>
      rw [x86IsrInitFrom]
      by_cases now : vector = i
      · subst now
        have index : (UInt8.ofNat vector).toNat = vector := by
          rw [UInt8.toNat_ofNat']
          omega
        have stored := holds_store memory (idt + 8 * (UInt8.ofNat vector).toNat)
          (x86IsrGate stub vector).raw.bytes
        rw [index] at stored
        apply stored.congr
        intro target lower upper
        have upper : target < idt + 8 * vector + 8 := upper
        rw [x86IsrInitFrom_of_outside (by omega) (by omega), x86IdtSetGate, index]
      · exact induction (by omega) (by omega) (by omega)

theorem holds_x86IsrInit {stub : ℕ → UInt32} {idt vector : ℕ} {memory : ByteMemory}
    (inside : vector < 256) :
    Holds (x86IsrInit stub idt memory) (idt + 8 * vector) (x86IsrGate stub vector).raw.bytes :=
  holds_x86IsrInitFrom le_rfl (Nat.zero_le vector) (by simpa [x86IdtEntries] using inside)

theorem x86IsrInit_of_outside {stub : ℕ → UInt32} {idt target : ℕ} {memory : ByteMemory}
    (outside : target < idt ∨ idt + 8 * x86IdtEntries ≤ target) :
    x86IsrInit stub idt memory target = memory target :=
  x86IsrInitFrom_of_outside le_rfl (by simpa using outside)

theorem x86IdtInit_of_outside {idt target : ℕ} {memory : ByteMemory}
    (outside : target < idt ∨ idt + 8 * x86IdtEntries ≤ target) :
    x86IdtInit idt memory target = memory target := by
  rw [x86IdtInit, memset, ByteMemory.fill_apply, if_neg (by omega)]

/-! ## What the loop chose -/

/-- The three kinds of gates. -/
theorem x86IsrFlags_eq (i : ℕ) :
    x86IsrFlags i =
      if i = 0x80 then 0xEF else if i = 1 ∨ i = 3 ∨ i = 4 then 0x8F else 0x8E := by
  have user : x86IdtFlagBuild 3 x86IdtGateTrap32 = 0xEF := by decide
  have trap : x86IdtFlagBuild 0 x86IdtGateTrap32 = 0x8F := by decide
  have int : x86IdtFlagBuild 0 x86IdtGateInt32 = 0x8E := by decide
  unfold x86IsrFlags
  split
  · rename_i early
    rw [if_neg (by omega)]
    split <;> simp_all
  · rename_i late
    rw [user, int]
    congr 1
    rw [if_neg (by omega)]

end ItWorksOS
