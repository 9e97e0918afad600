import ItWorksOS.Arch.X86.Mmu
import ItWorksOS.Foundation.Word32
import ItWorksOS.Mm.KernelBoot

/-!
# The entry point of the kernel

`_start` of `kernel.asm` fills two entries of a page directory, turns on paging with pages of 4 MiB,
clears `.bss` and calls `kmain` on a stack that is part of `.bss`. The linker places the directory;
it is never cleared, and the processor goes on reading it from memory.
-/

namespace ItWorksOS

/-- `HIGH_MEM_ADDR`. -/
def highMemAddr : ℕ := 0xC0000000

theorem highMemAddr_eq : highMemAddr = 0xC0000000 := rfl

/-- The address that `linker.ld` starts at. -/
def linkAddr : ℕ := 0xC0010000

theorem linkAddr_eq : linkAddr = highMemAddr + 0x10000 := rfl

/-- Labels of `kernel.asm` and `linker.ld`, as virtual addresses. -/
structure KernelSymbols where
  bootPageDirectory : ℕ
  higherHalf : ℕ
  halt : ℕ
  bssStart : ℕ
  bssEnd : ℕ
  kernelStackTop : ℕ

/-- The sections start at pages in the first 4 MiB of the higher half, and the stack lies in
`.bss`. -/
structure KernelSymbols.Linked (symbols : KernelSymbols) : Prop where
  code : linkAddr + 2 ≤ symbols.higherHalf
  code_end : symbols.higherHalf < highMemAddr + 2 ^ 22
  directory : linkAddr ≤ symbols.bootPageDirectory
  directory_aligned : symbols.bootPageDirectory % 4096 = 0
  directory_end : symbols.bootPageDirectory + 4096 ≤ highMemAddr + 2 ^ 22
  bss : linkAddr ≤ symbols.bssStart
  bss_aligned : symbols.bssStart % 4096 = 0
  bss_end_aligned : symbols.bssEnd % 4096 = 0
  bss_end : symbols.bssEnd ≤ highMemAddr + 2 ^ 22
  stack : symbols.bssStart + 16384 ≤ symbols.kernelStackTop
  stack_end : symbols.kernelStackTop ≤ symbols.bssEnd

/-- `push` with paging on, for `ESP` and the memory. -/
def pagedPush (translate : Translation) (value : ℕ) (state : ℕ × ByteMemory) :
    Option (ℕ × ByteMemory) :=
  let esp := Word32.sub state.1 4
  (translate.write32 state.2 esp value).map fun mem => (esp, mem)

/-- The code from `higher_half` on, up to the first instruction of `kmain`. -/
def higherHalfCode (symbols : KernelSymbols) (translate : Translation) (esi edi : ℕ)
    (mem : ByteMemory) : Option (ℕ × ByteMemory) :=
  (translate.fill 0 symbols.bssStart (Word32.sub symbols.bssEnd symbols.bssStart) mem).bind
    fun mem =>
      (pagedPush translate edi (symbols.kernelStackTop, mem)).bind fun state =>
        (pagedPush translate esi state).bind (pagedPush translate symbols.halt)

/-- How `_start` ends: in `halt`, with a page fault that nothing handles, or at `kmain`. -/
inductive StartExit where
  | halt
  | fault
  | kmain (cr3 esp : ℕ) (mem : ByteMemory)

/-- `_start`, for the `PSE` bit of `CPUID`. -/
def kernelAsmStart (symbols : KernelSymbols) (pse : Bool) (eax ebx : ℕ) (mem : ByteMemory) :
    StartExit :=
  if pse = false then .halt
  else
    let edx := symbols.bootPageDirectory - highMemAddr
    let mem := mem.write32 edx page4mbFlags
    let mem := mem.write32 (edx + pdIndexKernel * 4) page4mbFlags
    -- paging is on, and the processor still fetches `jmp eax` at its physical address
    let jump := symbols.higherHalf - highMemAddr - 2
    if x86Translate edx mem jump = some jump ∧
        x86Translate edx mem symbols.higherHalf = some (symbols.higherHalf - highMemAddr) then
      match higherHalfCode symbols (x86Translate edx) eax ebx mem with
      | none => .fault
      | some (esp, mem) => .kmain edx esp mem
    else .fault

/-! ## The boot page directory -/

section

variable {mem mem' : ByteMemory} {cr3 base : ℕ}

theorem pdeIndex_window {index offset : ℕ} (index_lt : index < 1024) (offset_lt : offset < 2 ^ 22) :
    pdeIndex ((index * 2 ^ 22 + offset) % 2 ^ 32) = index := by
  rw [pdeIndex_eq]
  omega

theorem and_pageMask_of_aligned (aligned : cr3 % 4096 = 0) (cr3_lt : cr3 < 2 ^ 32) :
    cr3 &&& x86PageMask = cr3 := by
  rw [and_pageMask, Nat.mod_eq_of_lt cr3_lt]
  omega

/-- An entry for a page of 4 MiB at address 0 maps the first 4 MiB, whatever the other entries
are. -/
theorem x86Translate_of_entry {index offset : ℕ} (aligned : cr3 % 4096 = 0) (cr3_lt : cr3 < 2 ^ 32)
    (index_lt : index < 1024) (entry : mem.read32 (cr3 + 4 * index) = page4mbFlags)
    (offset_lt : offset < 2 ^ 22) :
    x86Translate cr3 mem (index * 2 ^ 22 + offset) = some offset := by
  have offset_eq : ((index * 2 ^ 22 + offset) % 2 ^ 32) &&& 0x3FFFFF = offset := by
    rw [show 0x3FFFFF = 2 ^ 22 - 1 from rfl, Nat.and_two_pow_sub_one_eq_mod]
    omega
  simp only [x86Translate, x86Access, and_pageMask_of_aligned aligned cr3_lt,
    pdeIndex_window index_lt offset_lt, entry, offset_eq]
  rw [if_neg (by decide), if_pos (by decide), show page4mbFlags &&& 0xFFC00000 = 0 by decide,
    Nat.zero_or]

/-- Without the entry there is no translation. -/
theorem x86Translate_eq_none {index offset : ℕ} (aligned : cr3 % 4096 = 0) (cr3_lt : cr3 < 2 ^ 32)
    (index_lt : index < 1024) (entry : mem.read32 (cr3 + 4 * index) = 0)
    (offset_lt : offset < 2 ^ 22) : x86Translate cr3 mem (index * 2 ^ 22 + offset) = none := by
  simp only [x86Translate, x86Access, and_pageMask_of_aligned aligned cr3_lt,
    pdeIndex_window index_lt offset_lt, entry]
  rw [if_pos (.inl (Nat.zero_and _))]

/-- The bytes of the entry for the higher half. -/
def kernelEntryBytes (cr3 : ℕ) : Set ℕ :=
  {address | cr3 + pdIndexKernel * 4 ≤ address ∧ address < cr3 + pdIndexKernel * 4 + 4}

/-- The higher half gives access to the first 4 MiB, as long as its entry is not changed. -/
theorem x86Translate_direct (aligned : cr3 % 4096 = 0) (cr3_lt : cr3 < 2 ^ 32)
    (entry : mem.read32 (cr3 + pdIndexKernel * 4) = page4mbFlags) :
    (x86Translate cr3).Direct (kernelEntryBytes cr3) highMemAddr (2 ^ 22) mem := by
  intro mem' same offset offset_lt
  have kept : mem'.read32 (cr3 + pdIndexKernel * 4) = page4mbFlags := by
    rw [← entry]
    exact ByteMemory.read32_congr fun target lower upper => same target ⟨lower, upper⟩
  have base : pdIndexKernel * 2 ^ 22 = highMemAddr := rfl
  rw [← base]
  exact x86Translate_of_entry aligned cr3_lt (by decide) (by rwa [Nat.mul_comm 4]) offset_lt

end

/-! ## From `_start` to `kmain` -/

namespace KernelSymbols

variable {symbols : KernelSymbols} {mem : ByteMemory} {eax ebx : ℕ}

/-- Physical address of the boot page directory. -/
def cr3 (symbols : KernelSymbols) : ℕ := symbols.bootPageDirectory - highMemAddr

/-- Physical start of `.bss`. -/
def bssPhys (symbols : KernelSymbols) : ℕ := symbols.bssStart - highMemAddr

/-- `sizeof(.bss)`. -/
def bssSize (symbols : KernelSymbols) : ℕ := symbols.bssEnd - symbols.bssStart

/-- Physical end of the kernel stack. -/
def stackPhys (symbols : KernelSymbols) : ℕ := symbols.kernelStackTop - highMemAddr

/-- The memory with the two entries of the boot page directory. -/
def paged (symbols : KernelSymbols) (mem : ByteMemory) : ByteMemory :=
  (mem.write32 symbols.cr3 page4mbFlags).write32 (symbols.cr3 + pdIndexKernel * 4) page4mbFlags

/-- The memory when `kmain` starts: `.bss` is clear but for the words that `_start` has pushed. -/
def entered (symbols : KernelSymbols) (eax ebx : ℕ) (mem : ByteMemory) : ByteMemory :=
  ((((symbols.paged mem).fill symbols.bssPhys 0 symbols.bssSize).write32
    (symbols.stackPhys - 4) ebx).write32 (symbols.stackPhys - 8) eax).write32
      (symbols.stackPhys - 12) symbols.halt

/-- The directory lies in `.bss`. -/
def DirectoryInBss (symbols : KernelSymbols) : Prop :=
  symbols.bssStart ≤ symbols.bootPageDirectory ∧ symbols.bootPageDirectory < symbols.bssEnd

instance (symbols : KernelSymbols) : Decidable symbols.DirectoryInBss :=
  inferInstanceAs (Decidable (_ ∧ _))

theorem Linked.cr3_aligned (linked : symbols.Linked) : symbols.cr3 % 4096 = 0 := by
  have lower := linked.directory
  have aligned := linked.directory_aligned
  rw [linkAddr_eq] at lower
  rw [cr3]
  rw [highMemAddr_eq] at lower ⊢
  omega

theorem Linked.cr3_end (linked : symbols.Linked) : symbols.cr3 + 4096 ≤ 2 ^ 22 := by
  have upper := linked.directory_end
  have lower := linked.directory
  rw [cr3]
  omega

theorem read32_paged (mem : ByteMemory) :
    (symbols.paged mem).read32 (symbols.cr3 + pdIndexKernel * 4) = page4mbFlags :=
  ByteMemory.read32_write32_of_lt _ _ (by decide)

theorem Linked.direct (linked : symbols.Linked)
    (entry : mem.read32 (symbols.cr3 + pdIndexKernel * 4) = page4mbFlags) :
    (x86Translate symbols.cr3).Direct (kernelEntryBytes symbols.cr3) highMemAddr (2 ^ 22) mem := by
  have inside := linked.cr3_end
  exact x86Translate_direct linked.cr3_aligned (by omega) entry

/-- A push below a place in the stack. -/
theorem Linked.push (linked : symbols.Linked) {back : ℕ} (room : back + 4 ≤ 16384)
    (entry : mem.read32 (symbols.cr3 + pdIndexKernel * 4) = page4mbFlags) (value : ℕ) :
    pagedPush (x86Translate symbols.cr3) value (symbols.kernelStackTop - back, mem) =
      some (symbols.kernelStackTop - (back + 4),
        mem.write32 (symbols.stackPhys - (back + 4)) value) := by
  have lower := linked.bss
  have stack := linked.stack
  have upper := linked.stack_end
  have last := linked.bss_end
  rw [linkAddr_eq, highMemAddr_eq] at lower
  rw [highMemAddr_eq] at last
  have esp : Word32.sub (symbols.kernelStackTop - back) 4 =
      highMemAddr + (symbols.stackPhys - (back + 4)) := by
    rw [Word32.sub_of_le (by omega) (by omega), stackPhys, highMemAddr_eq]
    omega
  have place : highMemAddr + (symbols.stackPhys - (back + 4)) =
      symbols.kernelStackTop - (back + 4) := by
    rw [stackPhys, highMemAddr_eq]
    omega
  have inside : symbols.stackPhys - (back + 4) < 2 ^ 22 := by
    rw [stackPhys, highMemAddr_eq]
    omega
  simp only [pagedPush]
  rw [esp, (linked.direct entry).write32 value inside, Option.map_some, place]

/-- The start and the size of `.bss` as `higher_half` computes them. -/
theorem Linked.bss_eq (linked : symbols.Linked) :
    symbols.bssStart = highMemAddr + symbols.bssPhys ∧
      Word32.sub symbols.bssEnd symbols.bssStart = symbols.bssSize ∧
      symbols.bssPhys + symbols.bssSize ≤ 2 ^ 22 ∧ symbols.bssPhys + 16384 ≤ symbols.stackPhys ∧
      symbols.stackPhys ≤ symbols.bssPhys + symbols.bssSize := by
  have lower := linked.bss
  have stack := linked.stack
  have upper := linked.stack_end
  have last := linked.bss_end
  rw [linkAddr_eq, highMemAddr_eq] at lower
  rw [highMemAddr_eq] at last
  rw [Word32.sub_of_le (by omega) (by omega), bssPhys, bssSize, stackPhys, highMemAddr_eq]
  omega

/-- Outside `.bss` the entry of the higher half is not cleared. -/
theorem Linked.spared (linked : symbols.Linked) (outside : ¬ symbols.DirectoryInBss) {address : ℕ}
    (member : address ∈ kernelEntryBytes symbols.cr3) :
    address < symbols.bssPhys ∨ symbols.bssPhys + symbols.bssSize ≤ address := by
  obtain ⟨lower, upper⟩ := member
  have directory := linked.directory
  have directory_aligned := linked.directory_aligned
  have bss := linked.bss
  have bss_aligned := linked.bss_aligned
  have end_aligned := linked.bss_end_aligned
  have stack := linked.stack
  have stack_end := linked.stack_end
  have index : pdIndexKernel * 4 = 3072 := rfl
  rw [DirectoryInBss, not_and_or] at outside
  rw [cr3, highMemAddr_eq] at lower upper
  rw [bssPhys, bssSize, highMemAddr_eq]
  rw [linkAddr_eq, highMemAddr_eq] at directory bss
  omega

theorem higherHalfCode_entered (linked : symbols.Linked) (outside : ¬ symbols.DirectoryInBss) :
    higherHalfCode symbols (x86Translate symbols.cr3) eax ebx (symbols.paged mem) =
      some (symbols.kernelStackTop - 12, symbols.entered eax ebx mem) := by
  obtain ⟨start, size, inside, stack, stack_end⟩ := linked.bss_eq
  have spared (address : ℕ) (member : address ∈ kernelEntryBytes symbols.cr3) :=
    linked.spared outside member
  have first := spared (symbols.cr3 + pdIndexKernel * 4) ⟨le_rfl, by omega⟩
  have last := spared (symbols.cr3 + pdIndexKernel * 4 + 3) ⟨by omega, by omega⟩
  have cleared := (linked.direct (read32_paged mem)).fill 0 inside spared
  have entry : ((symbols.paged mem).fill symbols.bssPhys 0 symbols.bssSize).read32
      (symbols.cr3 + pdIndexKernel * 4) = page4mbFlags := by
    rw [← @read32_paged symbols mem]
    refine ByteMemory.read32_congr fun target lower upper => ?_
    have := spared target ⟨lower, upper⟩
    rw [ByteMemory.fill_apply, if_neg (by omega)]
  have kept (memory : ByteMemory) (back value : ℕ) (small : back ≤ 16384) (positive : 4 ≤ back)
      (held : memory.read32 (symbols.cr3 + pdIndexKernel * 4) = page4mbFlags) :
      (memory.write32 (symbols.stackPhys - back) value).read32
        (symbols.cr3 + pdIndexKernel * 4) = page4mbFlags := by
    rw [ByteMemory.read32_write32_of_disjoint (by omega), held]
  have entry' := kept _ 4 ebx (by omega) le_rfl entry
  have entry'' := kept _ 8 eax (by omega) (by omega) entry'
  rw [higherHalfCode, size, start, cleared, Option.bind_some]
  have pushed := @Linked.push _ _ linked 0 (by omega) entry ebx
  rw [Nat.sub_zero, Nat.zero_add] at pushed
  rw [pushed, Option.bind_some, linked.push (by omega) entry' eax, Option.bind_some,
    linked.push (by omega) entry'' symbols.halt, entered]

/-- Clearing the first byte of a word that fits in it clears the word. -/
theorem read32_write8_zero {address : ℕ} (small : mem.read32 address < 2 ^ 8) :
    (mem.write8 address 0).read32 address = 0 := by
  rw [ByteMemory.read32] at small
  have zero : ((0 : UInt8)).toNat = 0 := rfl
  rw [ByteMemory.read32]
  simp only [ByteMemory.write8]
  rw [Function.update_self, Function.update_of_ne (by omega), Function.update_of_ne (by omega),
    Function.update_of_ne (by omega), zero]
  omega

/-- In `.bss` the entry is cleared, and nothing is translated any more. -/
theorem higherHalfCode_fault (linked : symbols.Linked) (inside : symbols.DirectoryInBss) :
    higherHalfCode symbols (x86Translate symbols.cr3) eax ebx (symbols.paged mem) = none := by
  obtain ⟨start, size, within, stack, stack_end⟩ := linked.bss_eq
  have index : pdIndexKernel * 4 = 3072 := rfl
  obtain ⟨first, first_eq⟩ : ∃ first, symbols.bssPhys + first = symbols.cr3 + pdIndexKernel * 4 :=
    ⟨symbols.cr3 + pdIndexKernel * 4 - symbols.bssPhys, by
      have lower := inside.1
      rw [cr3, bssPhys]
      omega⟩
  obtain ⟨rest, rest_eq⟩ : ∃ rest, symbols.bssSize = first + (1 + (rest + 1)) :=
    ⟨symbols.bssSize - first - 2, by
      have upper := inside.2
      have aligned := linked.directory_aligned
      have end_aligned := linked.bss_end_aligned
      have lower := inside.1
      have bss := linked.bss
      rw [cr3, bssPhys] at first_eq
      rw [bssSize]
      omega⟩
  have direct := linked.direct (@read32_paged symbols mem)
  have before : ∀ address ∈ kernelEntryBytes symbols.cr3,
      (symbols.paged mem).fill symbols.bssPhys 0 first address = symbols.paged mem address := by
    rintro address ⟨lower, -⟩
    rw [ByteMemory.fill_apply, if_neg (by omega)]
  have entry : ((symbols.paged mem).fill symbols.bssPhys 0 first).read32
      (symbols.bssPhys + first) = page4mbFlags := by
    rw [first_eq, ← @read32_paged symbols mem]
    exact ByteMemory.read32_congr fun target lower upper => before target ⟨lower, upper⟩
  have here := (direct.of_same before).here (show symbols.bssPhys + first < 2 ^ 22 by omega)
  have base : pdIndexKernel * 2 ^ 22 = highMemAddr := rfl
  have missing : x86Translate symbols.cr3
      (((symbols.paged mem).fill symbols.bssPhys 0 first).write8 (symbols.bssPhys + first) 0)
      (highMemAddr + symbols.bssPhys + first + 1) = none := by
    have cleared := read32_write8_zero (entry.trans_lt (by decide))
    have inside := linked.cr3_end
    rw [Nat.add_assoc, Nat.add_assoc, ← base]
    refine x86Translate_eq_none linked.cr3_aligned (by omega) (by decide) ?_ (by omega)
    rwa [Nat.mul_comm 4, ← first_eq]
  rw [higherHalfCode, size, start, rest_eq, Translation.fill_add,
    direct.fill 0 (by omega) (by
      rintro address ⟨lower, -⟩
      omega), Option.bind_some, Translation.fill_add, Translation.fill, Translation.fill,
    Option.bind_some, Nat.add_zero, Nat.add_assoc, here, Option.map_some, Option.bind_some,
    ← Nat.add_assoc, Translation.fill_eq_none missing, Option.bind_none]

/-! ## What `kmain` finds -/

theorem read32_paged_zero (mem : ByteMemory) :
    (symbols.paged mem).read32 symbols.cr3 = page4mbFlags := by
  have index : pdIndexKernel * 4 = 3072 := rfl
  rw [paged, ByteMemory.read32_write32_of_disjoint (by omega)]
  exact ByteMemory.read32_write32_of_lt _ _ (by decide)

/-- No byte outside the directory and `.bss` changes. -/
theorem entered_of_outside (linked : symbols.Linked) {address : ℕ}
    (directory : address < symbols.cr3 ∨ symbols.cr3 + 4096 ≤ address)
    (bss : address < symbols.bssPhys ∨ symbols.bssPhys + symbols.bssSize ≤ address) :
    symbols.entered eax ebx mem address = mem address := by
  obtain ⟨-, -, -, stack, stack_end⟩ := linked.bss_eq
  have index : pdIndexKernel * 4 = 3072 := rfl
  rw [entered, ByteMemory.write32_of_outside (by omega), ByteMemory.write32_of_outside (by omega),
    ByteMemory.write32_of_outside (by omega), ByteMemory.fill_apply, if_neg (by omega), paged,
    ByteMemory.write32_of_outside (by omega), ByteMemory.write32_of_outside (by omega)]

/-- `.bss` is clear below the words on the stack. -/
theorem entered_of_bss (linked : symbols.Linked) {address : ℕ} (lower : symbols.bssPhys ≤ address)
    (upper : address < symbols.bssPhys + symbols.bssSize)
    (apart : address < symbols.stackPhys - 12 ∨ symbols.stackPhys ≤ address) :
    symbols.entered eax ebx mem address = 0 := by
  obtain ⟨-, -, -, stack, stack_end⟩ := linked.bss_eq
  rw [entered, ByteMemory.write32_of_outside (by omega), ByteMemory.write32_of_outside (by omega),
    ByteMemory.write32_of_outside (by omega), ByteMemory.fill_apply, if_pos ⟨lower, upper⟩]

/-- The arguments of `kmain` lie above its return address. -/
theorem read32_entered (linked : symbols.Linked) (eax_lt : eax < 2 ^ 32) (ebx_lt : ebx < 2 ^ 32) :
    (symbols.entered eax ebx mem).read32 (symbols.stackPhys - 8) = eax ∧
      (symbols.entered eax ebx mem).read32 (symbols.stackPhys - 4) = ebx := by
  obtain ⟨-, -, -, stack, stack_end⟩ := linked.bss_eq
  constructor
  · rw [entered, ByteMemory.read32_write32_of_disjoint (by omega),
      ByteMemory.read32_write32_of_lt _ _ eax_lt]
  · rw [entered, ByteMemory.read32_write32_of_disjoint (by omega),
      ByteMemory.read32_write32_of_disjoint (by omega), ByteMemory.read32_write32_of_lt _ _ ebx_lt]

/-- The entry for the higher half is still there. -/
theorem read32_entered_entry (linked : symbols.Linked) (outside : ¬ symbols.DirectoryInBss) :
    (symbols.entered eax ebx mem).read32 (symbols.cr3 + pdIndexKernel * 4) = page4mbFlags := by
  obtain ⟨-, -, -, stack, stack_end⟩ := linked.bss_eq
  rw [← @read32_paged symbols mem]
  refine ByteMemory.read32_congr fun target lower upper => ?_
  have := linked.spared outside ⟨lower, upper⟩
  rw [entered, ByteMemory.write32_of_outside (by omega), ByteMemory.write32_of_outside (by omega),
    ByteMemory.write32_of_outside (by omega), ByteMemory.fill_apply, if_neg (by omega)]

end KernelSymbols

/-- With large pages, the code goes on in the higher half. -/
theorem kernelAsmStart_paged {symbols : KernelSymbols} (linked : symbols.Linked) (eax ebx : ℕ)
    (mem : ByteMemory) :
    kernelAsmStart symbols true eax ebx mem =
      match higherHalfCode symbols (x86Translate symbols.cr3) eax ebx (symbols.paged mem) with
      | none => .fault
      | some (esp, mem) => .kmain symbols.cr3 esp mem := by
  have code := linked.code
  have code_end := linked.code_end
  have inside := linked.cr3_end
  have jump : x86Translate symbols.cr3 (symbols.paged mem) (symbols.higherHalf - highMemAddr - 2) =
      some (symbols.higherHalf - highMemAddr - 2) := by
    have entry : (symbols.paged mem).read32 (symbols.cr3 + 4 * 0) = page4mbFlags := by
      rw [Nat.mul_zero, Nat.add_zero, KernelSymbols.read32_paged_zero]
    have translated := x86Translate_of_entry linked.cr3_aligned (by omega) (by decide) entry
      (show symbols.higherHalf - highMemAddr - 2 < 2 ^ 22 by omega)
    rwa [Nat.zero_mul, Nat.zero_add] at translated
  have target : x86Translate symbols.cr3 (symbols.paged mem) symbols.higherHalf =
      some (symbols.higherHalf - highMemAddr) := by
    have above := linkAddr_eq
    have translated := (linked.direct (KernelSymbols.read32_paged mem)).here
      (show symbols.higherHalf - highMemAddr < 2 ^ 22 by omega)
    rwa [show highMemAddr + (symbols.higherHalf - highMemAddr) = symbols.higherHalf by omega]
      at translated
  rw [kernelAsmStart, if_neg (by decide)]
  exact if_pos ⟨jump, target⟩

/-- A kernel of 64 KiB with 60 KiB of `.bss`. -/
def smallSymbols : KernelSymbols where
  bootPageDirectory := 0xC0020000
  higherHalf := 0xC0010040
  halt := 0xC0010060
  bssStart := 0xC0021000
  bssEnd := 0xC0030000
  kernelStackTop := 0xC0025000

theorem smallSymbols_linked : smallSymbols.Linked where
  code := by decide
  code_end := by decide
  directory := by decide
  directory_aligned := by decide
  directory_end := by decide
  bss := by decide
  bss_aligned := by decide
  bss_end_aligned := by decide
  bss_end := by decide
  stack := by decide
  stack_end := by decide

end ItWorksOS
