import ItWorksOS.Arch.X86.Entry
import ItWorksOS.Boot.BootLoader

/-!
# From the boot sector to the boot state

`kmain` finds its arguments on the stack that `_start` has set up, and `boot_init` copies what
Stage2 has left in low memory. Both go through the boot page directory. The kernel then has the
memory map of the BIOS and the system executable of the image, and Stage2 is as it was.
-/

namespace ItWorksOS

/-- `boot_init` under a translation, for `kernel_boot_mmap_entries` and `info`. -/
def bootInitPaged (translate : Translation) (entries info : ℕ) (mem : ByteMemory) :
    Option (BootState × ByteMemory) :=
  (translate.read mem info bootInfoSize).bind fun bytes =>
    let info := BootInfo.read (fun i => bytes.getD i 0) 0
    (translate.copy entries (physToVirt info.memoryMapPhys) (e820EntrySize * info.memoryMapCount)
      mem).map fun mem => ((bootInit entries info ⟨mem, []⟩).1, mem)

/-- `kmain` up to `mm_init`, with the message of the panic. Its second parameter has 64 bits. -/
def kmain (translate : Translation) (entries esp : ℕ) (mem : ByteMemory) :
    Option (Except String (BootState × ByteMemory)) :=
  (translate.read32 mem (esp + 4)).bind fun magic =>
    (translate.read32 mem (esp + 8)).bind fun low =>
      (translate.read32 mem (esp + 12)).bind fun high =>
        (bootInitPaged translate entries (physToVirt (low + 2 ^ 32 * high)) mem).map fun boot =>
          if magic ≠ bootMagic then .error "Invalid boot magic value" else .ok boot

/-- `struct boot_mem_map_entry` at an address. -/
def BootMemMapEntry.read (mem : ByteMemory) (address : ℕ) : BootMemMapEntry where
  base := (readLe32 mem address).toNat + 2 ^ 32 * (readLe32 mem (address + 4)).toNat
  length := (readLe32 mem (address + 8)).toNat + 2 ^ 32 * (readLe32 mem (address + 12)).toNat
  type := (readLe32 mem (address + 16)).toNat
  attr := (readLe32 mem (address + 20)).toNat

/-- An entry as the BIOS has stored it. -/
def BootMemMapEntry.ofBytes (bytes : List UInt8) : BootMemMapEntry :=
  BootMemMapEntry.read (fun i => bytes.getD i 0) 0

/-- `boot->memory_map`, as `pmm_init` reads it. -/
def BootState.map (state : BootState) (mem : ByteMemory) : List BootMemMapEntry :=
  (List.range state.memoryMapCount).map fun i =>
    BootMemMapEntry.read mem (state.memoryMap - highMemAddr + e820EntrySize * i)

/-- The array for the memory map lies in `.bss` and apart from the stack, `.init.bss` lies before
`.bss` and behind the sections of the file, and the whole kernel before the system executable. -/
structure KernelSymbols.Placed (symbols : KernelSymbols) (entries kernelSize : ℕ) : Prop where
  linked : symbols.Linked
  file : linkAddr + kernelSize ≤ symbols.bootPageDirectory
  ordered : symbols.bootPageDirectory + 4096 ≤ symbols.bssStart
  below : symbols.bssEnd ≤ highMemAddr + systemLoadAddr
  entries_start : symbols.bssStart ≤ entries
  entries_end : entries + e820MaxEntries * e820EntrySize ≤ symbols.bssEnd
  entries_apart : entries + e820MaxEntries * e820EntrySize ≤ symbols.kernelStackTop - 16384 ∨
    symbols.kernelStackTop ≤ entries

section

variable {mem mem' : ByteMemory} {address address' : ℕ}

/-- An entry depends on its bytes only. -/
theorem BootMemMapEntry.read_congr
    (same : ∀ offset < e820EntrySize, mem' (address' + offset) = mem (address + offset)) :
    BootMemMapEntry.read mem' address' = BootMemMapEntry.read mem address := by
  unfold e820EntrySize at same
  have four {field : ℕ} (inside : field + 4 ≤ 24) :
      readLe32 mem' (address' + field) = readLe32 mem (address + field) := by
    refine readLe32_congr fun offset small => ?_
    rw [Nat.add_assoc, Nat.add_assoc]
    exact same _ (by omega)
  have first : readLe32 mem' address' = readLe32 mem address := @four 0 (by decide)
  simp only [BootMemMapEntry.read, first, @four 4 (by decide), @four 8 (by decide),
    @four 12 (by decide), @four 16 (by decide), @four 20 (by decide)]

/-- An entry is read from the bytes that lie there. -/
theorem BootMemMapEntry.read_of_holds {bytes : List UInt8} (held : Holds mem address bytes)
    (length : bytes.length = e820EntrySize) :
    BootMemMapEntry.read mem address = BootMemMapEntry.ofBytes bytes := by
  refine BootMemMapEntry.read_congr fun offset small => ?_
  rw [held offset (length.symm ▸ small), Nat.zero_add]
  exact List.getElem_eq_getD 0

end

section

variable {symbols : KernelSymbols} {machine : BootMachine} {bios : List (List UInt8)}
  {entries size kernelSize : ℕ} {mem : ByteMemory}

theorem KernelSymbols.Placed.outside (placed : symbols.Placed entries kernelSize) :
    ¬ symbols.DirectoryInBss := by
  rintro ⟨lower, -⟩
  have := placed.ordered
  omega

/-- The physical order of the sections, behind the first 64 KiB. -/
theorem KernelSymbols.Placed.phys (placed : symbols.Placed entries kernelSize) :
    2 ^ 16 + kernelSize ≤ symbols.cr3 ∧ symbols.cr3 + 4096 ≤ symbols.bssPhys ∧
      symbols.bssPhys + symbols.bssSize ≤ systemLoadAddr ∧
      symbols.bssPhys ≤ entries - highMemAddr ∧
      entries - highMemAddr + 1536 ≤ symbols.bssPhys + symbols.bssSize ∧
      (entries - highMemAddr + 1536 ≤ symbols.stackPhys - 16384 ∨
        symbols.stackPhys ≤ entries - highMemAddr) ∧
      entries = highMemAddr + (entries - highMemAddr) := by
  have slots : e820MaxEntries * e820EntrySize = 1536 := rfl
  have linked := placed.linked
  have directory := linked.directory
  have stack := linked.stack
  have stack_end := linked.stack_end
  have file := placed.file
  have ordered := placed.ordered
  have below := placed.below
  have entries_start := placed.entries_start
  have entries_end := placed.entries_end
  have entries_apart := placed.entries_apart
  rw [slots] at entries_end entries_apart
  rw [linkAddr_eq] at directory file
  rw [KernelSymbols.cr3, KernelSymbols.bssPhys, KernelSymbols.bssSize, KernelSymbols.stackPhys]
  omega

/-- Before `boot_init`, what Stage2 hands over and the loaded files are as they were. -/
theorem KernelSymbols.Placed.entered_eq (placed : symbols.Placed entries kernelSize) {eax ebx : ℕ}
    {address : ℕ} (outside : address < symbols.cr3 ∨ systemLoadAddr ≤ address) :
    symbols.entered eax ebx mem address = mem address := by
  obtain ⟨-, ordered, below, -⟩ := placed.phys
  exact KernelSymbols.entered_of_outside placed.linked (by omega) (by omega)

theorem HandsOver.congr {mem' : ByteMemory} (hands : HandsOver machine bios size mem)
    (few : bios.length ≤ e820MaxEntries)
    (lengths : ∀ entry ∈ bios, (e820Slot entry).length = e820EntrySize)
    (same : ∀ address < 2 ^ 16, mem' address = mem address) :
    HandsOver machine bios size mem' := by
  have fits := machine.data_fits
  have buffer_eq : machine.e820Buffer = machine.bufFat + 1054 := by
    unfold BootMachine.e820Buffer
    omega
  have info_at : machine.bootInfo = machine.e820Buffer + 1538 := rfl
  have slot : e820EntrySize = 24 := rfl
  have most : e820MaxEntries = 64 := rfl
  refine ⟨?_, fun i entry at_i => (hands.entries i entry at_i).of_same fun target _ upper => ?_⟩
  · rw [← hands.info]
    refine BootInfo.read_congr fun offset small => same _ ?_
    unfold bootInfoSize at small
    omega
  · have i_lt := (List.getElem?_eq_some_iff.mp at_i).1
    have offset : e820EntrySize * i = 24 * i := rfl
    rw [lengths entry (List.mem_of_getElem? at_i)] at upper
    exact same _ (by omega)

/-- The array that `boot_init` has filled holds the entries of the BIOS. -/
theorem BootState.map_eq {state : BootState} (count : state.memoryMapCount = bios.length)
    (lengths : ∀ entry ∈ bios, (e820Slot entry).length = e820EntrySize)
    (held : ∀ i entry, bios[i]? = some entry →
      Holds mem (state.memoryMap - highMemAddr + e820EntrySize * i) (e820Slot entry)) :
    state.map mem = bios.map fun entry => BootMemMapEntry.ofBytes (e820Slot entry) := by
  refine List.ext_getElem? fun i => ?_
  rw [BootState.map, count, List.getElem?_map, List.getElem?_map]
  by_cases inside : i < bios.length
  · have at_i := List.getElem?_eq_getElem inside
    rw [List.getElem?_range inside, at_i, Option.map_some, Option.map_some]
    exact congrArg some (BootMemMapEntry.read_of_holds (held i _ at_i)
      (lengths _ (List.mem_of_getElem? at_i)))
  · rw [List.getElem?_eq_none (by rw [List.length_range]; omega),
      List.getElem?_eq_none (Nat.not_lt.mp inside)]
    rfl

/-- The boot state of a machine whose memory has this number of entries. -/
def BootMachine.state (machine : BootMachine) (entries count size : ℕ) : BootState where
  memoryMapCount := count
  memoryMap := entries
  video := (machine.info count size).video
  systemImage := physToVirt systemLoadAddr
  systemImageSize := size

theorem physToVirt_low {phys : ℕ} (low : phys < 2 ^ 22) (high : ℕ) :
    physToVirt (phys + 2 ^ 32 * high) = highMemAddr + phys := by
  unfold physToVirt kernelVirtOffset
  rw [highMemAddr_eq]
  omega

/-- Where the first 4 MiB are mapped directly, `boot_init` copies what Stage2 hands over. -/
theorem bootInitPaged_hands {translate : Translation} {tables : Set ℕ}
    (direct : translate.Direct tables highMemAddr (2 ^ 22) mem)
    (hands : HandsOver machine bios size mem) (few : bios.length ≤ e820MaxEntries)
    (lengths : ∀ entry ∈ bios, (e820Slot entry).length = e820EntrySize) {target : ℕ}
    (above : 2 ^ 16 ≤ target) (inside : target + 1536 ≤ 2 ^ 22)
    (spared : ∀ address ∈ tables, address < target ∨ target + 1536 ≤ address) :
    ∃ after, bootInitPaged translate (highMemAddr + target) (highMemAddr + machine.bootInfo) mem =
        some (machine.state (highMemAddr + target) bios.length size, after) ∧
      (machine.state (highMemAddr + target) bios.length size).map after =
        bios.map (fun entry => BootMemMapEntry.ofBytes (e820Slot entry)) ∧
      ∀ address, address < target ∨ target + 1536 ≤ address → after address = mem address := by
  have fits := machine.data_fits
  have buffer_eq : machine.e820Buffer = machine.bufFat + 1054 := by
    unfold BootMachine.e820Buffer
    omega
  have info_at : machine.bootInfo = machine.e820Buffer + 1538 := rfl
  have slots : e820EntrySize * bios.length = 24 * bios.length := rfl
  have most : e820MaxEntries = 64 := rfl
  have read := direct.read (show machine.bootInfo + bootInfoSize ≤ 2 ^ 22 by
    unfold bootInfoSize
    omega)
  have info : BootInfo.read (fun i => ((List.range bootInfoSize).map fun index =>
      mem (machine.bootInfo + index)).getD i 0) 0 = machine.info bios.length size := by
    rw [← hands.info]
    refine BootInfo.read_congr fun offset small => ?_
    rw [Nat.zero_add, List.getD_eq_getElem?_getD, List.getElem?_map, List.getElem?_range small]
    rfl
  have map_at : physToVirt (machine.info bios.length size).memoryMapPhys =
      highMemAddr + machine.e820Buffer := by
    have low := @physToVirt_low machine.e820Buffer (by omega) 0
    rwa [Nat.mul_zero, Nat.add_zero] at low
  obtain ⟨after, ran, copied, kept⟩ := direct.copy
    (show machine.e820Buffer + e820EntrySize * bios.length ≤ 2 ^ 22 by omega)
    (show target + e820EntrySize * bios.length ≤ 2 ^ 22 by omega)
    (fun address member => by
      have := spared address member
      omega) (by omega)
  refine ⟨after, ?_, BootState.map_eq rfl lengths fun i entry at_i => ?_,
    fun address outside => kept address (by omega)⟩
  · rw [bootInitPaged, read, Option.bind_some]
    simp only [info, map_at]
    rw [show (machine.info bios.length size).memoryMapCount = bios.length from rfl, ran]
    rfl
  · have i_lt := (List.getElem?_eq_some_iff.mp at_i).1
    have length := lengths entry (List.mem_of_getElem? at_i)
    have place : (machine.state (highMemAddr + target) bios.length size).memoryMap - highMemAddr =
        target := Nat.add_sub_cancel_left ..
    have slot : e820EntrySize * i = 24 * i := rfl
    have width : e820EntrySize = 24 := rfl
    intro offset small
    rw [place, Nat.add_assoc, copied _ (by omega), ← Nat.add_assoc]
    exact hands.entries i entry at_i offset small

/-- `kmain` gets through `boot_init`, and changes only the array that it copies to. -/
theorem kmain_boots (placed : symbols.Placed entries kernelSize)
    (hands : HandsOver machine bios size mem) (few : bios.length ≤ e820MaxEntries)
    (lengths : ∀ entry ∈ bios, (e820Slot entry).length = e820EntrySize) :
    ∃ after, kmain (x86Translate symbols.cr3) entries (symbols.kernelStackTop - 12)
        (symbols.entered bootMagic machine.bootInfo mem) =
          some (.ok (machine.state entries bios.length size, after)) ∧
      (machine.state entries bios.length size).map after =
        bios.map (fun entry => BootMemMapEntry.ofBytes (e820Slot entry)) ∧
      ∀ address, address < symbols.cr3 ∨ systemLoadAddr ≤ address →
        after address = mem address := by
  obtain ⟨above, ordered, below, entries_start, entries_end, apart, entries_eq⟩ := placed.phys
  obtain ⟨-, -, -, stack, stack_end⟩ := placed.linked.bss_eq
  have load : systemLoadAddr = 0x70000 := rfl
  have fits := machine.data_fits
  have info_at : machine.bootInfo = machine.bufFat + 1024 + 24 + 6 + 1536 + 2 := rfl
  have direct : (x86Translate symbols.cr3).Direct (kernelEntryBytes symbols.cr3) highMemAddr
      (2 ^ 22) (symbols.entered bootMagic machine.bootInfo mem) :=
    placed.linked.direct (KernelSymbols.read32_entered_entry placed.linked placed.outside)
  have handed : HandsOver machine bios size (symbols.entered bootMagic machine.bootInfo mem) :=
    hands.congr few lengths fun address low => placed.entered_eq (by omega)
  obtain ⟨magic, info⟩ := @KernelSymbols.read32_entered symbols mem bootMagic machine.bootInfo
    placed.linked (by decide) (by omega)
  have place (offset : ℕ) (small : offset ≤ 12) :
      symbols.kernelStackTop - 12 + offset = highMemAddr + (symbols.stackPhys - (12 - offset)) := by
    have bss := placed.linked.bss
    have top := placed.linked.stack
    rw [linkAddr_eq] at bss
    rw [KernelSymbols.stackPhys]
    omega
  obtain ⟨after, ran, map_eq, kept⟩ := bootInitPaged_hands direct handed few lengths
    (show 2 ^ 16 ≤ entries - highMemAddr by omega) (by omega) (by
      rintro address ⟨lower, upper⟩
      have index : pdIndexKernel * 4 = 3072 := rfl
      omega)
  rw [← entries_eq] at ran map_eq
  refine ⟨after, ?_, map_eq, fun address outside =>
    (kept address (by omega)).trans (placed.entered_eq outside)⟩
  rw [kmain, place 4 (by omega), place 8 (by omega), place 12 le_rfl, direct.read32 (by omega),
    Option.bind_some, direct.read32 (by omega), Option.bind_some, direct.read32 (by omega),
    Option.bind_some, show 12 - 4 = 8 from rfl, show 12 - 8 = 4 from rfl, magic, info,
    physToVirt_low (by omega), ran]
  rfl

/-- Below the directory and from the system executable on, the bytes of a file stay in place. -/
theorem Loaded.holds {vbr : Vbr} {after : ByteMemory} {bytes : List UInt8} {address : ℕ}
    (loaded : Loaded vbr mem address bytes) (sized : 0 < fat32ClusterSize vbr)
    (same : ∀ target, address ≤ target → target < address + bytes.length →
      after target = mem target) : Holds after address bytes := by
  intro offset inside
  have covered := le_loadedSize sized bytes.length
  rw [same _ (Nat.le_add_right ..) (by omega), loaded offset (by omega)]
  exact (List.getElem_eq_getD 0).symm

end

theorem smallSymbols_placed : smallSymbols.Placed 0xC0026000 600 where
  linked := smallSymbols_linked
  file := by decide
  ordered := by decide
  below := by decide
  entries_start := by decide
  entries_end := by decide
  entries_apart := .inr (by decide)

end ItWorksOS
