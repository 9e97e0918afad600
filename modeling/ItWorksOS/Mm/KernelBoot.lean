import ItWorksOS.Arch.X86.Permissions
import ItWorksOS.Mm.KernelVm
import ItWorksOS.Mm.PmmExact

/-!
# `vm_kern_init` under the boot page directory

Until `vm_kern_init` loads its own directory, the processor translates through the
`boot_page_directory` of `arch/x86/kernel.asm`, which maps the first 4 MiB of physical memory. The
page table code of `arch/x86/mm.c` is written here once more with this translation at every access
to a frame. An access without a translation is a page fault, which nothing handles yet: `kmain`
calls `arch_init`, and with it `x86_idt_init`, only after `mm_init`. The kernel image and the PMM
bitmap behind it are in use under this directory before, and are taken to lie in its 4 MiB.
-/

namespace ItWorksOS

/-- `PAGE_4MB_FLAGS`. -/
abbrev page4mbFlags : ℕ := 0x83

/-- `PD_INDEX_KERNEL`. -/
abbrev pdIndexKernel : ℕ := 768

/-- `boot_page_directory` after `_start`: the identity mapping and the higher-half mapping. -/
def bootPageDirectory (index : ℕ) : ℕ :=
  if index = 0 then page4mbFlags else if index = pdIndexKernel then page4mbFlags else 0

/-- Translation of the processor under `boot_page_directory`, whose pages have 4 MiB. -/
def bootTranslate (va : ℕ) : Option ℕ :=
  if bootPageDirectory (pdeIndex va) &&& x86Present = 0 then none
  else some ((bootPageDirectory (pdeIndex va) &&& 0xFFC00000) ||| (va &&& 0x3FFFFF))

/-- `table[index]` for a table behind `PHYS_TO_VIRT`. -/
def entryAtBoot (machine : Machine) (table index : ℕ) : Option ℕ :=
  (bootTranslate ((physToVirt table + 4 * index) % 2 ^ 32)).map machine.mem.read32

/-- `table[index] = value`. -/
def setEntryAtBoot (machine : Machine) (table index value : ℕ) : Option Machine :=
  (bootTranslate ((physToVirt table + 4 * index) % 2 ^ 32)).map fun phys =>
    { machine with mem := machine.mem.write32 phys value }

/-- `memset` at a virtual address. -/
def memsetAtBoot (mem : ByteMemory) (dst : ℕ) (val : UInt8) : ℕ → Option ByteMemory
  | 0 => some mem
  | n + 1 =>
      (memsetAtBoot mem dst val n).bind fun mem =>
        (bootTranslate ((dst + n) % 2 ^ 32)).map fun phys => mem.write8 phys val

/-- Allocate one LowMem frame and clear it. -/
def archAllocTableAtBoot (machine : Machine) : Option (Except KError ℕ × Machine) :=
  match pmmAllocLowmem machine.pmm 1 with
  | (.error error, pmm) => some (.error error, { machine with pmm := pmm })
  | (.ok phys, pmm) =>
      (memsetAtBoot machine.mem (physToVirt phys) 0 x86PageSize).map fun mem =>
        (.ok phys, { mem := mem, pmm := pmm })

/-- `arch_vm_space_init`. -/
def archVmSpaceInitAtBoot (machine : Machine) : Option (Except KError ArchVmSpace × Machine) :=
  (archAllocTableAtBoot machine).map fun
    | (.error error, machine) => (.error error, machine)
    | (.ok pdPhys, machine) => (.ok ⟨pdPhys⟩, machine)

/-- The loop of `arch_vm_kernel_prepare` over `count` directory entries from `index`. -/
def archVmKernelPrepareFromAtBoot (vm : ArchVmSpace) :
    ℕ → ℕ → Machine → Option (Status × Machine)
  | 0, _, machine => some (.ok (), machine)
  | count + 1, index, machine =>
      (archAllocTableAtBoot machine).bind fun
        | (.error error, machine) => some (.error error, machine)
        | (.ok ptPhys, machine) =>
            (setEntryAtBoot machine vm.pdPhys index (ptPhys ||| x86Present ||| x86Writable)).bind
              (archVmKernelPrepareFromAtBoot vm count (index + 1))

/-- `arch_vm_kernel_prepare`. -/
def archVmKernelPrepareAtBoot (machine : Machine) (vm : ArchVmSpace) : Option (Status × Machine) :=
  archVmKernelPrepareFromAtBoot vm (x86PdeCount - x86KernelPdeBase) x86KernelPdeBase machine

/-- Find the directory entry for an address, allocating its page table when there is none. -/
def archVmTableAtBoot (machine : Machine) (vm : ArchVmSpace) (va flags : ℕ) :
    Option (Except KError ℕ × Machine) :=
  (entryAtBoot machine vm.pdPhys (pdeIndex va)).bind fun pde =>
    if pde &&& x86Present = 0 then
      (archAllocTableAtBoot machine).bind fun
        | (.error error, machine) => some (.error error, machine)
        | (.ok ptPhys, machine) =>
            (setEntryAtBoot machine vm.pdPhys (pdeIndex va)
                (ptPhys ||| x86VmFlagsToPde flags)).bind fun machine =>
              (entryAtBoot machine vm.pdPhys (pdeIndex va)).map fun pde => (.ok pde, machine)
    else if pde &&& x86PdePageSize ≠ 0 then some (.error .nosup, machine)
    else some (.ok pde, machine)

/-- The body of the loop of `arch_vm_map`. -/
def archVmMapPageAtBoot (vm : ArchVmSpace) (va pa flags : ℕ) (machine : Machine) :
    Option (Status × Machine) :=
  (archVmTableAtBoot machine vm va flags).bind fun
    | (.error error, machine) => some (.error error, machine)
    | (.ok pde, machine) =>
        (entryAtBoot machine (pde &&& x86PageMask) (pteIndex va)).bind fun pte =>
          if pte &&& x86Present ≠ 0 then some (.error .existing, machine)
          else
            (setEntryAtBoot machine (pde &&& x86PageMask) (pteIndex va)
              ((pa &&& x86PageMask) ||| x86VmFlagsToPte flags)).map fun machine => (.ok (), machine)

/-- The body of the loop of `arch_vm_protect`. -/
def archVmProtectPageAtBoot (vm : ArchVmSpace) (va flags : ℕ) (machine : Machine) :
    Option (Status × Machine) :=
  (entryAtBoot machine vm.pdPhys (pdeIndex va)).bind fun pde =>
    if pde &&& x86Present = 0 then some (.error .noent, machine)
    else if pde &&& x86PdePageSize ≠ 0 then some (.error .nosup, machine)
    else
      (entryAtBoot machine (pde &&& x86PageMask) (pteIndex va)).bind fun pte =>
        if pte &&& x86Present = 0 then some (.error .noent, machine)
        else
          (setEntryAtBoot machine (pde &&& x86PageMask) (pteIndex va)
            ((pte &&& x86PageMask) ||| x86VmFlagsToPte flags)).map fun machine => (.ok (), machine)

/-- `for (off = 0; off < size; off += X86_PAGE_SIZE)` with an early return, over `count` pages. -/
@[irreducible] def forPagesAtBoot (body : ℕ → Machine → Option (Status × Machine)) :
    ℕ → ℕ → Machine → Option (Status × Machine)
  | 0, _, machine => some (.ok (), machine)
  | count + 1, off, machine =>
      match body off machine with
      | none => none
      | some (.error error, machine) => some (.error error, machine)
      | some (.ok (), machine) => forPagesAtBoot body count (off + x86PageSize) machine

/-- `arch_vm_map`. -/
def archVmMapAtBoot (machine : Machine) (vm : ArchVmSpace) (virt phys size flags : ℕ) :
    Option (Status × Machine) :=
  if size = 0 then some (.error .inval, machine)
  else if !alignTest virt x86PageSize || !alignTest phys x86PageSize ||
      !alignTest size x86PageSize then
    some (.error .inval, machine)
  else
    forPagesAtBoot
      (fun off => archVmMapPageAtBoot vm ((virt + off) % 2 ^ 32) ((phys + off) % 2 ^ 64) flags)
      (size / x86PageSize) 0 machine

/-- `arch_vm_protect`. -/
def archVmProtectAtBoot (machine : Machine) (vm : ArchVmSpace) (virt size flags : ℕ) :
    Option (Status × Machine) :=
  if size = 0 then some (.error .inval, machine)
  else if !alignTest virt x86PageSize || !alignTest size x86PageSize then
    some (.error .inval, machine)
  else
    forPagesAtBoot (fun off => archVmProtectPageAtBoot vm ((virt + off) % 2 ^ 32) flags)
      (size / x86PageSize) 0 machine

variable {Heap : Type*}

/-- The effect of a function of the architecture layer. -/
def Kernel.liftAtBoot (kernel : Kernel Heap) (result : Option (Status × Machine)) :
    Option (Status × Kernel Heap) :=
  result.map kernel.lift

/-- `vm_kern_map`. -/
def vmKernMapAtBoot (kernel : Kernel Heap) (virt phys size flags : ℕ) :
    Option (Status × Kernel Heap) :=
  if !vmKernRangeValid virt size then some (.error .inval, kernel)
  else kernel.liftAtBoot (archVmMapAtBoot kernel.machine kernel.kernelVm virt phys size flags)

/-- `vm_kern_protect`. -/
def vmKernProtectAtBoot (kernel : Kernel Heap) (virt size flags : ℕ) :
    Option (Status × Kernel Heap) :=
  if !vmKernRangeValid virt size then some (.error .inval, kernel)
  else kernel.liftAtBoot (archVmProtectAtBoot kernel.machine kernel.kernelVm virt size flags)

/-- `KERR_TRY`. -/
def kerrTryAtBoot {State : Type*} (result : Option (Status × State))
    (next : State → Option (Status × State)) : Option (Status × State) :=
  result.bind fun
    | (.error error, state) => some (.error error, state)
    | (.ok (), state) => next state

/-- The calls of `vm_kern_init` that lay out the direct map and its read-only sections. -/
def vmKernLayoutAtBoot (sections : KernelSections) (kernel : Kernel Heap) :
    Option (Status × Kernel Heap) :=
  kerrTryAtBoot (vmKernMapAtBoot kernel kernelVirtOffset 0 kernelDirectMapSize (vmRead ||| vmWrite))
    fun kernel =>
  kerrTryAtBoot (vmKernProtectAtBoot kernel sections.textStart
    (sectionSize sections.textStart sections.textEnd) (vmRead ||| vmExec)) fun kernel =>
  vmKernProtectAtBoot kernel sections.rodataStart
    (sectionSize sections.rodataStart sections.rodataEnd) vmRead

/-- `vm_kern_init`. -/
def vmKernInitAtBoot (sections : KernelSections) (kernel : Kernel Heap) :
    Option (Status × Kernel Heap) :=
  match archVmSpaceInitAtBoot kernel.machine with
  | none => none
  | some (.error error, machine) => some (.error error, { kernel with machine := machine })
  | some (.ok kernelVm, machine) =>
      match archVmKernelPrepareAtBoot machine kernelVm with
      | none => none
      | some (.error error, machine) =>
          some (.error error, { kernel with machine := machine, kernelVm := kernelVm })
      | some (.ok (), machine) =>
          vmKernLayoutAtBoot sections { kernel with machine := machine, kernelVm := kernelVm }

/-! ## Frames below 4 MiB -/

/-- Free frames that the boot page directory reaches. -/
def Pmm.bootSet (pmm : Pmm) : Finset ℕ := pmm.lowSet.filter (· < 1024)

section Access

variable {machine : Machine} {frame offset index value : ℕ}

theorem bootTranslate_eq {va : ℕ} :
    bootTranslate va =
      if va / 2 ^ 22 = 0 ∨ va / 2 ^ 22 = 768 then some (va % 2 ^ 22) else none := by
  have offset_eq : va &&& 0x3FFFFF = va % 2 ^ 22 := Nat.and_two_pow_sub_one_eq_mod va 22
  have base_eq : page4mbFlags &&& 0xFFC00000 = 0 := by decide
  rw [bootTranslate, bootPageDirectory, pdeIndex_eq, offset_eq]
  by_cases first : va / 2 ^ 22 = 0
  · rw [if_pos first, if_pos (Or.inl first), if_neg (by decide), base_eq,
      Nat.zero_or]
  · by_cases kernel : va / 2 ^ 22 = 768
    · rw [if_neg first, if_pos kernel, if_pos (Or.inr kernel), if_neg (by decide), base_eq,
        Nat.zero_or]
    · rw [if_neg first, if_neg kernel, if_neg (not_or.mpr ⟨first, kernel⟩), if_pos (by decide)]

/-- The direct map reaches a frame at boot exactly when it lies below 4 MiB. -/
theorem bootTranslate_frame (lowmem : frame < 196608) (inside : offset < 4096) :
    bootTranslate ((physToVirt (frame * 4096) + offset) % 2 ^ 32) =
      if frame < 1024 then some (frame * 4096 + offset) else none := by
  have lowmem' : frame * 4096 < kernelLowmemLimit := by
    unfold kernelLowmemLimit
    omega
  rw [physToVirt_of_lowmem lowmem', bootTranslate_eq]
  by_cases low : frame < 1024
  · rw [if_pos low, if_pos (Or.inr (by omega))]
    congr 1
    omega
  · rw [if_neg low, if_neg (by omega)]

theorem entryAtBoot_eq (low : frame < 1024) (index_lt : index < 1024) :
    entryAtBoot machine (frame * 4096) index = some (machine.entry (frame * 4096) index) := by
  rw [entryAtBoot, bootTranslate_frame (by omega) (by omega), if_pos low]
  rfl

theorem setEntryAtBoot_eq (low : frame < 1024) (index_lt : index < 1024) :
    setEntryAtBoot machine (frame * 4096) index value =
      some (machine.setEntry (frame * 4096) index value) := by
  rw [setEntryAtBoot, bootTranslate_frame (by omega) (by omega), if_pos low]
  rfl

/-- Clearing a part of a frame faults exactly when the frame is out of reach. -/
theorem memsetAtBoot_eq (mem : ByteMemory) (val : UInt8) (lowmem : frame < 196608) {n : ℕ}
    (n_le : n ≤ 4096) :
    memsetAtBoot mem (physToVirt (frame * 4096)) val n =
      if frame < 1024 ∨ n = 0 then some (memset mem (frame * 4096) val n) else none := by
  induction n with
  | zero => simp [memsetAtBoot, memset, ByteMemory.fill]
  | succ n induction =>
      rw [memsetAtBoot, induction (by omega), bootTranslate_frame lowmem (by omega)]
      by_cases low : frame < 1024
      · rw [if_pos (Or.inl low), if_pos low, if_pos (Or.inl low)]
        rfl
      · rw [if_neg low, if_neg (by omega : ¬ (frame < 1024 ∨ n + 1 = 0))]
        simp

end Access

/-! ## Allocation of the tables -/

section Tables

variable {machine machine' : Machine} {kernelDir frame : ℕ}

/-- A LowMem allocation of one frame takes the least free frame. -/
theorem pmmAllocLowmem_least (pmm : Pmm) (free : 0 < pmm.lowSet.card) :
    ∃ frame, IsLeast (pmm.lowSet : Set ℕ) frame ∧
      pmmAllocLowmem pmm 1 = (.ok (frame * 4096), pmmMark pmm frame 1) := by
  have member_iff (frame : ℕ) : frame ∈ pmm.lowSet ↔
      frame ∈ pmm.runs (pmmStartFrame 0) (pmmMaxFrame pmm kernelLowmemLimit) 1 := by
    simp only [Pmm.lowSet, Finset.mem_filter, Finset.mem_range, Pmm.runs, Set.mem_ofPred_eq,
      pmmMaxFrame_lowmem, pmmStartFrame]
    constructor
    · rintro ⟨bounds, unmarked⟩
      refine ⟨Nat.zero_le _, bounds, fun other lower upper => ?_⟩
      rwa [show other = frame by omega]
    · rintro ⟨_, bounds, unmarked⟩
      exact ⟨bounds, unmarked frame (Nat.le_refl _) (Nat.lt_succ_self _)⟩
  rw [pmmAllocLowmem, pmmAlloc, if_neg (by decide)]
  split
  · rename_i first search
    obtain ⟨member, least⟩ := pmmSearch_isLeast (by decide : 0 < 1) search
    refine ⟨first, ⟨(member_iff first).mpr member, fun other other_mem => ?_⟩, rfl⟩
    exact least ((member_iff other).mp other_mem)
  · rename_i search
    obtain ⟨frame, member⟩ := Finset.card_pos.mp free
    have none_free := pmmSearch_eq_none (by decide : 0 < 1) search
    have absurd_mem := (member_iff frame).mp member
    rw [none_free] at absurd_mem
    exact absurd absurd_mem (Set.notMem_empty _)

/-- Taking a frame below 4 MiB leaves one less of them. -/
theorem bootSet_pmmMark {pmm : Pmm} (member : frame ∈ pmm.bootSet) :
    (pmmMark pmm frame 1).bootSet.card + 1 = pmm.bootSet.card := by
  rw [Pmm.bootSet, lowSet_pmmMark_erase, Finset.filter_erase]
  exact Finset.card_erase_add_one member

theorem bootSet_card_le (pmm : Pmm) : pmm.bootSet.card ≤ pmm.lowSet.card :=
  Finset.card_filter_le _ _

/-- While a frame below 4 MiB is free, the allocation of a table takes one and does not fault. -/
theorem archAllocTableAtBoot_of_free (machine : Machine) (free : 0 < machine.pmm.bootSet.card) :
    ∃ frame, frame < 1024 ∧ FreshFrame machine frame ∧
      archAllocTable machine = (.ok (frame * 4096), clearedFrame machine frame) ∧
      archAllocTableAtBoot machine = some (.ok (frame * 4096), clearedFrame machine frame) ∧
      (clearedFrame machine frame).pmm.bootSet.card + 1 = machine.pmm.bootSet.card := by
  obtain ⟨frame, ⟨member, least⟩, allocated⟩ := pmmAllocLowmem_least machine.pmm
    (free.trans_le (bootSet_card_le machine.pmm))
  obtain ⟨other, other_mem⟩ := Finset.card_pos.mp free
  obtain ⟨other_low, other_lt⟩ := Finset.mem_filter.mp other_mem
  have frame_lt : frame < 1024 := (least other_low).trans_lt other_lt
  refine ⟨frame, frame_lt, freshFrame_iff.mpr member, ?_, ?_,
    bootSet_pmmMark (Finset.mem_filter.mpr ⟨member, frame_lt⟩)⟩
  · rw [archAllocTable, allocated]
    rfl
  · rw [archAllocTableAtBoot, allocated]
    simp only
    rw [memsetAtBoot_eq _ _ (by omega) (by decide), if_pos (Or.inl frame_lt)]
    rfl

/-- Once all of them are taken, the allocation of a table faults. -/
theorem archAllocTableAtBoot_of_taken (taken : machine.pmm.bootSet.card = 0)
    (free : 0 < machine.pmm.lowSet.card) : archAllocTableAtBoot machine = none := by
  obtain ⟨frame, ⟨member, _⟩, allocated⟩ := pmmAllocLowmem_least machine.pmm free
  have high : ¬ frame < 1024 := fun low => by
    have inside : frame ∈ machine.pmm.bootSet := Finset.mem_filter.mpr ⟨member, low⟩
    rw [Finset.card_eq_zero.mp taken] at inside
    exact absurd inside (Finset.notMem_empty _)
  rw [archAllocTableAtBoot, allocated]
  simp only
  rw [memsetAtBoot_eq _ _ (freshFrame_iff.mpr member).lowmem (by decide),
    if_neg (not_or.mpr ⟨high, by decide⟩)]
  rfl

/-- Entries of a directory from an index on that refer to supervisor tables below 4 MiB. -/
def ReachedTables (machine : Machine) (kernelDir first last : ℕ) : Prop :=
  ∀ index, first ≤ index → index < last →
    ∃ frame < 1024, machine.mem.word kernelDir index = frame * 4096 + 3

/-- One iteration of `arch_vm_kernel_prepare` once its table is allocated. -/
theorem archVmKernelPrepareFrom_succ {vm : ArchVmSpace} {ptPhys : ℕ}
    (allocated : archAllocTable machine = (.ok ptPhys, machine')) (count index : ℕ) :
    archVmKernelPrepareFrom vm (count + 1) index machine =
      archVmKernelPrepareFrom vm count (index + 1)
        (machine'.setEntry vm.pdPhys index (ptPhys ||| x86Present ||| x86Writable)) := by
  rw [archVmKernelPrepareFrom, allocated]

theorem archVmKernelPrepareFromAtBoot_succ {vm : ArchVmSpace} {ptPhys : ℕ}
    (allocated : archAllocTableAtBoot machine = some (.ok ptPhys, machine')) (count index : ℕ) :
    archVmKernelPrepareFromAtBoot vm (count + 1) index machine =
      (setEntryAtBoot machine' vm.pdPhys index (ptPhys ||| x86Present ||| x86Writable)).bind
        (archVmKernelPrepareFromAtBoot vm count (index + 1)) := by
  rw [archVmKernelPrepareFromAtBoot, allocated, Option.bind_some]

/-- The loop of `arch_vm_kernel_prepare` does not fault while it finds frames below 4 MiB. -/
theorem archVmKernelPrepareFromAtBoot_of_free {count index : ℕ} (dir_lt : kernelDir < 1024)
    (marked : machine.pmm.Marked kernelDir) (free : count ≤ machine.pmm.bootSet.card)
    (sum : index + count = 1024) (reached : ReachedTables machine kernelDir 768 index) :
    ∃ machine', archVmKernelPrepareFrom ⟨kernelDir * 4096⟩ count index machine =
        (.ok (), machine') ∧
      archVmKernelPrepareFromAtBoot ⟨kernelDir * 4096⟩ count index machine =
        some (.ok (), machine') ∧
      ReachedTables machine' kernelDir 768 1024 := by
  induction count generalizing index machine with
  | zero =>
      obtain rfl : index = 1024 := by omega
      exact ⟨machine, rfl, rfl, reached⟩
  | succ count induction =>
      obtain ⟨frame, frame_lt, fresh, allocated, allocated', card_eq⟩ :=
        archAllocTableAtBoot_of_free machine (by omega)
      have value_eq : frame * 4096 ||| x86Present ||| x86Writable = frame * 4096 + 3 := by
        rw [Nat.or_assoc, show x86Present ||| x86Writable = 3 from rfl,
          or_entryFlags _ (by decide)]
      have dir_ne : kernelDir ≠ frame := by
        rintro rfl
        exact fresh.free marked
      obtain ⟨cleared, cleared_eq⟩ : ∃ cleared, cleared = clearedFrame machine frame := ⟨_, rfl⟩
      have marked' : cleared.pmm.Marked kernelDir := by
        rw [cleared_eq, clearedFrame, marked_pmmMark]
        exact Or.inr marked
      have word_eq {other : ℕ} (other_lt : other < 1024) :
          (cleared.setEntry (kernelDir * 4096) index (frame * 4096 + 3)).mem.word kernelDir other =
            if other = index then frame * 4096 + 3 else machine.mem.word kernelDir other := by
        have written : (cleared.setEntry (kernelDir * 4096) index (frame * 4096 + 3)).mem =
            cleared.mem.setWord kernelDir index (frame * 4096 + 3) := rfl
        rw [written, ByteMemory.word_setWord (by omega) other_lt (by omega)]
        simp only [true_and]
        split
        · rfl
        · rw [cleared_eq]
          exact (clearedFrame_agreeOn dir_ne).word_eq other_lt
      rw [← cleared_eq] at allocated allocated' card_eq
      rw [archVmKernelPrepareFrom_succ allocated, archVmKernelPrepareFromAtBoot_succ allocated',
        setEntryAtBoot_eq dir_lt (by omega), Option.bind_some, value_eq]
      refine induction marked' ?_ (by omega) ?_
      · simp only [Machine.setEntry]
        omega
      · intro other lower upper
        rw [word_eq (by omega)]
        split
        · exact ⟨frame, frame_lt, rfl⟩
        · exact reached other lower (by omega)

/-- The loop of `arch_vm_kernel_prepare` faults when the frames below 4 MiB do not suffice. -/
theorem archVmKernelPrepareFromAtBoot_of_taken {count index : ℕ} (dir_lt : kernelDir < 1024)
    (taken : machine.pmm.bootSet.card < count) (free : count ≤ machine.pmm.lowSet.card)
    (sum : index + count = 1024) :
    archVmKernelPrepareFromAtBoot ⟨kernelDir * 4096⟩ count index machine = none := by
  induction count generalizing index machine with
  | zero => omega
  | succ count induction =>
      by_cases empty : machine.pmm.bootSet.card = 0
      · rw [archVmKernelPrepareFromAtBoot, archAllocTableAtBoot_of_taken empty (by omega),
          Option.bind_none]
      · obtain ⟨frame, frame_lt, fresh, _, allocated, card_eq⟩ :=
          archAllocTableAtBoot_of_free machine (by omega)
        have lowSet_eq : (clearedFrame machine frame).pmm.lowSet.card + 1 =
            machine.pmm.lowSet.card := lowSet_pmmMark fresh
        rw [archVmKernelPrepareFromAtBoot_succ allocated, setEntryAtBoot_eq dir_lt (by omega),
          Option.bind_some]
        refine induction ?_ ?_ (by omega)
        · simp only [Machine.setEntry]
          omega
        · simp only [Machine.setEntry]
          omega

end Tables

/-! ## The layout -/

/-- Kernel tables within reach of the boot page directory. -/
structure BootTables (kernelDir : ℕ) (machine : Machine) : Prop where
  tables : PageTables kernelDir [] machine
  ready : KernelReady kernelDir machine
  dir_lt : kernelDir < 1024
  reached : ReachedTables machine kernelDir 768 1024

section Loops

variable {kernelDir va pa virt phys size flags : ℕ} {machine machine' : Machine}

theorem BootTables.rewritten (boot : BootTables kernelDir machine) {changed : Set (ℕ × ℕ)}
    {word : ℕ → ℕ}
    (rewritten : Rewritten kernelDir [] kernelDir machine machine' changed word) :
    BootTables kernelDir machine' := by
  refine ⟨rewritten.tables, rewritten.ready, boot.dir_lt, fun index lower upper => ?_⟩
  rw [rewritten.entries kernelDir (List.mem_cons_self ..) index upper fun _ => lower]
  exact boot.reached index lower upper

/-- The directory entry of a kernel address is read without a fault and refers to a table within
reach. -/
theorem BootTables.table (boot : BootTables kernelDir machine) (lower : kernelVirtOffset ≤ va)
    (va_lt : va < 2 ^ 32) :
    ∃ frame pde, frame < 1024 ∧ machine.entry (kernelDir * 4096) (pdeIndex va) = pde ∧
      entryAtBoot machine (kernelDir * 4096) (pdeIndex va) = some pde ∧
      ¬ pde &&& x86Present = 0 ∧ ¬ pde &&& x86PdePageSize ≠ 0 ∧
      pde &&& x86PageMask = frame * 4096 := by
  obtain ⟨frame, frame_lt, word_eq⟩ := boot.reached (va / 2 ^ 22)
    (by unfold kernelVirtOffset at lower; omega) (by omega)
  have entry_eq : machine.entry (kernelDir * 4096) (pdeIndex va) = frame * 4096 + 3 := by
    rw [pdeIndex_eq]
    exact word_eq
  refine ⟨frame, frame * 4096 + 3, frame_lt, entry_eq, ?_, ?_, ?_, ?_⟩
  · rw [entryAtBoot_eq boot.dir_lt (by rw [pdeIndex_eq]; omega), entry_eq]
  · rw [and_present]
    unfold EntryPresent
    omega
  · rw [ne_eq, and_pdePageSize]
    omega
  · rw [and_pageMask]
    omega

theorem pteIndex_lt (va : ℕ) : pteIndex va < 1024 := by
  rw [pteIndex_eq]
  omega

/-- One iteration of `arch_vm_map` on kernel tables within reach. -/
theorem archVmMapPageAtBoot_eq (boot : BootTables kernelDir machine)
    (lower : kernelVirtOffset ≤ va) (va_lt : va < 2 ^ 32) (pa flags : ℕ) :
    archVmMapPageAtBoot ⟨kernelDir * 4096⟩ va pa flags machine =
      some (archVmMapPage ⟨kernelDir * 4096⟩ va pa flags machine) := by
  obtain ⟨frame, pde, frame_lt, entry_eq, read_eq, present, small, table_eq⟩ :=
    boot.table lower va_lt
  have table : archVmTable machine ⟨kernelDir * 4096⟩ va flags = (.ok pde, machine) := by
    simp only [archVmTable, entry_eq]
    rw [if_neg present, if_neg small]
  have tableAtBoot : archVmTableAtBoot machine ⟨kernelDir * 4096⟩ va flags =
      some (.ok pde, machine) := by
    rw [archVmTableAtBoot, read_eq, Option.bind_some, if_neg present, if_neg small]
  rw [archVmMapPageAtBoot, tableAtBoot, archVmMapPage, table, Option.bind_some]
  simp only [table_eq]
  rw [entryAtBoot_eq frame_lt (pteIndex_lt va), Option.bind_some,
    setEntryAtBoot_eq frame_lt (pteIndex_lt va), Option.map_some]
  split <;> rfl

/-- One iteration of `arch_vm_protect` on kernel tables within reach. -/
theorem archVmProtectPageAtBoot_eq (boot : BootTables kernelDir machine)
    (lower : kernelVirtOffset ≤ va) (va_lt : va < 2 ^ 32) (flags : ℕ) :
    archVmProtectPageAtBoot ⟨kernelDir * 4096⟩ va flags machine =
      some (archVmProtectPage ⟨kernelDir * 4096⟩ va flags machine) := by
  obtain ⟨frame, pde, frame_lt, entry_eq, read_eq, present, small, table_eq⟩ :=
    boot.table lower va_lt
  rw [archVmProtectPageAtBoot, read_eq, Option.bind_some, if_neg present, if_neg small, table_eq,
    entryAtBoot_eq frame_lt (pteIndex_lt va), Option.bind_some,
    setEntryAtBoot_eq frame_lt (pteIndex_lt va), Option.map_some]
  simp only [archVmProtectPage, archVmPresentTable, entry_eq, table_eq]
  rw [if_neg present, if_neg small]
  split <;> rfl

/-- A page loop whose body does not fault as long as an invariant holds. -/
theorem forPagesAtBoot_eq (Kept : Machine → Prop) {body : ℕ → Machine → Status × Machine}
    {bodyAtBoot : ℕ → Machine → Option (Status × Machine)} (limit : ℕ)
    (step : ∀ off < limit, ∀ machine, Kept machine →
      bodyAtBoot off machine = some (body off machine) ∧ Kept (body off machine).2)
    {count off : ℕ} (fits : off + 4096 * count ≤ limit) {machine : Machine}
    (kept : Kept machine) :
    forPagesAtBoot bodyAtBoot count off machine = some (forPages body count off machine) ∧
      Kept (forPages body count off machine).2 := by
  induction count generalizing off machine with
  | zero =>
      rw [forPagesAtBoot, forPages]
      exact ⟨rfl, kept⟩
  | succ count induction =>
      obtain ⟨ran, next⟩ := step off (by omega) machine kept
      rw [forPagesAtBoot, forPages, ran]
      obtain ⟨⟨status, machine'⟩, result_eq⟩ : ∃ result, body off machine = result := ⟨_, rfl⟩
      rw [result_eq] at next ⊢
      cases status with
      | error error => exact ⟨rfl, next⟩
      | ok => exact induction (by unfold x86PageSize; omega) next

/-- `arch_vm_map` on the kernel half does not fault when the kernel tables are within reach. -/
theorem archVmMapAtBoot_eq (boot : BootTables kernelDir machine) (lower : kernelVirtOffset ≤ virt)
    (fits : 4096 ≤ size → virt + size ≤ 2 ^ 32) (phys flags : ℕ) :
    archVmMapAtBoot machine ⟨kernelDir * 4096⟩ virt phys size flags =
        some (archVmMap machine ⟨kernelDir * 4096⟩ virt phys size flags) ∧
      BootTables kernelDir (archVmMap machine ⟨kernelDir * 4096⟩ virt phys size flags).2 := by
  rw [archVmMapAtBoot, archVmMap]
  split
  · exact ⟨rfl, boot⟩
  split
  · exact ⟨rfl, boot⟩
  refine forPagesAtBoot_eq (BootTables kernelDir) (4096 * (size / 4096))
    (fun off off_lt machine boot => ?_) (by unfold x86PageSize; omega) boot
  have within := fits (by omega)
  have va_eq : (virt + off) % 2 ^ 32 = virt + off := Nat.mod_eq_of_lt (by omega)
  rw [va_eq]
  refine ⟨archVmMapPageAtBoot_eq boot (by omega) (by omega) _ _, ?_⟩
  rcases archVmMapPage_cases boot.tables boot.ready
      (Or.inr ⟨rfl, by omega⟩ : Mappable kernelDir [] kernelDir (virt + off)) (by omega) _ _ with
    ⟨error, failed, _⟩ | ⟨machine', passed, _, rewritten⟩
  · rw [failed]
    exact boot
  · rw [passed]
    exact boot.rewritten rewritten

/-- `arch_vm_protect` likewise. -/
theorem archVmProtectAtBoot_eq (boot : BootTables kernelDir machine)
    (lower : kernelVirtOffset ≤ virt) (fits : 4096 ≤ size → virt + size ≤ 2 ^ 32) (flags : ℕ) :
    archVmProtectAtBoot machine ⟨kernelDir * 4096⟩ virt size flags =
        some (archVmProtect machine ⟨kernelDir * 4096⟩ virt size flags) ∧
      BootTables kernelDir (archVmProtect machine ⟨kernelDir * 4096⟩ virt size flags).2 := by
  rw [archVmProtectAtBoot, archVmProtect]
  split
  · exact ⟨rfl, boot⟩
  split
  · exact ⟨rfl, boot⟩
  refine forPagesAtBoot_eq (BootTables kernelDir) (4096 * (size / 4096))
    (fun off off_lt machine boot => ?_) (by unfold x86PageSize; omega) boot
  have within := fits (by omega)
  have va_eq : (virt + off) % 2 ^ 32 = virt + off := Nat.mod_eq_of_lt (by omega)
  rw [va_eq]
  refine ⟨archVmProtectPageAtBoot_eq boot (by omega) (by omega) _, ?_⟩
  rcases archVmProtectPage_cases boot.tables boot.ready (List.mem_cons_self ..)
      (by omega : virt + off < 2 ^ 32) flags with
    ⟨failed, _⟩ | ⟨machine', passed, _, rewritten⟩
  · rw [failed]
    exact boot
  · rw [passed]
    exact boot.rewritten rewritten

end Loops

/-! ## The whole of `vm_kern_init` -/

section Kernel

variable {kernelDir : ℕ} {kernel kernel' : Kernel Heap} {sections : KernelSections}

/-- The tables of `kernel_vm` are within reach of the boot page directory. -/
structure BootKernel (kernelDir : ℕ) (kernel : Kernel Heap) : Prop where
  boot : BootTables kernelDir kernel.machine
  kernelVm_eq : kernel.kernelVm = ⟨kernelDir * 4096⟩

/-- Calls in a row do not fault when each of them does not. -/
theorem kerrTryAtBoot_eq {State : Type*} (P : State → Prop) {result : Status × State}
    {resultAtBoot : Option (Status × State)} {next : State → Status × State}
    {nextAtBoot : State → Option (Status × State)}
    (first : resultAtBoot = some result ∧ P result.2)
    (second : ∀ state, P state → nextAtBoot state = some (next state) ∧ P (next state).2) :
    kerrTryAtBoot resultAtBoot nextAtBoot = some (kerrTry result next) ∧
      P (kerrTry result next).2 := by
  obtain ⟨rfl, kept⟩ := first
  rw [kerrTryAtBoot, Option.bind_some]
  obtain ⟨status, state⟩ := result
  cases status with
  | error error => exact ⟨rfl, kept⟩
  | ok => exact second state kept

theorem vmKernMapAtBoot_eq (inv : BootKernel kernelDir kernel) (virt phys size flags : ℕ) :
    vmKernMapAtBoot kernel virt phys size flags = some (vmKernMap kernel virt phys size flags) ∧
      BootKernel kernelDir (vmKernMap kernel virt phys size flags).2 := by
  rw [vmKernMapAtBoot, vmKernMap]
  split
  · exact ⟨rfl, inv⟩
  · rename_i valid
    obtain ⟨size_pos, kernel_le, fits⟩ := vmKernRangeValid_iff.mp (by simpa using valid)
    obtain ⟨ran, kept⟩ := archVmMapAtBoot_eq inv.boot kernel_le
      (by omega : 4096 ≤ size → virt + size ≤ 2 ^ 32) phys flags
    rw [inv.kernelVm_eq, ran]
    exact ⟨rfl, kept, inv.kernelVm_eq⟩

theorem vmKernProtectAtBoot_eq (inv : BootKernel kernelDir kernel) (virt size flags : ℕ) :
    vmKernProtectAtBoot kernel virt size flags = some (vmKernProtect kernel virt size flags) ∧
      BootKernel kernelDir (vmKernProtect kernel virt size flags).2 := by
  rw [vmKernProtectAtBoot, vmKernProtect]
  split
  · exact ⟨rfl, inv⟩
  · rename_i valid
    obtain ⟨size_pos, kernel_le, fits⟩ := vmKernRangeValid_iff.mp (by simpa using valid)
    obtain ⟨ran, kept⟩ := archVmProtectAtBoot_eq inv.boot kernel_le
      (by omega : 4096 ≤ size → virt + size ≤ 2 ^ 32) flags
    rw [inv.kernelVm_eq, ran]
    exact ⟨rfl, kept, inv.kernelVm_eq⟩

/-- The layout does not fault once the tables are within reach. -/
theorem vmKernLayoutAtBoot_eq (inv : BootKernel kernelDir kernel) (sections : KernelSections) :
    vmKernLayoutAtBoot sections kernel = some (vmKernLayout sections kernel) ∧
      BootKernel kernelDir (vmKernLayout sections kernel).2 := by
  have map_step (size flags : ℕ) := vmKernMapAtBoot_eq inv kernelVirtOffset 0 size flags
  rw [vmKernLayoutAtBoot, vmKernLayout]
  apply kerrTryAtBoot_eq (BootKernel kernelDir) (map_step _ _)
  intro mapped mapped_inv
  apply kerrTryAtBoot_eq (BootKernel kernelDir) (vmKernProtectAtBoot_eq mapped_inv _ _ _)
  intro text text_inv
  exact vmKernProtectAtBoot_eq text_inv _ _ _

theorem archVmSpaceInit_of_allocated {machine machine' : Machine} {phys : ℕ}
    (allocated : archAllocTable machine = (.ok phys, machine')) :
    archVmSpaceInit machine = (.ok ⟨phys⟩, machine') := by
  rw [archVmSpaceInit, allocated]

theorem archVmSpaceInitAtBoot_of_allocated {machine machine' : Machine} {phys : ℕ}
    (allocated : archAllocTableAtBoot machine = some (.ok phys, machine')) :
    archVmSpaceInitAtBoot machine = some (.ok ⟨phys⟩, machine') := by
  rw [archVmSpaceInitAtBoot, allocated, Option.map_some]

theorem vmKernInitAtBoot_of_prepared {vm : ArchVmSpace} {cleared machine : Machine}
    (created : archVmSpaceInitAtBoot kernel.machine = some (.ok vm, cleared))
    (prepared : archVmKernelPrepareAtBoot cleared vm = some (.ok (), machine))
    (sections : KernelSections) :
    vmKernInitAtBoot sections kernel =
      vmKernLayoutAtBoot sections { kernel with machine := machine, kernelVm := vm } := by
  rw [vmKernInitAtBoot, created]
  simp only [prepared]

theorem vmKernInitAtBoot_of_fault {vm : ArchVmSpace} {cleared : Machine}
    (created : archVmSpaceInitAtBoot kernel.machine = some (.ok vm, cleared))
    (fault : archVmKernelPrepareAtBoot cleared vm = none) (sections : KernelSections) :
    vmKernInitAtBoot sections kernel = none := by
  rw [vmKernInitAtBoot, created]
  simp only [fault]

/-- With enough free frames below 4 MiB, `vm_kern_init` reaches its layout without a fault. -/
theorem vmKernInitAtBoot_of_free (sections : KernelSections)
    (total_lt : kernel.machine.pmm.totalFrames < 2 ^ 32)
    (free : 257 ≤ kernel.machine.pmm.bootSet.card) :
    ∃ kernelDir machine, PreparedTables kernelDir kernel.machine machine ∧
      BootTables kernelDir machine ∧
      vmKernInitAtBoot sections kernel = vmKernLayoutAtBoot sections
        { kernel with machine := machine, kernelVm := ⟨kernelDir * 4096⟩ } := by
  rcases vmKernInit_cases sections total_lt with
    ⟨_, _, short⟩ | ⟨kernelDir, machine, created, filled, prepared⟩
  · exact absurd (bootSet_card_le kernel.machine.pmm) (by omega)
  obtain ⟨frame, frame_lt, fresh, allocated, allocated', card_eq⟩ :=
    archAllocTableAtBoot_of_free kernel.machine (by omega)
  obtain rfl : frame = kernelDir := by
    rw [archVmSpaceInit_of_allocated allocated] at created
    have same := congrArg ArchVmSpace.pdPhys (Except.ok.inj (Prod.mk.inj created).1)
    simp only at same
    omega
  have marked : (clearedFrame kernel.machine frame).pmm.Marked frame := by
    rw [clearedFrame, marked_pmmMark]
    omega
  obtain ⟨cleared, cleared_eq⟩ : ∃ cleared, cleared = clearedFrame kernel.machine frame := ⟨_, rfl⟩
  rw [← cleared_eq] at filled allocated' card_eq marked
  obtain ⟨machine', filled', filledAtBoot, reached⟩ :=
    archVmKernelPrepareFromAtBoot_of_free frame_lt marked (by omega)
      (by decide : 768 + 256 = 1024) (fun index lower upper => by omega)
  have prepared' : archVmKernelPrepare cleared ⟨frame * 4096⟩ = (.ok (), machine') := filled'
  have preparedAtBoot : archVmKernelPrepareAtBoot cleared ⟨frame * 4096⟩ =
      some (.ok (), machine') := filledAtBoot
  obtain rfl : machine' = machine := by
    rw [prepared'] at filled
    exact (Prod.mk.inj filled).2
  exact ⟨frame, machine', prepared, ⟨prepared.tables, prepared.ready, frame_lt, reached⟩,
    vmKernInitAtBoot_of_prepared (archVmSpaceInitAtBoot_of_allocated allocated') preparedAtBoot
      sections⟩

/-- Without them, it faults. -/
theorem vmKernInitAtBoot_of_taken (sections : KernelSections)
    (taken : kernel.machine.pmm.bootSet.card < 257)
    (free : 257 ≤ kernel.machine.pmm.lowSet.card) : vmKernInitAtBoot sections kernel = none := by
  by_cases empty : kernel.machine.pmm.bootSet.card = 0
  · rw [vmKernInitAtBoot, archVmSpaceInitAtBoot, archAllocTableAtBoot_of_taken empty (by omega),
      Option.map_none]
  · obtain ⟨frame, frame_lt, fresh, _, allocated, card_eq⟩ :=
      archAllocTableAtBoot_of_free kernel.machine (by omega)
    have lowSet_eq : (clearedFrame kernel.machine frame).pmm.lowSet.card + 1 =
        kernel.machine.pmm.lowSet.card := lowSet_pmmMark fresh
    obtain ⟨cleared, cleared_eq⟩ : ∃ cleared, cleared = clearedFrame kernel.machine frame :=
      ⟨_, rfl⟩
    rw [← cleared_eq] at allocated card_eq lowSet_eq
    have loop : archVmKernelPrepareFromAtBoot ⟨frame * 4096⟩ 256 768 cleared = none :=
      archVmKernelPrepareFromAtBoot_of_taken frame_lt (by omega) (by omega) rfl
    have faulted : archVmKernelPrepareAtBoot cleared ⟨frame * 4096⟩ = none := loop
    exact vmKernInitAtBoot_of_fault (archVmSpaceInitAtBoot_of_allocated allocated) faulted sections

/-- The kernel mappings that `vm_kern_init` is to establish. -/
structure KernelDirectMap (sections : KernelSections) (kernel : Kernel Heap) : Prop where
  translate : ∀ p < kernelDirectMapSize, vmKernTranslate kernel (kernelVirtOffset + p) = .ok p
  above : ∀ va, kernelVirtOffset + kernelDirectMapSize ≤ va → va < 2 ^ 32 →
    vmKernTranslate kernel va = .error .noent
  writable : ∀ va, kernelVirtOffset ≤ va → va < kernelVirtOffset + kernelDirectMapSize →
    (archVmPte kernel.machine kernel.kernelVm va &&& x86Writable ≠ 0 ↔ ¬ sections.ReadOnly va)
  supervisor : ∀ va, kernelVirtOffset ≤ va → va < 2 ^ 32 →
    archVmPde kernel.machine kernel.kernelVm va &&& x86User = 0 ∧
      archVmPte kernel.machine kernel.kernelVm va &&& x86User = 0
  userHalf : ∀ va < kernelVirtOffset,
    archVmPde kernel.machine kernel.kernelVm va &&& x86Present = 0

/-- What the laid out entries mean. -/
theorem kernelDirectMap_of_words (inv : KernelTables kernelDir [] kernel)
    (reached : ReachedTables kernel.machine kernelDir 768 1024)
    (words : ∀ va, kernelVirtOffset ≤ va → va < 2 ^ 32 →
      pteWord kernel.machine kernelDir va = sections.layoutWord va) :
    KernelDirectMap sections kernel := by
  have table (va : ℕ) (lower : kernelVirtOffset ≤ va) (va_lt : va < 2 ^ 32) :
      ∃ frame, kernel.machine.mem.word kernelDir (va / 2 ^ 22) = frame * 4096 + 3 := by
    obtain ⟨frame, _, word_eq⟩ := reached (va / 2 ^ 22)
      (by unfold kernelVirtOffset at lower; omega) (by omega)
    exact ⟨frame, word_eq⟩
  have pte_eq (va : ℕ) (lower : kernelVirtOffset ≤ va) (va_lt : va < 2 ^ 32) :
      archVmPte kernel.machine kernel.kernelVm va = sections.layoutWord va := by
    obtain ⟨frame, word_eq⟩ := table va lower va_lt
    rw [inv.kernelVm_eq, archVmPte_eq (by rw [word_eq]; unfold EntryPresent; omega),
      words va lower va_lt]
  refine ⟨?_, ?_, ?_, ?_, ?_⟩
  · intro p p_lt
    have upper : kernelVirtOffset + p < kernelVirtOffset + kernelDirectMapSize := by omega
    have va_lt : kernelVirtOffset + p < 2 ^ 32 := by
      unfold kernelVirtOffset kernelDirectMapSize at *
      omega
    rw [vmKernTranslate_eq inv (by omega) va_lt, words _ (by omega) va_lt,
      KernelSections.layoutWord, if_pos upper, Nat.add_sub_cancel_left]
    have flags : (if sections.ReadOnly (kernelVirtOffset + p) then 1 else 3) = 1 ∨
        (if sections.ReadOnly (kernelVirtOffset + p) then 1 else 3) = 3 := by
      split <;> simp
    rw [if_pos]
    · congr 1
      unfold kernelVirtOffset at *
      omega
    · unfold EntryPresent
      omega
  · intro va lower va_lt
    have kernel_le : kernelVirtOffset ≤ va := by omega
    have absent : sections.layoutWord va = 0 := if_neg (by omega)
    rw [vmKernTranslate_eq inv kernel_le va_lt, words va kernel_le va_lt, absent,
      if_neg (by decide)]
  · intro va lower upper
    have va_lt : va < 2 ^ 32 := by
      unfold kernelVirtOffset kernelDirectMapSize at upper
      omega
    rw [pte_eq va lower va_lt, and_writable, KernelSections.layoutWord, if_pos upper]
    split
    · rename_i read_only
      simp only [read_only, not_true_eq_false, iff_false]
      omega
    · rename_i writable
      simp only [writable, not_false_eq_true, iff_true]
      omega
  · intro va lower va_lt
    obtain ⟨frame, word_eq⟩ := table va lower va_lt
    constructor
    · by_contra user
      rw [inv.kernelVm_eq, archVmPde_eq, word_eq] at user
      have bit := (and_user _).mp user
      omega
    · by_contra user
      rw [pte_eq va lower va_lt] at user
      have bit := (and_user _).mp user
      rw [KernelSections.layoutWord] at bit
      split at bit
      · split at bit <;> omega
      · omega
  · intro va user
    rw [inv.kernelVm_eq, archVmPde_eq, and_present]
    exact inv.tables.kernelOnly _ (by unfold kernelVirtOffset at user; omega)

/-- With at least 257 free LowMem frames, `vm_kern_init` establishes the direct map exactly when as
many of them lie below 4 MiB; otherwise it faults. -/
theorem vmKernInitAtBoot_directMap_iff (total_lt : kernel.machine.pmm.totalFrames < 2 ^ 32)
    (lowmem : 257 ≤ kernel.machine.pmm.lowSet.card)
    (text : SectionBounds sections.textStart sections.textEnd)
    (rodata : SectionBounds sections.rodataStart sections.rodataEnd) :
    (∃ kernel', vmKernInitAtBoot sections kernel = some (.ok (), kernel') ∧
        KernelDirectMap sections kernel') ↔
      257 ≤ kernel.machine.pmm.bootSet.card := by
  constructor
  · rintro ⟨kernel', ran, _⟩
    by_contra few
    rw [vmKernInitAtBoot_of_taken sections (by omega) lowmem] at ran
    cases ran
  · intro free
    obtain ⟨kernelDir, machine, prepared, boot, ran⟩ :=
      vmKernInitAtBoot_of_free sections total_lt free
    obtain ⟨start, start_eq⟩ : ∃ start : Kernel Heap, start =
        { kernel with machine := machine, kernelVm := ⟨kernelDir * 4096⟩ } := ⟨_, rfl⟩
    have prepared' : PreparedTables kernelDir kernel.machine start.machine := by
      rw [start_eq]
      exact prepared
    have inv : BootKernel kernelDir start := by
      rw [start_eq]
      exact ⟨boot, rfl⟩
    obtain ⟨machine', layout, tables, _, words⟩ :=
      vmKernLayout_ok start prepared' inv.kernelVm_eq text rodata
    obtain ⟨layoutAtBoot, inv'⟩ := vmKernLayoutAtBoot_eq inv sections
    rw [layout] at layoutAtBoot inv'
    refine ⟨_, ?_, kernelDirectMap_of_words tables inv'.boot.reached words⟩
    rw [ran, ← start_eq, layoutAtBoot]

end Kernel

/-! ## Two machines -/

private theorem smallPmm_bootSet : 257 ≤ smallKernel.machine.pmm.bootSet.card := by
  have free : Finset.Ico 256 1024 ⊆ smallPmm.bootSet := fun frame member =>
    Finset.mem_filter.mpr ⟨smallPmm_low member, (Finset.mem_Ico.mp member).2⟩
  exact (Finset.card_le_card free).trans' (by simp)

theorem vmKernInitAtBoot_directMap_small :
    ∃ kernel', vmKernInitAtBoot smallSections smallKernel = some (.ok (), kernel') ∧
      KernelDirectMap smallSections kernel' :=
  (vmKernInitAtBoot_directMap_iff (by decide)
    (smallPmm_bootSet.trans (bootSet_card_le _)) smallSections_text smallSections_rodata).mpr
    smallPmm_bootSet

/-- Memory of 8 MiB whose first half is in use. -/
def upperPmm : Pmm where
  bm := { data := fun word => if word < 32 then 0xFFFFFFFF else 0, nbits := 2048 }
  maxAddr := 0x800000
  totalFrames := 2048
  freeFrames := 1024

/-- A machine that boots from this memory. -/
def upperKernel : Kernel ℕ :=
  { smallKernel with machine := { mem := fun _ => 0, pmm := upperPmm } }

private theorem upperPmm_lowSet : 257 ≤ upperPmm.lowSet.card := by
  have free : Finset.Ico 1024 2048 ⊆ upperPmm.lowSet := by
    intro frame member
    obtain ⟨lower, upper⟩ := Finset.mem_Ico.mp member
    exact mem_lowSet_of_clear (by omega) upper (if_neg (by omega))
  exact (Finset.card_le_card free).trans' (by simp)

private theorem upperPmm_bootSet : upperPmm.bootSet.card = 0 := by
  rw [Finset.card_eq_zero]
  refine Finset.eq_empty_of_forall_notMem fun frame member => ?_
  rw [Pmm.bootSet, Pmm.lowSet, Finset.mem_filter, Finset.mem_filter] at member
  obtain ⟨⟨_, unmarked⟩, low⟩ := member
  refine unmarked ?_
  have word_eq : upperPmm.bm.data (frame / 32) = 0xFFFFFFFF := by
    simp only [upperPmm]
    rw [if_pos (by omega)]
  have full : ∀ offset < 32, ((0xFFFFFFFF : BitVec 32) &&& bit offset != 0#32) = true := by decide
  rw [Pmm.Marked, bitmapTest, word_eq]
  exact full _ (Nat.mod_lt _ (by decide))

/-- Half of the memory is free, but the first table is already out of reach. -/
theorem vmKernInitAtBoot_faults :
    upperKernel.machine.pmm.totalFrames < 2 ^ 32 ∧ 257 ≤ upperKernel.machine.pmm.lowSet.card ∧
      SectionBounds smallSections.textStart smallSections.textEnd ∧
      SectionBounds smallSections.rodataStart smallSections.rodataEnd ∧
      vmKernInitAtBoot smallSections upperKernel = none :=
  ⟨by decide, upperPmm_lowSet, smallSections_text, smallSections_rodata,
    vmKernInitAtBoot_of_taken smallSections
      (by simp only [upperKernel]; rw [upperPmm_bootSet]; decide) upperPmm_lowSet⟩

end ItWorksOS
