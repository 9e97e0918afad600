import ItWorksOS.Foundation.PackedWord
import ItWorksOS.Klib.Memory
import ItWorksOS.Mm.Pmm

/-!
# Page tables of `arch/x86/mm.c`

Two-level x86 page tables with 4 KiB pages, in raw physical memory. The kernel reaches a frame
through the direct map; as `PHYS_TO_VIRT` only shifts addresses, accesses are written here with the
physical address they reach.
-/

namespace ItWorksOS

/-- Physical memory and the allocator of its frames. -/
structure Machine where
  /-- Physical memory. -/
  mem : ByteMemory
  /-- Frame allocator. -/
  pmm : Pmm

/-- `struct arch_vm_space`. -/
structure ArchVmSpace where
  /-- Physical address of the page directory. -/
  pdPhys : ℕ
  deriving DecidableEq, Repr

/-- `VM_READ`. -/
abbrev vmRead : ℕ := 1

/-- `VM_WRITE`. -/
abbrev vmWrite : ℕ := 2

/-- `VM_EXEC`. -/
abbrev vmExec : ℕ := 4

/-- `VM_USER`. -/
abbrev vmUser : ℕ := 8

/-- `X86_PAGE_SIZE`. -/
abbrev x86PageSize : ℕ := 4096

/-- `X86_PDE_COUNT`. -/
abbrev x86PdeCount : ℕ := 1024

/-- `X86_KERNEL_PDE_BASE`. -/
abbrev x86KernelPdeBase : ℕ := 768

/-- `X86_PAGE_MASK`. -/
abbrev x86PageMask : ℕ := 0xFFFFF000

/-- `X86_PDE_PRESENT` and `X86_PTE_PRESENT`. -/
abbrev x86Present : ℕ := 1

/-- `X86_PDE_WRITABLE` and `X86_PTE_WRITABLE`. -/
abbrev x86Writable : ℕ := 2

/-- `X86_PDE_USER` and `X86_PTE_USER`. -/
abbrev x86User : ℕ := 4

/-- `X86_PDE_PAGE_SIZE`. -/
abbrev x86PdePageSize : ℕ := 128

/-- `arch_vm_page_size`. -/
def archVmPageSize : ℕ := x86PageSize

/-- `x86_vm_flags_to_pte`. -/
def x86VmFlagsToPte (flags : ℕ) : ℕ :=
  let pteFlags := x86Present
  let pteFlags := if flags &&& vmWrite ≠ 0 then pteFlags ||| x86Writable else pteFlags
  if flags &&& vmUser ≠ 0 then pteFlags ||| x86User else pteFlags

/-- `x86_vm_flags_to_pde`. -/
def x86VmFlagsToPde (flags : ℕ) : ℕ :=
  let pdeFlags := x86Present ||| x86Writable
  if flags &&& vmUser ≠ 0 then pdeFlags ||| x86User else pdeFlags

/-- Page-directory index of a virtual address. -/
def pdeIndex (va : ℕ) : ℕ := va >>> 22

/-- Page-table index of a virtual address. -/
def pteIndex (va : ℕ) : ℕ := (va >>> 12) &&& 0x3FF

/-- `table[index]` for a table of 32-bit entries at a physical address. -/
def Machine.entry (machine : Machine) (table index : ℕ) : ℕ :=
  machine.mem.read32 (table + 4 * index)

/-- `table[index] = value`. -/
def Machine.setEntry (machine : Machine) (table index value : ℕ) : Machine :=
  { machine with mem := machine.mem.write32 (table + 4 * index) value }

/-- Allocate one LowMem frame and clear it. -/
def archAllocTable (machine : Machine) : Except KError ℕ × Machine :=
  match pmmAllocLowmem machine.pmm 1 with
  | (.error error, pmm) => (.error error, { machine with pmm := pmm })
  | (.ok phys, pmm) => (.ok phys, { mem := memset machine.mem phys 0 x86PageSize, pmm := pmm })

/-- `arch_vm_space_init`. -/
def archVmSpaceInit (machine : Machine) : Except KError ArchVmSpace × Machine :=
  match archAllocTable machine with
  | (.error error, machine) => (.error error, machine)
  | (.ok pdPhys, machine) => (.ok ⟨pdPhys⟩, machine)

/-- The loop of `arch_vm_kernel_prepare` over `count` directory entries from `index`. -/
def archVmKernelPrepareFrom (vm : ArchVmSpace) : ℕ → ℕ → Machine → Status × Machine
  | 0, _, machine => (.ok (), machine)
  | count + 1, index, machine =>
      match archAllocTable machine with
      | (.error error, machine) => (.error error, machine)
      | (.ok ptPhys, machine) =>
          archVmKernelPrepareFrom vm count (index + 1)
            (machine.setEntry vm.pdPhys index (ptPhys ||| x86Present ||| x86Writable))

/-- `arch_vm_kernel_prepare`. -/
def archVmKernelPrepare (machine : Machine) (vm : ArchVmSpace) : Status × Machine :=
  archVmKernelPrepareFrom vm (x86PdeCount - x86KernelPdeBase) x86KernelPdeBase machine

/-- The loop of `arch_vm_space_destroy` over `count` directory entries from `index`. -/
def archVmFreeTables (vm : ArchVmSpace) : ℕ → ℕ → Machine → Status × Machine
  | 0, _, machine => (.ok (), machine)
  | count + 1, index, machine =>
      let pde := machine.entry vm.pdPhys index
      if pde &&& x86Present = 0 then archVmFreeTables vm count (index + 1) machine
      else if pde &&& x86PdePageSize ≠ 0 then archVmFreeTables vm count (index + 1) machine
      else
        match pmmFree machine.pmm (pde &&& x86PageMask) 1 with
        | (.error error, pmm) => (.error error, { machine with pmm := pmm })
        | (.ok (), pmm) => archVmFreeTables vm count (index + 1) { machine with pmm := pmm }

/-- `arch_vm_space_destroy`. -/
def archVmSpaceDestroy (machine : Machine) (vm : ArchVmSpace) :
    Status × ArchVmSpace × Machine :=
  match archVmFreeTables vm x86KernelPdeBase 0 machine with
  | (.error error, machine) => (.error error, vm, machine)
  | (.ok (), machine) =>
      match pmmFree machine.pmm vm.pdPhys 1 with
      | (.error error, pmm) => (.error error, vm, { machine with pmm := pmm })
      | (.ok (), pmm) => (.ok (), ⟨0⟩, { machine with pmm := pmm })

/-- The loop of `arch_vm_space_attach_kernel` over the first `count` kernel entries. -/
def archVmCopyKernel (vm kernelVm : ArchVmSpace) (machine : Machine) : ℕ → Machine
  | 0 => machine
  | count + 1 =>
      let machine := archVmCopyKernel vm kernelVm machine count
      machine.setEntry vm.pdPhys (x86KernelPdeBase + count)
        (machine.entry kernelVm.pdPhys (x86KernelPdeBase + count))

/-- `arch_vm_space_attach_kernel`. -/
def archVmSpaceAttachKernel (machine : Machine) (vm kernelVm : ArchVmSpace) : Status × Machine :=
  (.ok (), archVmCopyKernel vm kernelVm machine (x86PdeCount - x86KernelPdeBase))

/-- Find the directory entry for an address, allocating its page table when there is none. -/
def archVmTable (machine : Machine) (vm : ArchVmSpace) (va flags : ℕ) :
    Except KError ℕ × Machine :=
  let pde := machine.entry vm.pdPhys (pdeIndex va)
  if pde &&& x86Present = 0 then
    match archAllocTable machine with
    | (.error error, machine) => (.error error, machine)
    | (.ok ptPhys, machine) =>
        let machine := machine.setEntry vm.pdPhys (pdeIndex va) (ptPhys ||| x86VmFlagsToPde flags)
        (.ok (machine.entry vm.pdPhys (pdeIndex va)), machine)
  else if pde &&& x86PdePageSize ≠ 0 then (.error .nosup, machine)
  else (.ok pde, machine)

/-- The body of the loop of `arch_vm_map`. -/
def archVmMapPage (vm : ArchVmSpace) (va pa flags : ℕ) (machine : Machine) : Status × Machine :=
  match archVmTable machine vm va flags with
  | (.error error, machine) => (.error error, machine)
  | (.ok pde, machine) =>
      let pt := pde &&& x86PageMask
      if machine.entry pt (pteIndex va) &&& x86Present ≠ 0 then (.error .existing, machine)
      else
        (.ok (), machine.setEntry pt (pteIndex va) ((pa &&& x86PageMask) ||| x86VmFlagsToPte flags))

/-- Find the page table of an address for the loops that never allocate one. -/
def archVmPresentTable (machine : Machine) (vm : ArchVmSpace) (va : ℕ) : Except KError ℕ :=
  let pde := machine.entry vm.pdPhys (pdeIndex va)
  if pde &&& x86Present = 0 then .error .noent
  else if pde &&& x86PdePageSize ≠ 0 then .error .nosup
  else if machine.entry (pde &&& x86PageMask) (pteIndex va) &&& x86Present = 0 then .error .noent
  else .ok (pde &&& x86PageMask)

/-- The body of the loop of `arch_vm_unmap`. -/
def archVmUnmapPage (vm : ArchVmSpace) (va : ℕ) (machine : Machine) : Status × Machine :=
  match archVmPresentTable machine vm va with
  | .error error => (.error error, machine)
  | .ok pt => (.ok (), machine.setEntry pt (pteIndex va) 0)

/-- The body of the loop of `arch_vm_protect`. -/
def archVmProtectPage (vm : ArchVmSpace) (va flags : ℕ) (machine : Machine) : Status × Machine :=
  match archVmPresentTable machine vm va with
  | .error error => (.error error, machine)
  | .ok pt =>
      let phys := machine.entry pt (pteIndex va) &&& x86PageMask
      (.ok (), machine.setEntry pt (pteIndex va) (phys ||| x86VmFlagsToPte flags))

/-- `for (off = 0; off < size; off += X86_PAGE_SIZE)` with an early return, over `count` pages. -/
@[irreducible] def forPages (body : ℕ → Machine → Status × Machine) :
    ℕ → ℕ → Machine → Status × Machine
  | 0, _, machine => (.ok (), machine)
  | count + 1, off, machine =>
      match body off machine with
      | (.error error, machine) => (.error error, machine)
      | (.ok (), machine) => forPages body count (off + x86PageSize) machine

/-- `arch_vm_map`. -/
def archVmMap (machine : Machine) (vm : ArchVmSpace) (virt phys size flags : ℕ) :
    Status × Machine :=
  if size = 0 then (.error .inval, machine)
  else if !alignTest virt x86PageSize || !alignTest phys x86PageSize ||
      !alignTest size x86PageSize then
    (.error .inval, machine)
  else
    forPages (fun off => archVmMapPage vm ((virt + off) % 2 ^ 32) ((phys + off) % 2 ^ 64) flags)
      (size / x86PageSize) 0 machine

/-- `arch_vm_unmap`. -/
def archVmUnmap (machine : Machine) (vm : ArchVmSpace) (virt size : ℕ) : Status × Machine :=
  if size = 0 then (.error .inval, machine)
  else if !alignTest virt x86PageSize || !alignTest size x86PageSize then (.error .inval, machine)
  else
    forPages (fun off => archVmUnmapPage vm ((virt + off) % 2 ^ 32)) (size / x86PageSize) 0 machine

/-- `arch_vm_protect`. -/
def archVmProtect (machine : Machine) (vm : ArchVmSpace) (virt size flags : ℕ) :
    Status × Machine :=
  if size = 0 then (.error .inval, machine)
  else if !alignTest virt x86PageSize || !alignTest size x86PageSize then (.error .inval, machine)
  else
    forPages (fun off => archVmProtectPage vm ((virt + off) % 2 ^ 32) flags) (size / x86PageSize) 0
      machine

/-- `arch_vm_translate`. -/
def archVmTranslate (machine : Machine) (vm : ArchVmSpace) (virt : ℕ) : Except KError ℕ :=
  let pde := machine.entry vm.pdPhys (pdeIndex virt)
  if pde &&& x86Present = 0 then .error .noent
  else if pde &&& x86PdePageSize ≠ 0 then .error .nosup
  else
    let pte := machine.entry (pde &&& x86PageMask) (pteIndex virt)
    if pte &&& x86Present = 0 then .error .noent
    else .ok ((pte &&& x86PageMask) ||| (virt &&& (x86PageSize - 1)))

end ItWorksOS
