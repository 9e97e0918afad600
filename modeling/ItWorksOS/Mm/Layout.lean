import Mathlib.Tactic

/-!
# Physical and virtual memory layout

Constants and address conversions of `mm/layout.h`, with the alignment macros of `base/align.h`.
Virtual addresses and sizes are 32-bit and physical addresses are 64-bit numbers.
-/

namespace ItWorksOS

/-- `KERNEL_VIRT_OFFSET`: start of the kernel half. -/
abbrev kernelVirtOffset : ℕ := 0xC0000000

/-- `KERNEL_DIRECT_MAP_SIZE`. -/
abbrev kernelDirectMapSize : ℕ := 0x30000000

/-- `KERNEL_LOWMEM_LIMIT`: physical memory below this bound is directly mapped. -/
abbrev kernelLowmemLimit : ℕ := 768 * 1024 * 1024

/-- `VM_USER_END`: exclusive end of the user half. -/
abbrev vmUserEnd : ℕ := 0xC0000000

/-- `SYSTEM_LOAD_ADDR` of Stage2: where the system executable lies in physical memory. -/
def systemLoadAddr : ℕ := 0x70000

/-- `PHYS_TO_VIRT`. -/
def physToVirt (phys : ℕ) : ℕ := (phys + kernelVirtOffset) % 2 ^ 32

/-- `VIRT_TO_PHYS`, which adds `KERNEL_VIRT_OFFSET` like `PHYS_TO_VIRT`. -/
def virtToPhys (phys : ℕ) : ℕ := (phys + kernelVirtOffset) % 2 ^ 32

/-- `ALIGN_DOWN` for a power-of-two alignment. -/
def alignDown (value alignment : ℕ) : ℕ := value / alignment * alignment

/-- `ALIGN_UP` on `width`-bit numbers for a power-of-two alignment. -/
def alignUp (width value alignment : ℕ) : ℕ :=
  alignDown ((value + alignment - 1) % 2 ^ width) alignment

/-- `ALIGN_TEST`. -/
def alignTest (value alignment : ℕ) : Bool := decide (value % alignment = 0)

theorem physToVirt_of_lowmem {phys : ℕ} (lowmem : phys < kernelLowmemLimit) :
    physToVirt phys = phys + 0xC0000000 := by
  unfold kernelLowmemLimit at lowmem
  unfold physToVirt kernelVirtOffset
  omega

end ItWorksOS
