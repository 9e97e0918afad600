import ItWorksOS.Arch.X86.Permissions
import ItWorksOS.Foundation.Translation

/-!
# The page walk of the processor

The processor reads the directory and the page tables for itself at every access. On well-formed
tables it finds what `arch_vm_translate` finds, and in ring 3 only the pages that both entries open
to user mode.
-/

namespace ItWorksOS

/-- An entry permits an access, with `CR0.WP` clear. -/
def X86Permits (user write : Bool) (entry : ℕ) : Prop :=
  user = true → entry &&& x86User ≠ 0 ∧ (write = true → entry &&& x86Writable ≠ 0)

instance (user write : Bool) (entry : ℕ) : Decidable (X86Permits user write entry) :=
  inferInstanceAs (Decidable (_ → _ ∧ (_ → _)))

/-- The address of an access in memory, for the directory that `CR3` holds and with `CR4.PSE`. -/
def x86Access (cr3 : ℕ) (user write : Bool) : Translation := fun mem va =>
  let va := va % 2 ^ 32
  let pde := mem.read32 ((cr3 &&& x86PageMask) + 4 * pdeIndex va)
  if pde &&& x86Present = 0 ∨ ¬ X86Permits user write pde then none
  else if pde &&& x86PdePageSize ≠ 0 then some ((pde &&& 0xFFC00000) ||| (va &&& 0x3FFFFF))
  else
    let pte := mem.read32 ((pde &&& x86PageMask) + 4 * pteIndex va)
    if pte &&& x86Present = 0 ∨ ¬ X86Permits user write pte then none
    else some ((pte &&& x86PageMask) ||| (va &&& 0xFFF))

/-- The address of an access of the kernel, to which all pages are writable. -/
def x86Translate (cr3 : ℕ) : Translation := x86Access cr3 false true

theorem x86Permits_kernel (write : Bool) (entry : ℕ) : X86Permits false write entry :=
  fun user => absurd user Bool.false_ne_true

section

variable {kernelDir dir va : ℕ} {dirs : List ℕ} {machine : Machine} {user write : Bool}

/-- The walk in well-formed tables. -/
theorem x86Access_eq (tables : PageTables kernelDir dirs machine)
    (member : dir ∈ kernelDir :: dirs) (va_lt : va < 2 ^ 32) :
    x86Access (dir * 4096) user write machine.mem va =
      if EntryPresent (pteWord machine dir va) ∧
          X86Permits user write (machine.mem.word dir (va / 2 ^ 22)) ∧
          X86Permits user write (pteWord machine dir va) then
        some (pteWord machine dir va / 4096 * 4096 + va % 4096)
      else none := by
  have index_lt : va / 2 ^ 22 < 1024 := by omega
  have low := (tables.placed (.directory dir) member).1
  have dir_lt : dir < 196608 := low
  have cr3_eq : dir * 4096 &&& x86PageMask = dir * 4096 := by
    rw [and_pageMask]
    omega
  have offset : va &&& 0xFFF = va % 4096 := Nat.and_two_pow_sub_one_eq_mod va 12
  have pde : machine.mem.read32 (dir * 4096 + 4 * (va / 2 ^ 22)) =
      machine.mem.word dir (va / 2 ^ 22) := rfl
  simp only [x86Access, Nat.mod_eq_of_lt va_lt, cr3_eq, pdeIndex_eq, pde, and_present, offset]
  by_cases present : EntryPresent (machine.mem.word dir (va / 2 ^ 22))
  · have small := tables.small dir member _ index_lt present
    have pte : machine.mem.read32 ((machine.mem.word dir (va / 2 ^ 22) &&& x86PageMask) +
        4 * pteIndex va) = pteWord machine dir va := by
      rw [pteWord_of_present present, and_pageMask, Nat.mod_eq_of_lt (ByteMemory.word_lt _ _ _),
        pteIndex_eq]
      rfl
    have page : (pteWord machine dir va &&& x86PageMask) ||| va % 4096 =
        pteWord machine dir va / 4096 * 4096 + va % 4096 := by
      rw [and_pageMask, Nat.mod_eq_of_lt (pteWord_lt machine dir va),
        or_entryFlags _ (Nat.mod_lt _ (by decide))]
    have not_large : ¬ (machine.mem.word dir (va / 2 ^ 22) &&& x86PdePageSize ≠ 0) :=
      not_not_intro ((and_pdePageSize _).mpr small)
    rw [pte, page, if_neg not_large]
    by_cases table : X86Permits user write (machine.mem.word dir (va / 2 ^ 22))
    · rw [if_neg (not_or.mpr ⟨not_not_intro present, not_not_intro table⟩)]
      by_cases mapped : EntryPresent (pteWord machine dir va) ∧
          X86Permits user write (pteWord machine dir va)
      · rw [if_neg (not_or.mpr ⟨not_not_intro mapped.1, not_not_intro mapped.2⟩),
          if_pos ⟨mapped.1, table, mapped.2⟩]
      · rw [if_pos (not_and_or.mp mapped), if_neg fun all => mapped ⟨all.1, all.2.2⟩]
    · rw [if_pos (.inr table), if_neg fun all => table all.2.1]
  · rw [if_pos (.inl present), if_neg fun all => present (table_present_of_pteWord all.1)]

/-- The kernel's accesses go where `arch_vm_translate` says. -/
theorem x86Translate_eq (tables : PageTables kernelDir dirs machine)
    (member : dir ∈ kernelDir :: dirs) (va_lt : va < 2 ^ 32) :
    x86Translate (dir * 4096) machine.mem va =
      (archVmTranslate machine ⟨dir * 4096⟩ va).toOption := by
  rw [x86Translate, x86Access_eq tables member va_lt, archVmTranslate_eq tables member va_lt]
  by_cases mapped : EntryPresent (pteWord machine dir va)
  · rw [if_pos ⟨mapped, x86Permits_kernel true _, x86Permits_kernel true _⟩, if_pos mapped]
    rfl
  · rw [if_neg fun all => mapped all.1, if_neg mapped]
    rfl

/-- An access from ring 3 is one to a page that both entries open to user mode. -/
theorem x86Access_user (tables : PageTables kernelDir dirs machine)
    (member : dir ∈ kernelDir :: dirs) (va_lt : va < 2 ^ 32) {pa : ℕ}
    (access : x86Access (dir * 4096) true write machine.mem va = some pa) :
    EntryPresent (pteWord machine dir va) ∧ pteWord machine dir va / 4096 = pa / 4096 ∧
      ArchVmAllows machine ⟨dir * 4096⟩ va x86User ∧
      (write = true → ArchVmAllows machine ⟨dir * 4096⟩ va x86Writable) := by
  rw [x86Access_eq tables member va_lt] at access
  split_ifs at access with allowed
  obtain ⟨mapped, table, page⟩ := allowed
  have pa_eq := Option.some.inj access
  have present := table_present_of_pteWord mapped
  refine ⟨mapped, by omega, ?_, fun writes => ?_⟩
  · rw [ArchVmAllows, archVmPde_eq, archVmPte_eq present]
    exact ⟨(table rfl).1, (page rfl).1⟩
  · rw [ArchVmAllows, archVmPde_eq, archVmPte_eq present]
    exact ⟨(table rfl).2 writes, (page rfl).2 writes⟩

end

end ItWorksOS
