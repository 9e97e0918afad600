import ItWorksOS.Arch.X86.Mapping

/-!
# Permissions of a page

The processor allows an access only when both the directory entry and the table entry of the page
allow it. A table entry belongs to one page, but a directory entry is shared by 1024 pages and is
written once, with the flags of the mapping that needed its table first.
-/

namespace ItWorksOS

/-- `pd[pde_index]` for an address. -/
def archVmPde (machine : Machine) (vm : ArchVmSpace) (va : ℕ) : ℕ :=
  machine.entry vm.pdPhys (pdeIndex va)

/-- `pt[pte_index]` for an address with a page table. -/
def archVmPte (machine : Machine) (vm : ArchVmSpace) (va : ℕ) : ℕ :=
  machine.entry (archVmPde machine vm va &&& x86PageMask) (pteIndex va)

/-- Both entries of an address have a bit. -/
def ArchVmAllows (machine : Machine) (vm : ArchVmSpace) (va bit : ℕ) : Prop :=
  archVmPde machine vm va &&& bit ≠ 0 ∧ archVmPte machine vm va &&& bit ≠ 0

theorem archVmPde_eq (machine : Machine) (dir va : ℕ) :
    archVmPde machine ⟨dir * 4096⟩ va = machine.mem.word dir (va / 2 ^ 22) := by
  rw [archVmPde, pdeIndex_eq]
  rfl

theorem archVmPte_eq {machine : Machine} {dir va : ℕ}
    (present : EntryPresent (machine.mem.word dir (va / 2 ^ 22))) :
    archVmPte machine ⟨dir * 4096⟩ va = pteWord machine dir va := by
  rw [archVmPte, archVmPde_eq, pteIndex_eq, pteWord_of_present present, and_pageMask,
    Nat.mod_eq_of_lt (ByteMemory.word_lt _ _ _)]
  rfl

theorem and_writable (word : ℕ) : word &&& x86Writable ≠ 0 ↔ word / 2 % 2 = 1 := by
  have bit := PackedWord.and_bit_eq_zero word 1
  rw [ne_eq, show x86Writable = 2 ^ 1 from rfl, bit]
  omega

theorem and_user (word : ℕ) : word &&& x86User ≠ 0 ↔ word / 4 % 2 = 1 := by
  have bit := PackedWord.and_bit_eq_zero word 2
  rw [ne_eq, show x86User = 2 ^ 2 from rfl, bit]
  omega

/-- A mapped page has both entries. -/
theorem archVmAllows_present_iff {machine : Machine} {dir va : ℕ} :
    ArchVmAllows machine ⟨dir * 4096⟩ va x86Present ↔ EntryPresent (pteWord machine dir va) := by
  rw [ArchVmAllows, ne_eq, ne_eq, and_present, and_present, not_not, not_not, archVmPde_eq]
  constructor
  · rintro ⟨table, page⟩
    rwa [archVmPte_eq table] at page
  · intro page
    have table := table_present_of_pteWord page
    exact ⟨table, (archVmPte_eq table).symm ▸ page⟩

/-! ## New directory entries -/

/-- The directory entries of a space stay as they are, except that absent ones of its user half may
receive a table with the given flags. -/
def TablesAdded (flags dir : ℕ) (machine machine' : Machine) : Prop :=
  ∀ index < 768, machine'.mem.word dir index = machine.mem.word dir index ∨
    ¬ EntryPresent (machine.mem.word dir index) ∧
      machine'.mem.word dir index % 4096 = x86VmFlagsToPde flags

section Added

variable {kernelDir dir va pa virt phys size flags : ℕ} {dirs : List ℕ}
  {machine machine' machine'' : Machine}

theorem TablesAdded.refl (flags dir : ℕ) (machine : Machine) :
    TablesAdded flags dir machine machine := fun _ _ => Or.inl rfl

theorem x86VmFlagsToPde_present {word : ℕ} (added : word % 4096 = x86VmFlagsToPde flags) :
    EntryPresent word := by
  unfold EntryPresent
  rcases x86VmFlagsToPde_cases flags with flags_eq | flags_eq <;> omega

theorem TablesAdded.trans (first : TablesAdded flags dir machine machine')
    (second : TablesAdded flags dir machine' machine'') :
    TablesAdded flags dir machine machine'' := by
  intro index user
  rcases first index user with same | ⟨absent, added⟩ <;>
    rcases second index user with same' | ⟨absent', added'⟩
  · exact Or.inl (same'.trans same)
  · exact Or.inr ⟨same ▸ absent', added'⟩
  · exact Or.inr ⟨absent, same'.symm ▸ added⟩
  · exact absurd (x86VmFlagsToPde_present added) absent'

/-- Finding the table of an address only adds a directory entry. -/
theorem archVmTable_added (tables : PageTables kernelDir dirs machine)
    (ready : KernelReady kernelDir machine) (member : dir ∈ dirs) (va_lt : va < 2 ^ 32)
    (flags : ℕ) :
    TablesAdded flags dir machine (archVmTable machine ⟨dir * 4096⟩ va flags).2 := by
  have dir_mem : dir ∈ kernelDir :: dirs := List.mem_cons_of_mem _ member
  by_cases present : EntryPresent (machine.mem.word dir (va / 2 ^ 22))
  · rw [archVmTable_of_present tables dir_mem va_lt present]
    exact TablesAdded.refl flags dir machine
  · rcases archVmTable_of_absent tables ready (Or.inl member) va_lt present flags with
      ⟨failed, _⟩ | ⟨frame, _, fresh, place, rfl, found⟩
    · rw [failed]
      exact TablesAdded.refl flags dir machine
    · have flags_eq := x86VmFlagsToPde_cases flags
      intro index user
      rw [found, word_installTable tables fresh place flags_eq dir_mem (by omega)]
      by_cases same : index = va / 2 ^ 22
      · subst same
        rw [if_pos ⟨rfl, rfl⟩]
        exact Or.inr ⟨present, by omega⟩
      · rw [if_neg fun both => same both.2]
        exact Or.inl rfl

/-- Writing to a page table adds no directory entry. -/
theorem setEntry_added (tables : PageTables kernelDir dirs machine)
    (member : dir ∈ kernelDir :: dirs) (va_lt : va < 2 ^ 32)
    (present : EntryPresent (machine.mem.word dir (va / 2 ^ 22))) {value : ℕ}
    (value_lt : value < 2 ^ 32) (flags : ℕ) :
    TablesAdded flags dir machine
      (machine.setEntry (machine.mem.word dir (va / 2 ^ 22) / 4096 * 4096) (pteIndex va)
        value) := by
  intro index user
  rw [pteIndex_eq]
  exact Or.inl (word_setPte tables member va_lt present value_lt member (by omega))

/-- One iteration of `arch_vm_map` only adds a directory entry. -/
theorem archVmMapPage_added (tables : PageTables kernelDir dirs machine)
    (ready : KernelReady kernelDir machine) (member : dir ∈ dirs) (va_lt : va < 2 ^ 32)
    (pa flags : ℕ) :
    TablesAdded flags dir machine (archVmMapPage ⟨dir * 4096⟩ va pa flags machine).2 := by
  have added := archVmTable_added tables ready member va_lt flags
  rw [archVmMapPage]
  rcases archVmTable_cases tables ready (Or.inl member) va_lt flags fun _ => 0 with
    ⟨failed, _⟩ | ⟨middle, found, present, rewritten, _⟩
  · rw [failed]
    exact TablesAdded.refl flags dir machine
  · rw [found] at added ⊢
    dsimp only at added ⊢
    split_ifs
    · exact added
    · rw [pteValue_eq, and_pageMask, Nat.mod_eq_of_lt (ByteMemory.word_lt _ _ _)]
      exact added.trans (setEntry_added rewritten.tables (List.mem_cons_of_mem _ member)
        va_lt present (pteValue_lt pa flags) flags)

/-- `arch_vm_map` only adds directory entries. -/
theorem archVmMap_added (tables : PageTables kernelDir dirs machine)
    (ready : KernelReady kernelDir machine) (member : dir ∈ dirs) (virt phys size flags : ℕ) :
    TablesAdded flags dir machine (archVmMap machine ⟨dir * 4096⟩ virt phys size flags).2 := by
  rw [archVmMap]
  split_ifs
  · exact TablesAdded.refl flags dir machine
  · exact TablesAdded.refl flags dir machine
  · refine (forPages_keeps (fun after => PageTables kernelDir dirs after ∧
      KernelReady kernelDir after ∧ TablesAdded flags dir machine after) ?_ _ _
      ⟨tables, ready, TablesAdded.refl flags dir machine⟩).2.2
    rintro off after ⟨tables, ready, added⟩
    have va_lt : (virt + off) % 2 ^ 32 < 2 ^ 32 := Nat.mod_lt _ (by decide)
    have page := archVmMapPage_added tables ready member va_lt ((phys + off) % 2 ^ 64) flags
    rcases archVmMapPage_cases tables ready (Or.inl member) va_lt ((phys + off) % 2 ^ 64) flags with
      ⟨_, failed, _⟩ | ⟨_, passed, _, rewritten⟩
    · rw [failed]
      exact ⟨tables, ready, added⟩
    · rw [passed] at page ⊢
      exact ⟨rewritten.tables, rewritten.ready, added.trans page⟩

/-- The loops that update mapped pages add no directory entry. -/
private theorem forMappedPages_added (tables : PageTables kernelDir dirs machine)
    (ready : KernelReady kernelDir machine) (body : ℕ → Machine → Status × Machine)
    (step : ∀ machine va, PageTables kernelDir dirs machine → KernelReady kernelDir machine →
      va < 2 ^ 32 → PageTables kernelDir dirs (body va machine).2 ∧
        KernelReady kernelDir (body va machine).2 ∧
        TablesAdded flags dir machine (body va machine).2) (count off virt : ℕ) :
    TablesAdded flags dir machine
      (forPages (fun off => body ((virt + off) % 2 ^ 32)) count off machine).2 := by
  refine (forPages_keeps (fun after => PageTables kernelDir dirs after ∧
    KernelReady kernelDir after ∧ TablesAdded flags dir machine after) ?_ _ _
    ⟨tables, ready, TablesAdded.refl flags dir machine⟩).2.2
  rintro off after ⟨tables, ready, added⟩
  have page := step after ((virt + off) % 2 ^ 32) tables ready (Nat.mod_lt _ (by decide))
  exact ⟨page.1, page.2.1, added.trans page.2.2⟩

/-- `arch_vm_unmap` adds no directory entry. -/
theorem archVmUnmap_added (tables : PageTables kernelDir dirs machine)
    (ready : KernelReady kernelDir machine) (member : dir ∈ kernelDir :: dirs)
    (virt size flags : ℕ) :
    TablesAdded flags dir machine (archVmUnmap machine ⟨dir * 4096⟩ virt size).2 := by
  rw [archVmUnmap]
  split_ifs
  · exact TablesAdded.refl flags dir machine
  · exact TablesAdded.refl flags dir machine
  · refine forMappedPages_added tables ready (archVmUnmapPage ⟨dir * 4096⟩) ?_ _ _ _
    intro machine va tables ready va_lt
    rcases archVmUnmapPage_cases tables ready member va_lt with
      ⟨failed, _⟩ | ⟨_, passed, mapped, rewritten⟩
    · rw [failed]
      exact ⟨tables, ready, TablesAdded.refl flags dir machine⟩
    · refine ⟨passed ▸ rewritten.tables, passed ▸ rewritten.ready, ?_⟩
      simp only [archVmUnmapPage, archVmPresentTable_eq tables member va_lt, if_pos mapped]
      exact setEntry_added tables member va_lt (table_present_of_pteWord mapped) (by decide) flags

/-- `arch_vm_protect` adds no directory entry. -/
theorem archVmProtect_added (tables : PageTables kernelDir dirs machine)
    (ready : KernelReady kernelDir machine) (member : dir ∈ kernelDir :: dirs)
    (virt size flags : ℕ) :
    TablesAdded flags dir machine (archVmProtect machine ⟨dir * 4096⟩ virt size flags).2 := by
  rw [archVmProtect]
  split_ifs
  · exact TablesAdded.refl flags dir machine
  · exact TablesAdded.refl flags dir machine
  · refine forMappedPages_added tables ready
      (fun va => archVmProtectPage ⟨dir * 4096⟩ va flags) ?_ _ _ _
    intro machine va tables ready va_lt
    rcases archVmProtectPage_cases tables ready member va_lt flags with
      ⟨failed, _⟩ | ⟨_, passed, mapped, rewritten⟩
    · rw [failed]
      exact ⟨tables, ready, TablesAdded.refl flags dir machine⟩
    · refine ⟨passed ▸ rewritten.tables, passed ▸ rewritten.ready, ?_⟩
      simp only [archVmProtectPage, archVmPresentTable_eq tables member va_lt, if_pos mapped,
        pteValue_eq]
      exact setEntry_added tables member va_lt (table_present_of_pteWord mapped)
        (pteValue_lt _ flags) flags

end Added

end ItWorksOS
