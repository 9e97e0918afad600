import ItWorksOS.Arch.X86.PageTables

/-!
# Mapping, unmapping and protecting ranges

Each loop of `arch/x86/mm.c` handles one page at a time and returns at the first failure. A run of
a loop therefore rewrites the entries of a leading part of its range, and fails only at the page
after it.
-/

namespace ItWorksOS

/-- The entry that maps a physical page with generic flags. -/
def pteValue (pa flags : ℕ) : ℕ := pa % 2 ^ 32 / 4096 * 4096 + x86VmFlagsToPte flags

theorem x86VmFlagsToPte_lt (flags : ℕ) : x86VmFlagsToPte flags < 8 := by
  rw [x86VmFlagsToPte_eq]
  omega

theorem pteValue_lt (pa flags : ℕ) : pteValue pa flags < 2 ^ 32 := by
  have flags_lt := x86VmFlagsToPte_lt flags
  unfold pteValue
  omega

theorem pteValue_present (pa flags : ℕ) : EntryPresent (pteValue pa flags) := by
  unfold EntryPresent pteValue
  rw [x86VmFlagsToPte_eq]
  omega

/-- The flag bits of a table entry. -/
theorem pteValue_flags (pa flags : ℕ) :
    (pteValue pa flags / 2 % 2 = 1 ↔ flags &&& vmWrite ≠ 0) ∧
      (pteValue pa flags / 4 % 2 = 1 ↔ flags &&& vmUser ≠ 0) := by
  have write_bit := PackedWord.and_bit_eq_zero flags 1
  have user_bit := PackedWord.and_bit_eq_zero flags 3
  simp only [Nat.reducePow] at write_bit user_bit
  unfold pteValue
  rw [x86VmFlagsToPte_eq, ne_eq, ne_eq, write_bit, user_bit]
  constructor <;> omega

theorem pteValue_eq (pa flags : ℕ) :
    (pa &&& x86PageMask) ||| x86VmFlagsToPte flags = pteValue pa flags := by
  have flags_lt := x86VmFlagsToPte_lt flags
  rw [and_pageMask, or_entryFlags _ (by omega), pteValue]

section Pages

variable {kernelDir dir va pa flags : ℕ} {dirs : List ℕ} {machine : Machine}

/-- Addresses that an address space may map: the whole range for a process, the kernel half for
the kernel. -/
def Mappable (kernelDir : ℕ) (dirs : List ℕ) (dir va : ℕ) : Prop :=
  dir ∈ dirs ∨ dir = kernelDir ∧ kernelVirtOffset ≤ va

theorem Mappable.member (mappable : Mappable kernelDir dirs dir va) : dir ∈ kernelDir :: dirs := by
  rcases mappable with dir_mem | ⟨rfl, _⟩ <;> simp [*]

/-- Allocation of a cleared frame fails only without a fresh frame. -/
theorem archAllocTable_cases (machine : Machine) :
    (archAllocTable machine = (.error .nomem, machine) ∧ ∀ frame, ¬ FreshFrame machine frame) ∨
      ∃ frame, FreshFrame machine frame ∧ archAllocTable machine = (.ok (frame * 4096),
        { mem := memset machine.mem (frame * 4096) 0 x86PageSize
          pmm := pmmMark machine.pmm frame 1 }) := by
  rcases pmmAllocLowmem_cases machine.pmm (by decide : 0 < 1) with
    ⟨failed, exhausted⟩ | ⟨frame, allocated, lowmem, below, free⟩
  · left
    refine ⟨by rw [archAllocTable, failed], fun frame fresh => ?_⟩
    refine exhausted frame (Nat.le_min.mpr ⟨fresh.lowmem, fresh.below⟩) ?_
    intro other lower upper
    obtain rfl : other = frame := by omega
    exact fresh.free
  · exact Or.inr ⟨frame, ⟨lowmem, below, free frame (by omega) (by omega)⟩,
      by rw [archAllocTable, allocated]⟩

private theorem setEntry_eq (machine : Machine) (dir index value : ℕ) :
    machine.setEntry (dir * 4096) index value =
      { machine with mem := machine.mem.setWord dir index value } := rfl

private theorem entry_eq (machine : Machine) (dir index : ℕ) :
    machine.entry (dir * 4096) index = machine.mem.word dir index := rfl

/-- A present directory entry is found without effect. -/
theorem archVmTable_of_present (tables : PageTables kernelDir dirs machine)
    (member : dir ∈ kernelDir :: dirs) (va_lt : va < 2 ^ 32)
    (present : EntryPresent (machine.mem.word dir (va / 2 ^ 22))) (flags : ℕ) :
    archVmTable machine ⟨dir * 4096⟩ va flags =
      (.ok (machine.mem.word dir (va / 2 ^ 22)), machine) := by
  have index_lt : va / 2 ^ 22 < 1024 := by omega
  have small := tables.small dir member _ index_lt present
  simp only [archVmTable, pdeIndex_eq, entry_eq, and_present, ne_eq, and_pdePageSize]
  rw [if_neg (not_not.mpr present), if_neg (not_not.mpr small)]

/-- An absent directory entry receives a fresh empty table, unless memory has run out. -/
theorem archVmTable_of_absent (tables : PageTables kernelDir dirs machine)
    (ready : KernelReady kernelDir machine) (mappable : Mappable kernelDir dirs dir va)
    (va_lt : va < 2 ^ 32) (absent : ¬ EntryPresent (machine.mem.word dir (va / 2 ^ 22)))
    (flags : ℕ) :
    (archVmTable machine ⟨dir * 4096⟩ va flags = (.error .nomem, machine) ∧
        va < kernelVirtOffset ∧ ∀ frame, ¬ FreshFrame machine frame) ∨
      ∃ frame machine', FreshFrame machine frame ∧
        Installable kernelDir dirs dir (va / 2 ^ 22) ∧
        machine' = installTable machine dir (va / 2 ^ 22) frame (x86VmFlagsToPde flags) ∧
        archVmTable machine ⟨dir * 4096⟩ va flags =
          (.ok (machine'.mem.word dir (va / 2 ^ 22)), machine') := by
  have index_lt : va / 2 ^ 22 < 1024 := by omega
  simp only [archVmTable, pdeIndex_eq, entry_eq, setEntry_eq, and_present, ne_eq, and_pdePageSize]
  have user : va < kernelVirtOffset := by
    by_contra kernel
    have kernel_index : 768 ≤ va / 2 ^ 22 := by
      unfold kernelVirtOffset at kernel
      omega
    refine absent ?_
    rcases List.mem_cons.mp mappable.member with rfl | dir_mem
    · exact ready _ kernel_index index_lt
    · rw [tables.shared dir dir_mem _ kernel_index index_lt]
      exact ready _ kernel_index index_lt
  rw [if_pos absent]
  rcases archAllocTable_cases machine with ⟨failed, exhausted⟩ | ⟨frame, fresh, allocated⟩
  · exact Or.inl ⟨by rw [failed], user, exhausted⟩
  · right
    have place : Installable kernelDir dirs dir (va / 2 ^ 22) := by
      unfold kernelVirtOffset at user
      rcases mappable with dir_mem | ⟨_, kernel⟩
      · exact Or.inl ⟨dir_mem, by omega⟩
      · unfold kernelVirtOffset at kernel
        omega
    have flags_eq := x86VmFlagsToPde_cases flags
    have value_eq : frame * 4096 ||| x86VmFlagsToPde flags =
        frame * 4096 + x86VmFlagsToPde flags := or_entryFlags _ (by omega)
    refine ⟨frame, _, fresh, place, rfl, ?_⟩
    rw [allocated]
    simp only [value_eq]
    rfl

/-- A directory entry is found, or receives a fresh empty table. -/
theorem archVmTable_cases (tables : PageTables kernelDir dirs machine)
    (ready : KernelReady kernelDir machine) (mappable : Mappable kernelDir dirs dir va)
    (va_lt : va < 2 ^ 32) (flags : ℕ) (word : ℕ → ℕ) :
    (archVmTable machine ⟨dir * 4096⟩ va flags = (.error .nomem, machine) ∧
        va < kernelVirtOffset ∧ ∀ frame, ¬ FreshFrame machine frame) ∨
      ∃ machine', archVmTable machine ⟨dir * 4096⟩ va flags =
          (.ok (machine'.mem.word dir (va / 2 ^ 22)), machine') ∧
        EntryPresent (machine'.mem.word dir (va / 2 ^ 22)) ∧
        Rewritten kernelDir dirs dir machine machine' ∅ word ∧
        (EntryPresent (machine.mem.word dir (va / 2 ^ 22)) → machine' = machine) := by
  by_cases present : EntryPresent (machine.mem.word dir (va / 2 ^ 22))
  · exact Or.inr ⟨machine, archVmTable_of_present tables mappable.member va_lt present flags,
      present, Rewritten.refl tables ready, fun _ => rfl⟩
  · rcases archVmTable_of_absent tables ready mappable va_lt present flags with
      failed | ⟨frame, _, fresh, place, rfl, found⟩
    · exact Or.inl failed
    · have flags_eq := x86VmFlagsToPde_cases flags
      refine Or.inr ⟨_, found, ?_,
        rewritten_installTable tables fresh place present flags_eq ready word,
        fun present' => absurd present' present⟩
      rw [word_installTable tables fresh place flags_eq mappable.member (by omega),
        if_pos ⟨rfl, rfl⟩]
      unfold EntryPresent
      omega

theorem pteWord_of_present (present : EntryPresent (machine.mem.word dir (va / 2 ^ 22))) :
    pteWord machine dir va =
      machine.mem.word (machine.mem.word dir (va / 2 ^ 22) / 4096) (va / 4096 % 1024) := by
  simp only [pteWord]
  rw [if_pos present]

theorem table_present_of_pteWord (mapped : EntryPresent (pteWord machine dir va)) :
    EntryPresent (machine.mem.word dir (va / 2 ^ 22)) := by
  by_contra missing
  simp only [pteWord, if_neg missing] at mapped
  exact absurd mapped (by decide)

theorem pteWord_lt (machine : Machine) (dir va : ℕ) : pteWord machine dir va < 2 ^ 32 := by
  simp only [pteWord]
  split
  · exact ByteMemory.word_lt _ _ _
  · decide

/-- The frame address that a masked entry yields. -/
private theorem word_and_pageMask (machine : Machine) (dir index : ℕ) :
    machine.mem.word dir index &&& x86PageMask = machine.mem.word dir index / 4096 * 4096 := by
  rw [and_pageMask, Nat.mod_eq_of_lt (ByteMemory.word_lt _ _ _)]

/-- One iteration of `arch_vm_map` fails without effect or maps one absent page. -/
theorem archVmMapPage_cases (tables : PageTables kernelDir dirs machine)
    (ready : KernelReady kernelDir machine) (mappable : Mappable kernelDir dirs dir va)
    (va_lt : va < 2 ^ 32) (pa flags : ℕ) :
    (∃ error, archVmMapPage ⟨dir * 4096⟩ va pa flags machine = (.error error, machine) ∧
        (error = .nomem ∧ va < kernelVirtOffset ∧ (∀ frame, ¬ FreshFrame machine frame) ∨
          error = .existing ∧ EntryPresent (pteWord machine dir va))) ∨
      ∃ machine', archVmMapPage ⟨dir * 4096⟩ va pa flags machine = (.ok (), machine') ∧
        ¬ EntryPresent (pteWord machine dir va) ∧
        Rewritten kernelDir dirs dir machine machine' (pageOf dir va) fun _ =>
          pteValue pa flags := by
  simp only [archVmMapPage]
  rcases archVmTable_cases tables ready mappable va_lt flags fun _ => pteValue pa flags with
    ⟨failed, user, exhausted⟩ | ⟨middle, found, present, rewritten, same⟩
  · rw [failed]
    exact Or.inl ⟨.nomem, rfl, Or.inl ⟨rfl, user, exhausted⟩⟩
  · have entry_word := pteWord_of_present present
    have kept := rewritten.kept dir mappable.member va va_lt (by simp)
    rw [found]
    simp only [word_and_pageMask, entry_eq, setEntry_eq, pteIndex_eq, ne_eq, and_present,
      pteValue_eq]
    rw [← entry_word, kept]
    by_cases mapped : EntryPresent (pteWord machine dir va)
    · rw [if_pos (not_not.mpr mapped), same (table_present_of_pteWord mapped)]
      exact Or.inl ⟨.existing, rfl, Or.inr ⟨rfl, mapped⟩⟩
    · rw [if_neg (not_not.mpr mapped)]
      have written := rewritten_setPte rewritten.tables rewritten.ready mappable.member va_lt
        present (pteValue_lt pa flags)
      refine Or.inr ⟨_, rfl, mapped, ?_⟩
      simpa using rewritten.trans written fun _ _ => rfl

/-- The lookup shared by `arch_vm_unmap` and `arch_vm_protect`. -/
theorem archVmPresentTable_eq (tables : PageTables kernelDir dirs machine)
    (member : dir ∈ kernelDir :: dirs) (va_lt : va < 2 ^ 32) :
    archVmPresentTable machine ⟨dir * 4096⟩ va =
      if EntryPresent (pteWord machine dir va) then
        .ok (machine.mem.word dir (va / 2 ^ 22) / 4096 * 4096)
      else .error .noent := by
  have index_lt : va / 2 ^ 22 < 1024 := by omega
  simp only [archVmPresentTable, pdeIndex_eq, pteIndex_eq, entry_eq, word_and_pageMask,
    and_present, ne_eq, and_pdePageSize]
  by_cases present : EntryPresent (machine.mem.word dir (va / 2 ^ 22))
  · have small := tables.small dir member _ index_lt present
    rw [if_neg (not_not.mpr present), if_neg (not_not.mpr small), ← pteWord_of_present present,
      ite_not]
  · rw [if_pos present, if_neg]
    simp only [pteWord, if_neg present]
    decide

/-- One iteration of `arch_vm_unmap` clears the entry of a mapped page. -/
theorem archVmUnmapPage_cases (tables : PageTables kernelDir dirs machine)
    (ready : KernelReady kernelDir machine) (member : dir ∈ kernelDir :: dirs)
    (va_lt : va < 2 ^ 32) :
    (archVmUnmapPage ⟨dir * 4096⟩ va machine = (.error .noent, machine) ∧
        ¬ EntryPresent (pteWord machine dir va)) ∨
      ∃ machine', archVmUnmapPage ⟨dir * 4096⟩ va machine = (.ok (), machine') ∧
        EntryPresent (pteWord machine dir va) ∧
        Rewritten kernelDir dirs dir machine machine' (pageOf dir va) fun _ => 0 := by
  simp only [archVmUnmapPage, archVmPresentTable_eq tables member va_lt]
  by_cases mapped : EntryPresent (pteWord machine dir va)
  · rw [if_pos mapped]
    have written := rewritten_setPte tables ready member va_lt (table_present_of_pteWord mapped)
      (by decide : 0 < 2 ^ 32)
    rw [← pteIndex_eq] at written
    exact Or.inr ⟨_, rfl, mapped, written⟩
  · rw [if_neg mapped]
    exact Or.inl ⟨rfl, mapped⟩

/-- One iteration of `arch_vm_protect` keeps the frame of a mapped page. -/
theorem archVmProtectPage_cases (tables : PageTables kernelDir dirs machine)
    (ready : KernelReady kernelDir machine) (member : dir ∈ kernelDir :: dirs)
    (va_lt : va < 2 ^ 32) (flags : ℕ) :
    (archVmProtectPage ⟨dir * 4096⟩ va flags machine = (.error .noent, machine) ∧
        ¬ EntryPresent (pteWord machine dir va)) ∨
      ∃ machine', archVmProtectPage ⟨dir * 4096⟩ va flags machine = (.ok (), machine') ∧
        EntryPresent (pteWord machine dir va) ∧
        Rewritten kernelDir dirs dir machine machine' (pageOf dir va)
          fun _ => pteValue (pteWord machine dir va) flags := by
  simp only [archVmProtectPage, archVmPresentTable_eq tables member va_lt]
  by_cases mapped : EntryPresent (pteWord machine dir va)
  · rw [if_pos mapped]
    have present := table_present_of_pteWord mapped
    have written := rewritten_setPte tables ready member va_lt present
      (pteValue_lt (pteWord machine dir va) flags)
    simp only [entry_eq, pteIndex_eq, ← pteWord_of_present present, pteValue_eq, setEntry_eq]
    exact Or.inr ⟨_, rfl, mapped, written⟩
  · rw [if_neg mapped]
    exact Or.inl ⟨rfl, mapped⟩

/-- Translation reads the entry of the page. -/
theorem archVmTranslate_eq (tables : PageTables kernelDir dirs machine)
    (member : dir ∈ kernelDir :: dirs) (va_lt : va < 2 ^ 32) :
    archVmTranslate machine ⟨dir * 4096⟩ va =
      if EntryPresent (pteWord machine dir va) then
        .ok (pteWord machine dir va / 4096 * 4096 + va % 4096)
      else .error .noent := by
  have index_lt : va / 2 ^ 22 < 1024 := by omega
  have offset : va &&& (x86PageSize - 1) = va % 4096 := Nat.and_two_pow_sub_one_eq_mod va 12
  simp only [archVmTranslate, pdeIndex_eq, pteIndex_eq, entry_eq, word_and_pageMask, and_present,
    ne_eq, and_pdePageSize, offset]
  by_cases present : EntryPresent (machine.mem.word dir (va / 2 ^ 22))
  · have small := tables.small dir member _ index_lt present
    rw [if_neg (not_not.mpr present), if_neg (not_not.mpr small), ← pteWord_of_present present,
      ite_not, or_entryFlags _ (Nat.mod_lt _ (by decide))]
  · rw [if_pos present, if_neg]
    simp only [pteWord, if_neg present]
    decide

end Pages

/-! ## Ranges -/

/-- Pages of the first `count` pages of a range, seen from every directory that shares them. -/
def rangeOf (dir virt count : ℕ) : Set (ℕ × ℕ) :=
  {page | (virt ≤ page.2 ∧ page.2 < virt + 4096 * count) ∧
    (page.1 = dir ∨ kernelVirtOffset ≤ page.2)}

theorem mem_rangeOf {dir virt count dir' va : ℕ} :
    (dir', va) ∈ rangeOf dir virt count ↔
      (virt ≤ va ∧ va < virt + 4096 * count) ∧ (dir' = dir ∨ kernelVirtOffset ≤ va) := Iff.rfl

/-- Outside a range, its own directory is as before. -/
theorem Rewritten.kept_outside {kernelDir dir virt count stop va : ℕ} {dirs : List ℕ}
    {machine machine' : Machine} {word : ℕ → ℕ}
    (rewritten : Rewritten kernelDir dirs dir machine machine' (rangeOf dir virt count) word)
    (member : dir ∈ kernelDir :: dirs) (stop_eq : virt + 4096 * count = stop) (va_lt : va < 2 ^ 32)
    (outside : ¬ (virt ≤ va ∧ va < stop)) : pteWord machine' dir va = pteWord machine dir va := by
  refine rewritten.kept dir member va va_lt fun inside => outside ?_
  rw [mem_rangeOf, stop_eq] at inside
  exact inside.1

private theorem mem_rangeOf_succ {dir virt count dir' va : ℕ} (aligned : virt % 4096 = 0) :
    (dir', va) ∈ rangeOf dir virt count ∪ pageOf dir (virt + 4096 * count) ↔
      (dir', va) ∈ rangeOf dir virt (count + 1) := by
  simp only [Set.mem_union, rangeOf, pageOf, Set.mem_ofPred_eq, kernelVirtOffset]
  omega

/-- A loop over pages whose body keeps a property of the machine. -/
theorem forPages_keeps (Kept : Machine → Prop) {body : ℕ → Machine → Status × Machine}
    (step : ∀ off machine, Kept machine → Kept (body off machine).2) (count off : ℕ)
    {machine : Machine} (kept : Kept machine) : Kept (forPages body count off machine).2 := by
  induction count generalizing off machine with
  | zero =>
      rw [forPages]
      exact kept
  | succ count induction =>
      have next := step off machine kept
      rw [forPages]
      obtain ⟨⟨status, machine'⟩, ran⟩ : ∃ result, body off machine = result := ⟨_, rfl⟩
      rw [ran] at next ⊢
      cases status with
      | error error => exact next
      | ok => exact induction _ next

/-- A page loop whose body either fails without effect or takes one more page. -/
theorem forPages_cases (body : ℕ → Machine → Status × Machine) (Done : ℕ → Machine → Prop)
    (Failed : ℕ → Machine → KError → Prop) {machine : Machine} (total : ℕ)
    (step : ∀ done < total, ∀ machine, Done done machine →
      (∃ error, body (4096 * done) machine = (.error error, machine) ∧
          Failed done machine error) ∨
        ∃ machine', body (4096 * done) machine = (.ok (), machine') ∧ Done (done + 1) machine')
    (start : Done 0 machine) :
    ∃ done machine', Done done machine' ∧
      (forPages body total 0 machine = (.ok (), machine') ∧ done = total ∨
        ∃ error, forPages body total 0 machine = (.error error, machine') ∧ done < total ∧
          Failed done machine' error) := by
  have run (count done : ℕ) (machine : Machine) (sum : done + count = total)
      (reached : Done done machine) :
      ∃ done machine', Done done machine' ∧
        (forPages body count (4096 * (total - count)) machine = (.ok (), machine') ∧
            done = total ∨
          ∃ error, forPages body count (4096 * (total - count)) machine =
              (.error error, machine') ∧ done < total ∧ Failed done machine' error) := by
    induction count generalizing done machine with
    | zero => exact ⟨done, machine, reached, Or.inl ⟨by rw [forPages], by omega⟩⟩
    | succ count induction =>
        have offset : total - (count + 1) = done := by omega
        rw [offset]
        rcases step done (by omega) machine reached with
          ⟨error, failed, reason⟩ | ⟨machine', passed, next⟩
        · refine ⟨done, machine, reached, Or.inr ⟨error, ?_, by omega, reason⟩⟩
          rw [forPages, failed]
        · have later := induction (done + 1) machine' (by omega) next
          rw [show 4096 * (total - count) = 4096 * done + x86PageSize by
            unfold x86PageSize; omega] at later
          rw [forPages, passed]
          exact later
  have whole := run total 0 machine (by omega) start
  rwa [Nat.sub_self, Nat.mul_zero] at whole

section Ranges

variable {kernelDir dir virt phys size flags : ℕ} {dirs : List ℕ} {machine : Machine}

/-- A page-aligned, non-empty range of the 32-bit address space. -/
structure PageRange (virt size : ℕ) : Prop where
  virt_mod : virt % 4096 = 0
  size_mod : size % 4096 = 0
  size_pos : 0 < size
  fits : virt + size ≤ 2 ^ 32

/-- Extending a rewritten range by the page that follows it. -/
theorem Rewritten.next {machine' machine'' : Machine} {done value : ℕ} {word : ℕ → ℕ}
    (rewritten : Rewritten kernelDir dirs dir machine machine' (rangeOf dir virt done) word)
    (page : Rewritten kernelDir dirs dir machine' machine'' (pageOf dir (virt + 4096 * done))
      fun _ => value)
    (aligned : virt % 4096 = 0)
    (agree : ∀ va, va / 4096 = virt / 4096 + done → word va = value) :
    Rewritten kernelDir dirs dir machine machine'' (rangeOf dir virt (done + 1)) word := by
  refine (rewritten.trans page ?_).mono (fun dir' _ va _ => mem_rangeOf_succ aligned)
    fun _ _ _ _ _ => rfl
  intro other selected
  have same_page : other.2 / 4096 = (virt + 4096 * done) / 4096 := selected.1
  exact (agree other.2 (by omega)).symm

/-- The entry at an address after a range was mapped to physical memory. -/
def mapWord (virt phys flags va : ℕ) : ℕ := pteValue (phys + (va / 4096 * 4096 - virt)) flags

theorem rewritten_zero (tables : PageTables kernelDir dirs machine)
    (ready : KernelReady kernelDir machine) (word : ℕ → ℕ) :
    Rewritten kernelDir dirs dir machine machine (rangeOf dir virt 0) word := by
  refine (Rewritten.refl tables ready).mono (fun dir' _ va _ => ?_) fun _ _ _ _ _ => rfl
  rw [Set.mem_empty_iff_false, mem_rangeOf, false_iff]
  rintro ⟨⟨lower, upper⟩, _⟩
  omega

private theorem alignTest_of_mod {value : ℕ} (aligned : value % 4096 = 0) :
    alignTest value x86PageSize = true := by
  simp [alignTest, x86PageSize, aligned]

/-- With valid arguments, `arch_vm_map` is its loop. -/
private theorem archVmMap_eq_forPages (range : PageRange virt size) (phys_mod : phys % 4096 = 0)
    (machine : Machine) (vm : ArchVmSpace) (flags : ℕ) :
    archVmMap machine vm virt phys size flags =
      forPages (fun off => archVmMapPage vm ((virt + off) % 2 ^ 32) ((phys + off) % 2 ^ 64) flags)
        (size / 4096) 0 machine := by
  have size_pos := range.size_pos
  rw [archVmMap, if_neg (by omega), if_neg]
  simp [alignTest_of_mod range.virt_mod, alignTest_of_mod phys_mod, alignTest_of_mod range.size_mod]

/-- `arch_vm_map` stops without effect at a first page that cannot be mapped. -/
theorem archVmMap_of_first_error {error : KError} (range : PageRange virt size)
    (phys_mod : phys % 4096 = 0) {vm : ArchVmSpace}
    (first : archVmMapPage vm virt (phys % 2 ^ 64) flags machine = (.error error, machine)) :
    archVmMap machine vm virt phys size flags = (.error error, machine) := by
  obtain ⟨virt_mod, size_mod, size_pos, fits⟩ := range
  obtain ⟨count, count_eq⟩ : ∃ count, size / 4096 = count + 1 := ⟨size / 4096 - 1, by omega⟩
  rw [archVmMap_eq_forPages ⟨virt_mod, size_mod, size_pos, fits⟩ phys_mod, count_eq, forPages,
    Nat.add_zero, Nat.add_zero, Nat.mod_eq_of_lt (by omega : virt < 2 ^ 32), first]

/-- `arch_vm_map` maps a leading part of its range, page by page, to consecutive physical pages. It
stops early only at a page that cannot be mapped in the state reached so far. -/
theorem archVmMap_stops (tables : PageTables kernelDir dirs machine)
    (ready : KernelReady kernelDir machine) (mappable : Mappable kernelDir dirs dir virt)
    (range : PageRange virt size) (phys_mod : phys % 4096 = 0) (flags : ℕ) :
    ∃ done machine', Rewritten kernelDir dirs dir machine machine' (rangeOf dir virt done)
        (mapWord virt phys flags) ∧
      (∀ page < done, ¬ EntryPresent (pteWord machine dir (virt + 4096 * page))) ∧
      (done = 0 → machine' = machine) ∧
      (archVmMap machine ⟨dir * 4096⟩ virt phys size flags = (.ok (), machine') ∧
          done = size / 4096 ∨
        ∃ error, archVmMap machine ⟨dir * 4096⟩ virt phys size flags = (.error error, machine') ∧
          done < size / 4096 ∧
          archVmMapPage ⟨dir * 4096⟩ (virt + 4096 * done) ((phys + 4096 * done) % 2 ^ 64) flags
            machine' = (.error error, machine') ∧
          (error = .nomem ∧ virt + 4096 * done < kernelVirtOffset ∧
              (∀ frame, ¬ FreshFrame machine' frame) ∨
            error = .existing ∧ EntryPresent (pteWord machine dir (virt + 4096 * done)))) := by
  have call := archVmMap_eq_forPages range phys_mod machine ⟨dir * 4096⟩ flags
  obtain ⟨virt_mod, size_mod, size_pos, fits⟩ := range
  have looped := forPages_cases
    (fun off => archVmMapPage ⟨dir * 4096⟩ ((virt + off) % 2 ^ 32) ((phys + off) % 2 ^ 64) flags)
    (fun done machine' => Rewritten kernelDir dirs dir machine machine' (rangeOf dir virt done)
        (mapWord virt phys flags) ∧
      (∀ page < done, ¬ EntryPresent (pteWord machine dir (virt + 4096 * page))) ∧
      (done = 0 → machine' = machine))
    (fun done machine' error =>
      archVmMapPage ⟨dir * 4096⟩ (virt + 4096 * done) ((phys + 4096 * done) % 2 ^ 64) flags
          machine' = (.error error, machine') ∧
        (error = .nomem ∧ virt + 4096 * done < kernelVirtOffset ∧
            (∀ frame, ¬ FreshFrame machine' frame) ∨
          error = .existing ∧ EntryPresent (pteWord machine dir (virt + 4096 * done))))
    (size / 4096) ?_ ⟨rewritten_zero tables ready _, by omega, fun _ => rfl⟩
  · obtain ⟨done, machine', ⟨rewritten, absent, start⟩, outcome⟩ := looped
    rw [call]
    exact ⟨done, machine', rewritten, absent, start, outcome⟩
  · rintro done done_lt machine' ⟨rewritten, absent, _⟩
    have va_eq : (virt + 4096 * done) % 2 ^ 32 = virt + 4096 * done := by omega
    have va_lt : virt + 4096 * done < 2 ^ 32 := by omega
    have mappable' : Mappable kernelDir dirs dir (virt + 4096 * done) := by
      rcases mappable with dir_mem | ⟨dir_eq, kernel⟩
      · exact Or.inl dir_mem
      · exact Or.inr ⟨dir_eq, by omega⟩
    have kept := rewritten.kept dir mappable.member (virt + 4096 * done) va_lt
      (by rw [mem_rangeOf]; omega)
    simp only [va_eq]
    rcases archVmMapPage_cases rewritten.tables rewritten.ready mappable' va_lt
        ((phys + 4096 * done) % 2 ^ 64) flags with
      ⟨error, failed, reason⟩ | ⟨machine'', passed, missing, page⟩
    · rw [kept] at reason
      exact Or.inl ⟨error, failed, failed, reason⟩
    · rw [kept] at missing
      refine Or.inr ⟨machine'', passed, rewritten.next page virt_mod ?_, ?_, by omega⟩
      · intro va same_page
        unfold mapWord pteValue
        have offset : va / 4096 * 4096 - virt = 4096 * done := by omega
        rw [offset]
        omega
      · intro page page_lt
        by_cases last : page = done
        · exact last ▸ missing
        · exact absent page (by omega)

/-- `arch_vm_map` stops early at a page that is already mapped, or when a page table cannot be
allocated. -/
theorem archVmMap_cases (tables : PageTables kernelDir dirs machine)
    (ready : KernelReady kernelDir machine) (mappable : Mappable kernelDir dirs dir virt)
    (range : PageRange virt size) (phys_mod : phys % 4096 = 0) (flags : ℕ) :
    ∃ done machine', Rewritten kernelDir dirs dir machine machine' (rangeOf dir virt done)
        (mapWord virt phys flags) ∧
      (∀ page < done, ¬ EntryPresent (pteWord machine dir (virt + 4096 * page))) ∧
      (done = 0 → machine' = machine) ∧
      (archVmMap machine ⟨dir * 4096⟩ virt phys size flags = (.ok (), machine') ∧
          done = size / 4096 ∨
        ∃ error, archVmMap machine ⟨dir * 4096⟩ virt phys size flags = (.error error, machine') ∧
          done < size / 4096 ∧
          (error = .nomem ∧ virt + 4096 * done < kernelVirtOffset ∧
              (∀ frame, ¬ FreshFrame machine' frame) ∨
            error = .existing ∧ EntryPresent (pteWord machine dir (virt + 4096 * done)))) := by
  obtain ⟨done, machine', rewritten, absent, start, outcome⟩ :=
    archVmMap_stops tables ready mappable range phys_mod flags
  refine ⟨done, machine', rewritten, absent, start, ?_⟩
  rcases outcome with passed | ⟨error, failed, done_lt, -, reason⟩
  · exact Or.inl passed
  · exact Or.inr ⟨error, failed, done_lt, reason⟩

/-- The entry of a mapped page translates to the low 32 bits of the physical address. -/
theorem archVmTranslate_mapWord {va : ℕ} (tables : PageTables kernelDir dirs machine)
    (member : dir ∈ kernelDir :: dirs) (va_lt : va < 2 ^ 32) (virt_mod : virt % 4096 = 0)
    (phys_mod : phys % 4096 = 0) (virt_le : virt ≤ va)
    (word_eq : pteWord machine dir va = mapWord virt phys flags va) :
    archVmTranslate machine ⟨dir * 4096⟩ va = .ok ((phys + (va - virt)) % 2 ^ 32) := by
  have flags_lt := x86VmFlagsToPte_lt flags
  have present : EntryPresent (mapWord virt phys flags va) := pteValue_present _ _
  rw [archVmTranslate_eq tables member va_lt, word_eq, if_pos present]
  congr 1
  unfold mapWord pteValue
  omega

/-- A successful `arch_vm_map` maps the whole range to the low 32 bits of the physical range. -/
theorem archVmMap_translate {machine' : Machine} (tables : PageTables kernelDir dirs machine)
    (ready : KernelReady kernelDir machine) (mappable : Mappable kernelDir dirs dir virt)
    (range : PageRange virt size) (phys_mod : phys % 4096 = 0)
    (call : archVmMap machine ⟨dir * 4096⟩ virt phys size flags = (.ok (), machine')) {offset : ℕ}
    (offset_lt : offset < size) :
    archVmTranslate machine' ⟨dir * 4096⟩ (virt + offset) = .ok ((phys + offset) % 2 ^ 32) := by
  have fits := range.fits
  have size_mod := range.size_mod
  obtain ⟨done, result, rewritten, _, _, ⟨mapped, done_eq⟩ | ⟨error, failed, _⟩⟩ :=
    archVmMap_cases tables ready mappable range phys_mod flags
  · rw [mapped] at call
    obtain ⟨_, rfl⟩ := Prod.mk.inj call
    have va_lt : virt + offset < 2 ^ 32 := by omega
    have inside : (dir, virt + offset) ∈ rangeOf dir virt done :=
      mem_rangeOf.mpr ⟨⟨by omega, by omega⟩, Or.inl rfl⟩
    have translated := archVmTranslate_mapWord rewritten.tables mappable.member va_lt
      range.virt_mod phys_mod (by omega)
      (rewritten.replaced dir mappable.member _ va_lt inside)
    rwa [Nat.add_sub_cancel_left] at translated
  · rw [failed] at call
    cases call

/-- Addresses of one page share their entry. -/
theorem pteWord_of_same_page (machine : Machine) (dir : ℕ) {va va' : ℕ}
    (same_page : va / 4096 = va' / 4096) : pteWord machine dir va = pteWord machine dir va' := by
  have same_table : va / 2 ^ 22 = va' / 2 ^ 22 := by omega
  simp only [pteWord, same_page, same_table]

/-- The loops that update mapped pages: they rewrite a leading part of the range, which was mapped,
and stop early at a page that is not. -/
private theorem forMappedPages_cases (tables : PageTables kernelDir dirs machine)
    (ready : KernelReady kernelDir machine) (member : dir ∈ kernelDir :: dirs)
    (range : PageRange virt size) (body : ℕ → Machine → Status × Machine) (value : ℕ → ℕ)
    (page_cases : ∀ machine va, PageTables kernelDir dirs machine → KernelReady kernelDir machine →
      va < 2 ^ 32 →
        (body va machine = (.error .noent, machine) ∧ ¬ EntryPresent (pteWord machine dir va)) ∨
          ∃ machine', body va machine = (.ok (), machine') ∧
            EntryPresent (pteWord machine dir va) ∧
            Rewritten kernelDir dirs dir machine machine' (pageOf dir va)
              fun _ => value (pteWord machine dir va)) :
    ∃ done machine', Rewritten kernelDir dirs dir machine machine' (rangeOf dir virt done)
        (fun va => value (pteWord machine dir va)) ∧
      (∀ page < done, EntryPresent (pteWord machine dir (virt + 4096 * page))) ∧
      (forPages (fun off => body ((virt + off) % 2 ^ 32)) (size / 4096) 0 machine =
          (.ok (), machine') ∧ done = size / 4096 ∨
        forPages (fun off => body ((virt + off) % 2 ^ 32)) (size / 4096) 0 machine =
            (.error .noent, machine') ∧ done < size / 4096 ∧
          ¬ EntryPresent (pteWord machine dir (virt + 4096 * done))) := by
  obtain ⟨virt_mod, size_mod, size_pos, fits⟩ := range
  have looped := forPages_cases (fun off => body ((virt + off) % 2 ^ 32))
    (fun done machine' => Rewritten kernelDir dirs dir machine machine' (rangeOf dir virt done)
        (fun va => value (pteWord machine dir va)) ∧
      ∀ page < done, EntryPresent (pteWord machine dir (virt + 4096 * page)))
    (fun done _ error => error = .noent ∧
      ¬ EntryPresent (pteWord machine dir (virt + 4096 * done)))
    (size / 4096) ?_ ⟨rewritten_zero tables ready _, by omega⟩
  · obtain ⟨done, machine', ⟨rewritten, present⟩, outcome⟩ := looped
    refine ⟨done, machine', rewritten, present, ?_⟩
    rcases outcome with passed | ⟨error, failed, done_lt, rfl, missing⟩
    · exact Or.inl passed
    · exact Or.inr ⟨failed, done_lt, missing⟩
  · rintro done done_lt machine' ⟨rewritten, present⟩
    have va_eq : (virt + 4096 * done) % 2 ^ 32 = virt + 4096 * done := by omega
    have va_lt : virt + 4096 * done < 2 ^ 32 := by omega
    have kept := rewritten.kept dir member (virt + 4096 * done) va_lt
      (by rw [mem_rangeOf]; omega)
    simp only [va_eq]
    rcases page_cases machine' _ rewritten.tables rewritten.ready va_lt with
      ⟨failed, missing⟩ | ⟨machine'', passed, mapped, page⟩
    · rw [kept] at missing
      exact Or.inl ⟨.noent, failed, rfl, missing⟩
    · rw [kept] at mapped page
      refine Or.inr ⟨machine'', passed, rewritten.next page virt_mod ?_, ?_⟩
      · intro va same_page
        rw [pteWord_of_same_page machine dir (by omega : va / 4096 = (virt + 4096 * done) / 4096)]
      · intro page page_lt
        by_cases last : page = done
        · exact last ▸ mapped
        · exact present page (by omega)

/-- `arch_vm_unmap` clears a leading part of its range and stops early at an unmapped page. -/
theorem archVmUnmap_cases (tables : PageTables kernelDir dirs machine)
    (ready : KernelReady kernelDir machine) (member : dir ∈ kernelDir :: dirs)
    (range : PageRange virt size) :
    ∃ done machine', Rewritten kernelDir dirs dir machine machine' (rangeOf dir virt done)
        (fun _ => 0) ∧
      (∀ page < done, EntryPresent (pteWord machine dir (virt + 4096 * page))) ∧
      (archVmUnmap machine ⟨dir * 4096⟩ virt size = (.ok (), machine') ∧ done = size / 4096 ∨
        archVmUnmap machine ⟨dir * 4096⟩ virt size = (.error .noent, machine') ∧
          done < size / 4096 ∧ ¬ EntryPresent (pteWord machine dir (virt + 4096 * done))) := by
  have call : archVmUnmap machine ⟨dir * 4096⟩ virt size =
      forPages (fun off => archVmUnmapPage ⟨dir * 4096⟩ ((virt + off) % 2 ^ 32)) (size / 4096) 0
        machine := by
    have size_pos := range.size_pos
    rw [archVmUnmap, if_neg (by omega), if_neg]
    simp [alignTest_of_mod range.virt_mod, alignTest_of_mod range.size_mod]
  rw [call]
  exact forMappedPages_cases tables ready member range (archVmUnmapPage ⟨dir * 4096⟩) (fun _ => 0)
    fun machine va tables ready va_lt => archVmUnmapPage_cases tables ready member va_lt

/-- `arch_vm_protect` changes the flags of a leading part of its range and stops early at an
unmapped page. -/
theorem archVmProtect_cases (tables : PageTables kernelDir dirs machine)
    (ready : KernelReady kernelDir machine) (member : dir ∈ kernelDir :: dirs)
    (range : PageRange virt size) (flags : ℕ) :
    ∃ done machine', Rewritten kernelDir dirs dir machine machine' (rangeOf dir virt done)
        (fun va => pteValue (pteWord machine dir va) flags) ∧
      (∀ page < done, EntryPresent (pteWord machine dir (virt + 4096 * page))) ∧
      (archVmProtect machine ⟨dir * 4096⟩ virt size flags = (.ok (), machine') ∧
          done = size / 4096 ∨
        archVmProtect machine ⟨dir * 4096⟩ virt size flags = (.error .noent, machine') ∧
          done < size / 4096 ∧ ¬ EntryPresent (pteWord machine dir (virt + 4096 * done))) := by
  have call : archVmProtect machine ⟨dir * 4096⟩ virt size flags =
      forPages (fun off => archVmProtectPage ⟨dir * 4096⟩ ((virt + off) % 2 ^ 32) flags)
        (size / 4096) 0 machine := by
    have size_pos := range.size_pos
    rw [archVmProtect, if_neg (by omega), if_neg]
    simp [alignTest_of_mod range.virt_mod, alignTest_of_mod range.size_mod]
  rw [call]
  exact forMappedPages_cases tables ready member range
    (fun va => archVmProtectPage ⟨dir * 4096⟩ va flags) (fun word => pteValue word flags)
    fun machine va tables ready va_lt => archVmProtectPage_cases tables ready member va_lt flags

/-- Whatever its arguments, `arch_vm_map` rewrites at most a leading part of the range. -/
theorem archVmMap_rewritten (tables : PageTables kernelDir dirs machine)
    (ready : KernelReady kernelDir machine) (mappable : Mappable kernelDir dirs dir virt)
    (fits : 4096 ≤ size → virt + size ≤ 2 ^ 32) (phys flags : ℕ) :
    ∃ done word, 4096 * done ≤ size ∧ Rewritten kernelDir dirs dir machine
      (archVmMap machine ⟨dir * 4096⟩ virt phys size flags).2 (rangeOf dir virt done) word := by
  by_cases aligned : virt % 4096 = 0 ∧ phys % 4096 = 0 ∧ size % 4096 = 0 ∧ 0 < size
  · obtain ⟨virt_mod, phys_mod, size_mod, size_pos⟩ := aligned
    obtain ⟨done, machine', rewritten, _, _, ⟨mapped, done_eq⟩ | ⟨error, failed, done_lt, _⟩⟩ :=
      archVmMap_cases tables ready mappable ⟨virt_mod, size_mod, size_pos, fits (by omega)⟩
        phys_mod flags
    · exact ⟨done, _, by omega, by rw [mapped]; exact rewritten⟩
    · exact ⟨done, _, by omega, by rw [failed]; exact rewritten⟩
  · refine ⟨0, fun _ => 0, by omega, ?_⟩
    unfold archVmMap
    split
    · exact rewritten_zero tables ready _
    split
    · exact rewritten_zero tables ready _
    · rename_i size_ne checked
      simp only [Bool.or_eq_true, Bool.not_eq_true', not_or, Bool.not_eq_false, alignTest,
        decide_eq_true_eq, x86PageSize] at checked
      exact absurd ⟨checked.1.1, checked.1.2, checked.2, Nat.pos_of_ne_zero size_ne⟩ aligned

/-- The argument checks of `arch_vm_unmap` and `arch_vm_protect`. -/
private theorem rangeChecks_eq {α : Type*} (virt size : ℕ) (reject loop : α) :
    (if size = 0 then reject
      else if !alignTest virt x86PageSize || !alignTest size x86PageSize then reject
      else loop) =
        if virt % 4096 = 0 ∧ size % 4096 = 0 ∧ 0 < size then loop else reject := by
  by_cases aligned : virt % 4096 = 0 ∧ size % 4096 = 0 ∧ 0 < size
  · obtain ⟨virt_mod, size_mod, size_pos⟩ := aligned
    rw [if_neg (by omega), if_neg (by
      simp [alignTest_of_mod virt_mod, alignTest_of_mod size_mod]), if_pos (by omega)]
  · rw [if_neg aligned]
    split
    · rfl
    split
    · rfl
    · rename_i size_ne checked
      simp only [Bool.or_eq_true, Bool.not_eq_true', not_or, Bool.not_eq_false, alignTest,
        decide_eq_true_eq, x86PageSize] at checked
      exact absurd ⟨checked.1, checked.2, Nat.pos_of_ne_zero size_ne⟩ aligned

/-- Whatever its arguments, `arch_vm_unmap` rewrites at most a leading part of the range. -/
theorem archVmUnmap_rewritten (tables : PageTables kernelDir dirs machine)
    (ready : KernelReady kernelDir machine) (member : dir ∈ kernelDir :: dirs)
    (fits : 4096 ≤ size → virt + size ≤ 2 ^ 32) :
    ∃ done word, 4096 * done ≤ size ∧ Rewritten kernelDir dirs dir machine
      (archVmUnmap machine ⟨dir * 4096⟩ virt size).2 (rangeOf dir virt done) word := by
  by_cases aligned : virt % 4096 = 0 ∧ size % 4096 = 0 ∧ 0 < size
  · obtain ⟨virt_mod, size_mod, size_pos⟩ := aligned
    obtain ⟨done, machine', rewritten, _, ⟨passed, done_eq⟩ | ⟨failed, done_lt, _⟩⟩ :=
      archVmUnmap_cases tables ready member ⟨virt_mod, size_mod, size_pos, fits (by omega)⟩
    · exact ⟨done, _, by omega, by rw [passed]; exact rewritten⟩
    · exact ⟨done, _, by omega, by rw [failed]; exact rewritten⟩
  · refine ⟨0, fun _ => 0, by omega, ?_⟩
    rw [archVmUnmap, rangeChecks_eq, if_neg aligned]
    exact rewritten_zero tables ready _

/-- Whatever its arguments, `arch_vm_protect` rewrites at most a leading part of the range. -/
theorem archVmProtect_rewritten (tables : PageTables kernelDir dirs machine)
    (ready : KernelReady kernelDir machine) (member : dir ∈ kernelDir :: dirs)
    (fits : 4096 ≤ size → virt + size ≤ 2 ^ 32) (flags : ℕ) :
    ∃ done word, 4096 * done ≤ size ∧ Rewritten kernelDir dirs dir machine
      (archVmProtect machine ⟨dir * 4096⟩ virt size flags).2 (rangeOf dir virt done) word := by
  by_cases aligned : virt % 4096 = 0 ∧ size % 4096 = 0 ∧ 0 < size
  · obtain ⟨virt_mod, size_mod, size_pos⟩ := aligned
    obtain ⟨done, machine', rewritten, _, ⟨passed, done_eq⟩ | ⟨failed, done_lt, _⟩⟩ :=
      archVmProtect_cases tables ready member ⟨virt_mod, size_mod, size_pos, fits (by omega)⟩ flags
    · exact ⟨done, _, by omega, by rw [passed]; exact rewritten⟩
    · exact ⟨done, _, by omega, by rw [failed]; exact rewritten⟩
  · refine ⟨0, fun _ => 0, by omega, ?_⟩
    rw [archVmProtect, rangeChecks_eq, if_neg aligned]
    exact rewritten_zero tables ready _

end Ranges

/-! ## Frames that stay allocated -/

section Marks

variable {frame : ℕ}

theorem pmmAlloc_marked {pmm : Pmm} (marked : pmm.Marked frame) (min max pages : ℕ)
    (policy : PmmPolicy) : (pmmAlloc pmm min max pages policy).2.Marked frame := by
  rcases pmmAlloc_cases pmm min max pages policy with ⟨error, failed⟩ | ⟨first, allocated, -⟩
  · rw [failed]
    exact marked
  · rw [allocated, marked_pmmMark]
    exact .inr marked

theorem archVmTable_marked {machine : Machine} (marked : machine.pmm.Marked frame)
    (vm : ArchVmSpace) (va flags : ℕ) :
    (archVmTable machine vm va flags).2.pmm.Marked frame := by
  have kept : (pmmAllocLowmem machine.pmm 1).2.Marked frame := pmmAlloc_marked marked ..
  obtain ⟨⟨result, pmm⟩, allocated⟩ : ∃ result, pmmAllocLowmem machine.pmm 1 = result := ⟨_, rfl⟩
  rw [allocated] at kept
  rw [archVmTable, archAllocTable, allocated]
  cases result <;> dsimp only <;> split_ifs <;> first | exact kept | exact marked

theorem archVmMapPage_marked {machine : Machine} (marked : machine.pmm.Marked frame)
    (vm : ArchVmSpace) (va pa flags : ℕ) :
    (archVmMapPage vm va pa flags machine).2.pmm.Marked frame := by
  have kept := archVmTable_marked marked vm va flags
  obtain ⟨⟨result, machine'⟩, found⟩ : ∃ result, archVmTable machine vm va flags = result :=
    ⟨_, rfl⟩
  rw [found] at kept
  rw [archVmMapPage, found]
  cases result with
  | error error => exact kept
  | ok pde =>
      dsimp only
      split_ifs <;> exact kept

/-- `arch_vm_map` releases no frame. -/
theorem archVmMap_marked {machine : Machine} (marked : machine.pmm.Marked frame)
    (vm : ArchVmSpace) (virt phys size flags : ℕ) :
    (archVmMap machine vm virt phys size flags).2.pmm.Marked frame := by
  rw [archVmMap]
  split_ifs
  · exact marked
  · exact marked
  · exact forPages_keeps (fun machine => machine.pmm.Marked frame)
      (fun _ _ marked => archVmMapPage_marked marked ..) _ _ marked

end Marks

end ItWorksOS
