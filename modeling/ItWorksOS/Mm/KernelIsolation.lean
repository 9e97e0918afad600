import ItWorksOS.Mm.VmSystem

/-!
# Isolation of the kernel half

Calls on an address space change entries of the user half only, as long as none of their ranges
starts there and ends at the top of the address space. `vm_user_range_valid` computes the end of
such a range as zero and accepts it; a failed `vm_map` then leaves an area behind that a later call
takes as permission for the kernel half.
-/

namespace ItWorksOS

variable {Heap : Type*} {ops : HeapOps Heap} {boot kernel kernel' : Kernel Heap}
  {kernelDir dir frame virt size : ℕ} {dirs : List ℕ} {vm : VmSpace}

/-- Calls on an address space leave the kernel half, and every other address space. -/
theorem vmCalls_kept (inv : KernelTables kernelDir dirs kernel) (member : dir ∈ dirs)
    (arch_eq : vm.arch = ⟨dir * 4096⟩) {calls : List VmOp}
    (no_wrap : ∀ op ∈ calls, op.virt < 0xC0000000 → op.rangeEnd ≠ 2 ^ 32) :
    ∃ vmas machine heap, vmCalls (x86Env ops) calls vm kernel =
        ({ vm with vmas := vmas }, { kernel with machine := machine, heap := heap }) ∧
      TablesKept kernelDir dirs kernel.machine machine ∧
      ∀ dir' ∈ kernelDir :: dirs, ∀ va < 2 ^ 32, kernelVirtOffset ≤ va ∨ dir' ≠ dir →
        pteWord machine dir' va = pteWord kernel.machine dir' va := by
  induction calls generalizing vm kernel with
  | nil =>
      exact ⟨vm.vmas, kernel.machine, kernel.heap, rfl, .refl inv.tables inv.ready,
        fun _ _ _ _ _ => rfl⟩
  | cons op calls induction =>
      obtain ⟨_, vmas, machine, heap, start, done, word, result, rewritten, bounded⟩ :=
        vmCall_rewritten inv member arch_eq op
      have user := bounded (no_wrap op (by simp))
      have next : KernelTables kernelDir dirs { kernel with machine := machine, heap := heap } :=
        ⟨rewritten.tables, rewritten.ready, inv.kernelVm_eq⟩
      obtain ⟨vmas', machine', heap', results, kept, views⟩ := induction next
        (show ({ vm with vmas := vmas } : VmSpace).arch = ⟨dir * 4096⟩ from arch_eq)
        (fun other other_mem => no_wrap other (by simp [other_mem]))
      refine ⟨vmas', machine', heap', ?_, rewritten.tablesKept.trans kept, ?_⟩
      · rw [vmCalls, result]
        exact results
      · intro dir' member' va va_lt outside
        rw [views dir' member' va va_lt outside]
        refine rewritten.kept dir' member' va va_lt fun inside => ?_
        obtain ⟨⟨_, upper⟩, same | kernel_le⟩ := mem_rangeOf.mp inside
        · rcases outside with kernel_le | distinct
          · omega
          · exact distinct same
        · omega

/-- The range that starts one page below the kernel half and ends at `2 ^ 32`. -/
structure WrappingRange (virt size : ℕ) : Prop where
  below : virt + 4096 = kernelVirtOffset
  top : virt + size = 2 ^ 32

namespace WrappingRange

variable (range : WrappingRange virt size)
include range

theorem pageRange : PageRange virt size := by
  obtain ⟨below, top⟩ := range
  unfold kernelVirtOffset at below
  exact ⟨by omega, by omega, by omega, by omega⟩

theorem end_eq : (virt + size) % 2 ^ 32 = 0 := by
  rw [range.top, Nat.mod_self]

theorem user : vmUserRangeValid virt size = true := by
  obtain ⟨below, top⟩ := range
  unfold kernelVirtOffset at below
  refine vmUserRangeValid_iff.mpr ⟨by omega, ?_, Or.inr top⟩
  unfold vmUserEnd
  omega

theorem mapArgs : VmMapArgs virt 0 size := by
  have pages := range.pageRange
  have top := range.top
  refine ⟨pages.virt_mod, rfl, pages.size_mod, range.user, ?_⟩
  exact (vmPhysRangeValid_iff (by decide)).mpr ⟨pages.size_pos, by omega⟩

/-- Mapping the range fails at the first kernel page, and its area stays in the list. -/
theorem vmMap_eq {heap : Heap} {ptr : ℕ} (inv : KernelTables kernelDir dirs kernel)
    (member : dir ∈ dirs) (fresh : FreshFrame kernel.machine frame)
    (unmapped : ¬ EntryPresent (pteWord kernel.machine dir virt))
    (mapped : EntryPresent (pteWord kernel.machine dir kernelVirtOffset))
    (allocated : ops.kmalloc kernel.heap vmaSize = (ptr, heap))
    (pointer : kerrPtrIsErr ptr = false) (flags : ℕ) :
    ∃ machine, vmMap (x86Env ops) ⟨[], ⟨dir * 4096⟩⟩ virt 0 size flags kernel =
        (.error .existing, ⟨[⟨virt, 0, flags, ptr⟩], ⟨dir * 4096⟩⟩,
          { kernel with machine := machine, heap := heap }) ∧
      Rewritten kernelDir dirs dir kernel.machine machine (rangeOf dir virt 1)
        (mapWord virt 0 flags) := by
  have below := range.below
  have kernel_page : virt + 4096 * 1 = kernelVirtOffset := by omega
  obtain ⟨done, machine, rewritten, absent, start, outcome⟩ := archVmMap_cases inv.tables inv.ready
    (Or.inl member) range.pageRange (rfl : 0 % 4096 = 0) flags
  have at_most_one : done ≤ 1 := by
    by_contra more
    have missing := absent 1 (by omega)
    rw [kernel_page] at missing
    exact missing mapped
  obtain ⟨failed, rfl⟩ : archVmMap kernel.machine ⟨dir * 4096⟩ virt 0 size flags =
      (.error .existing, machine) ∧ done = 1 := by
    rcases outcome with ⟨_, done_eq⟩ | ⟨error, failed, _, ⟨_, user, exhausted⟩ | ⟨rfl, taken⟩⟩
    · have top := range.top
      unfold kernelVirtOffset at below
      omega
    · have done_zero : done = 0 := by omega
      rw [start done_zero] at exhausted
      exact absurd fresh (exhausted frame)
    · refine ⟨failed, ?_⟩
      by_contra not_one
      have done_zero : done = 0 := by omega
      rw [done_zero] at taken
      exact unmapped taken
  refine ⟨machine, ?_, rewritten⟩
  -- The search for the new area fails, since its end is zero.
  have kept : vmRemoveVma (x86Env ops) ⟨[⟨virt, 0, flags, ptr⟩], ⟨dir * 4096⟩⟩ virt
      { kernel with machine := machine, heap := heap } =
        (.error .noent, ⟨[⟨virt, 0, flags, ptr⟩], ⟨dir * 4096⟩⟩,
          { kernel with machine := machine, heap := heap }) := by
    have user_lt : ¬ vmUserEnd ≤ virt := by
      unfold kernelVirtOffset at below
      unfold vmUserEnd
      omega
    have not_found : vmFindVma ⟨[⟨virt, 0, flags, ptr⟩], ⟨dir * 4096⟩⟩ virt = none := by
      rw [vmFindVma, if_neg user_lt]
      simp [vmSearch]
    rw [vmRemoveVma, not_found]
  have kmalloc_eq : (x86Env ops).kmalloc kernel vmaSize = (ptr, { kernel with heap := heap }) := by
    simp only [x86Env, allocated]
  have map_eq : (x86Env ops).archVmMap { kernel with heap := heap } ⟨dir * 4096⟩ virt 0 size flags =
      (.error .existing, { kernel with machine := machine, heap := heap }) := by
    simp only [x86Env, Kernel.lift, failed]
  have result : vmMap (x86Env ops) ⟨[], ⟨dir * 4096⟩⟩ virt 0 size flags kernel = _ :=
    (ItWorksOS.vmMap_eq range.mapArgs
      (rfl : vmAddPosition virt ((virt + size) % 2 ^ 32) [] = some ([], [])) kmalloc_eq
      pointer).2 .existing map_eq
  rw [result, range.end_eq, List.nil_append, kept]

/-- Protecting the range that was left behind opens the kernel half to user mode. -/
theorem vmProtect_exposes (ops : HeapOps Heap) (ptr flags : ℕ)
    (inv : KernelTables kernelDir dirs kernel)
    (member : dir ∈ dirs) (first : EntryPresent (pteWord kernel.machine dir virt))
    (mapped : EntryPresent (pteWord kernel.machine dir kernelVirtOffset))
    (user_flag : flags / 8 % 2 = 1) :
    ∃ status vm machine, vmProtect (x86Env ops) ⟨[⟨virt, 0, flags, ptr⟩], ⟨dir * 4096⟩⟩ virt size
        flags kernel = (status, vm, { kernel with machine := machine }) ∧
      pteWord machine kernelDir kernelVirtOffset / 4 % 2 = 1 := by
  have below := range.below
  have pages := range.pageRange
  have kernel_page : virt + 4096 * 1 = kernelVirtOffset := by omega
  have dir_mem : dir ∈ kernelDir :: dirs := List.mem_cons_of_mem _ member
  obtain ⟨done, machine, rewritten, present, outcome⟩ :=
    archVmProtect_cases inv.tables inv.ready dir_mem pages flags
  have at_least_two : 2 ≤ done := by
    rcases outcome with ⟨_, done_eq⟩ | ⟨_, _, missing⟩
    · have top := range.top
      unfold kernelVirtOffset at below
      omega
    · by_contra few
      obtain rfl | rfl : done = 0 ∨ done = 1 := by omega
      · exact missing first
      · rw [kernel_page] at missing
        exact missing mapped
  have exposed : pteWord machine kernelDir kernelVirtOffset / 4 % 2 = 1 := by
    have inside : (kernelDir, kernelVirtOffset) ∈ rangeOf dir virt done := by
      rw [mem_rangeOf]
      exact ⟨⟨by omega, by omega⟩, Or.inr (Nat.le_refl _)⟩
    rw [rewritten.replaced kernelDir (List.mem_cons_self ..) kernelVirtOffset (by decide) inside,
      pteValue, x86VmFlagsToPte_eq]
    omega
  have whole : vmWholeVma ⟨[⟨virt, 0, flags, ptr⟩], ⟨dir * 4096⟩⟩ virt size =
      .ok ⟨virt, 0, flags, ptr⟩ := by
    have size_ne : size ≠ 0 := Nat.ne_of_gt pages.size_pos
    rw [vmWholeVma, if_neg size_ne, if_neg (by
      simp [alignTest_iff.mpr pages.virt_mod, alignTest_iff.mpr pages.size_mod]),
      if_neg (by simp [range.user]), vmFindVmaRange, if_neg (by simp [range.user]), range.end_eq]
    simp [vmSearch]
  obtain ⟨status, protect_eq⟩ : ∃ status, (x86Env ops).archVmProtect kernel ⟨dir * 4096⟩ virt size
      flags = (status, { kernel with machine := machine }) := by
    rcases outcome with ⟨passed, _⟩ | ⟨failed, _⟩
    · exact ⟨_, by simp only [x86Env, Kernel.lift, passed]; rfl⟩
    · exact ⟨_, by simp only [x86Env, Kernel.lift, failed]; rfl⟩
  rcases vmProtect_cases (x86Env ops) ⟨[⟨virt, 0, flags, ptr⟩], ⟨dir * 4096⟩⟩ virt size flags
      kernel with ⟨error, rejected, _⟩ | ⟨vma, state', _, ⟨call, result⟩ | ⟨error, call, result⟩⟩
  · rw [whole] at rejected
    cases rejected
  · rw [protect_eq] at call
    obtain ⟨_, rfl⟩ := Prod.mk.inj call
    exact ⟨_, _, machine, result, exposed⟩
  · rw [protect_eq] at call
    obtain ⟨_, rfl⟩ := Prod.mk.inj call
    exact ⟨_, _, machine, result, exposed⟩

end WrappingRange

end ItWorksOS
