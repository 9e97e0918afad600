import ItWorksOS.Mm.KernelVm
import ItWorksOS.Mm.VmaList

/-!
# Address spaces over page tables

The functions of `mm/vmm.c` on top of the x86 page tables, and the system they form: any number of
live address spaces, the kernel mappings, and callers that own frames of their own.
-/

namespace ItWorksOS

variable {Heap : Type*} {ops : HeapOps Heap} {kernel kernel' : Kernel Heap}
  {kernelDir dir virt phys size flags : ℕ} {dirs : List ℕ} {vm vm' : VmSpace}

/-! ## Calls on one address space -/

theorem KernelTables.with_heap (inv : KernelTables kernelDir dirs kernel) (heap : Heap) :
    KernelTables kernelDir dirs { kernel with heap := heap } :=
  ⟨inv.tables, inv.ready, inv.kernelVm_eq⟩

theorem vmRemoveVma_heap (ops : HeapOps Heap) (vm : VmSpace) (virt : ℕ) (kernel : Kernel Heap) :
    ∃ status vmas heap, vmRemoveVma (x86Env ops) vm virt kernel =
      (status, { vm with vmas := vmas }, { kernel with heap := heap }) := by
  unfold vmRemoveVma
  split
  · exact ⟨_, vm.vmas, kernel.heap, rfl⟩
  · exact ⟨_, _, _, rfl⟩

theorem vmFreeVmas_heap (ops : HeapOps Heap) (vmas : List Vma) (kernel : Kernel Heap) :
    ∃ heap, vmFreeVmas (x86Env ops) vmas kernel = { kernel with heap := heap } := by
  induction vmas generalizing kernel with
  | nil => exact ⟨kernel.heap, rfl⟩
  | cons vma vmas induction =>
      obtain ⟨heap, freed⟩ := induction ((x86Env ops).kfree kernel vma.ptr).2
      exact ⟨heap, by rw [vmFreeVmas, freed]; rfl⟩

/-- A range that passed the user check is a range of the address space. -/
theorem userRange_fits (valid : vmUserRangeValid virt size = true) : virt + size ≤ 2 ^ 32 := by
  have bounds := vmUserRangeValid_iff.mp valid
  unfold vmUserEnd at bounds
  omega

/-- Unless it ends at `2 ^ 32`, such a range lies in the user half. -/
theorem userRange_below (valid : vmUserRangeValid virt size = true) (no_wrap : virt + size ≠ 2 ^ 32)
    {done : ℕ} (done_le : 4096 * done ≤ size) : virt + 4096 * done ≤ kernelVirtOffset := by
  have bounds := vmUserRangeValid_iff.mp valid
  unfold vmUserEnd at bounds
  unfold kernelVirtOffset
  omega

/-- A call on an address space changes its list of areas, the heap and a leading part of the range
of the call. Unless the range starts in the user half and ends at `2 ^ 32`, this part lies in the
user half. -/
theorem vmCall_rewritten (inv : KernelTables kernelDir dirs kernel) (member : dir ∈ dirs)
    (arch_eq : vm.arch = ⟨dir * 4096⟩) (op : VmOp) :
    ∃ status vmas machine heap virt done word,
      vmCall (x86Env ops) op vm kernel =
        (status, { vm with vmas := vmas }, { kernel with machine := machine, heap := heap }) ∧
      Rewritten kernelDir dirs dir kernel.machine machine (rangeOf dir virt done) word ∧
      ((op.virt < vmUserEnd → op.rangeEnd ≠ 2 ^ 32) → virt + 4096 * done ≤ kernelVirtOffset) := by
  have idle : Rewritten kernelDir dirs dir kernel.machine kernel.machine (rangeOf dir 0 0)
      fun _ => 0 := rewritten_zero inv.tables inv.ready _
  have dir_mem : dir ∈ kernelDir :: dirs := List.mem_cons_of_mem _ member
  cases op with
  | map virt phys size flags =>
      rw [vmCall]
      rcases vmMap_cases (x86Env ops) vm virt phys size flags kernel with
        ⟨_, rejected⟩ | ⟨args, ⟨_, rejected⟩ | ⟨before, after, ptr, middle, _, allocated, outcome⟩⟩
      · exact ⟨_, vm.vmas, kernel.machine, kernel.heap, 0, 0, _, rejected, idle, by simp⟩
      · exact ⟨_, vm.vmas, kernel.machine, kernel.heap, 0, 0, _, rejected, idle, by simp⟩
      · obtain ⟨_, rfl⟩ := Prod.mk.inj allocated
        obtain ⟨done, word, done_le, rewritten⟩ := archVmMap_rewritten inv.tables inv.ready
          (Or.inl member) (fun _ => userRange_fits args.user) phys flags
        have bounded : (virt < vmUserEnd → virt + size ≠ 2 ^ 32) →
            virt + 4096 * done ≤ kernelVirtOffset := fun no_wrap =>
          userRange_below args.user (no_wrap (vmUserRangeValid_iff.mp args.user).2.1) done_le
        rw [← arch_eq] at rewritten
        rcases outcome with ⟨_, rejected⟩ | ⟨_, state', ⟨mapped, result⟩ | ⟨error, failed, result⟩⟩
        · exact ⟨_, vm.vmas, kernel.machine, _, 0, 0, _, rejected, idle, by simp⟩
        · obtain ⟨_, rfl⟩ := Prod.mk.inj mapped
          exact ⟨_, _, _, _, virt, done, word, result, rewritten, bounded⟩
        · obtain ⟨_, rfl⟩ := Prod.mk.inj failed
          obtain ⟨status, vmas, heap, removed⟩ := vmRemoveVma_heap ops
            { vm with vmas := before ++ ⟨virt, (virt + size) % 2 ^ 32, flags, ptr⟩ :: after } virt _
          rw [removed] at result
          exact ⟨_, vmas, _, heap, virt, done, word, result, rewritten, bounded⟩
  | unmap virt size =>
      rw [vmCall]
      rcases vmUnmap_cases (x86Env ops) vm virt size kernel with
        ⟨error, _, rejected⟩ | ⟨vma, state', whole, outcome⟩
      · exact ⟨_, vm.vmas, kernel.machine, kernel.heap, 0, 0, _, rejected, idle, by simp⟩
      · obtain ⟨_, _, valid, _⟩ := vmWholeVma_eq_ok whole
        obtain ⟨done, word, done_le, rewritten⟩ := archVmUnmap_rewritten inv.tables inv.ready
          dir_mem (fun _ => userRange_fits valid)
        have bounded : (virt < vmUserEnd → virt + size ≠ 2 ^ 32) →
            virt + 4096 * done ≤ kernelVirtOffset := fun no_wrap =>
          userRange_below valid (no_wrap (vmUserRangeValid_iff.mp valid).2.1) done_le
        rw [← arch_eq] at rewritten
        rcases outcome with ⟨unmapped, result⟩ | ⟨error, failed, result⟩
        · obtain ⟨_, rfl⟩ := Prod.mk.inj unmapped
          exact ⟨_, _, _, _, virt, done, word, result, rewritten, bounded⟩
        · obtain ⟨_, rfl⟩ := Prod.mk.inj failed
          exact ⟨_, vm.vmas, _, kernel.heap, virt, done, word, result, rewritten, bounded⟩
  | protect virt size flags =>
      rw [vmCall]
      rcases vmProtect_cases (x86Env ops) vm virt size flags kernel with
        ⟨error, _, rejected⟩ | ⟨vma, state', whole, outcome⟩
      · exact ⟨_, vm.vmas, kernel.machine, kernel.heap, 0, 0, _, rejected, idle, by simp⟩
      · obtain ⟨_, _, valid, _⟩ := vmWholeVma_eq_ok whole
        obtain ⟨done, word, done_le, rewritten⟩ := archVmProtect_rewritten inv.tables inv.ready
          dir_mem (fun _ => userRange_fits valid) flags
        have bounded : (virt < vmUserEnd → virt + size ≠ 2 ^ 32) →
            virt + 4096 * done ≤ kernelVirtOffset := fun no_wrap =>
          userRange_below valid (no_wrap (vmUserRangeValid_iff.mp valid).2.1) done_le
        rw [← arch_eq] at rewritten
        rcases outcome with ⟨changed, result⟩ | ⟨error, failed, result⟩
        · obtain ⟨_, rfl⟩ := Prod.mk.inj changed
          exact ⟨_, _, _, kernel.heap, virt, done, word, result, rewritten, bounded⟩
        · obtain ⟨_, rfl⟩ := Prod.mk.inj failed
          exact ⟨_, vm.vmas, _, kernel.heap, virt, done, word, result, rewritten, bounded⟩

/-- `vm_space_init` fails without effect when LowMem is exhausted, and otherwise creates an empty
address space that shares the kernel half. -/
theorem vmSpaceInit_cases (inv : KernelTables kernelDir dirs kernel) :
    (vmSpaceInit (x86Env ops) kernel = (.error .nomem, kernel) ∧
        ∀ frame, ¬ FreshFrame kernel.machine frame) ∨
      ∃ frame, FreshFrame kernel.machine frame ∧
        vmSpaceInit (x86Env ops) kernel =
          (.ok ⟨[], ⟨frame * 4096⟩⟩,
            { kernel with machine := attachedFrame kernel.machine kernelDir frame }) := by
  rcases archVmSpaceInit_cases kernel.machine with ⟨failed, exhausted⟩ | ⟨frame, fresh, created⟩
  · left
    refine ⟨?_, exhausted⟩
    have call : (x86Env ops).archVmSpaceInit kernel = (.error .nomem, kernel) := by
      simp only [x86Env, Kernel.lift, failed]
    rw [vmSpaceInit, call]
  · right
    have call : (x86Env ops).archVmSpaceInit kernel =
        (.ok ⟨frame * 4096⟩, { kernel with machine := clearedFrame kernel.machine frame }) := by
      simp only [x86Env, Kernel.lift, created]
    have attached : (x86Env ops).vmKernAttach
        { kernel with machine := clearedFrame kernel.machine frame } ⟨frame * 4096⟩ =
          (.ok (), { kernel with machine := attachedFrame kernel.machine kernelDir frame }) := by
      simp only [x86Env, vmKernAttach, inv.kernelVm_eq, archVmSpaceAttachKernel_eq, Kernel.lift]
    refine ⟨frame, fresh, ?_⟩
    rw [vmSpaceInit, call]
    simp only [attached]

/-- `vm_space_destroy` succeeds and returns each frame of the address space once. -/
theorem vmSpaceDestroy_eq {before after : List ℕ}
    (inv : KernelTables kernelDir (before ++ dir :: after) kernel)
    (arch_eq : vm.arch = ⟨dir * 4096⟩) :
    ∃ heap, vmSpaceDestroy (x86Env ops) vm kernel = (.ok (), ⟨[], ⟨0⟩⟩,
      { kernel with
        machine := { kernel.machine with
          pmm := pmmUnmarkAll kernel.machine.pmm (spaceFrames kernel.machine dir) }
        heap := heap }) := by
  obtain ⟨heap, freed⟩ := vmFreeVmas_heap ops vm.vmas kernel
  refine ⟨heap, ?_⟩
  rw [vmSpaceDestroy, freed, arch_eq]
  simp only [x86Env, archVmSpaceDestroy_eq inv.tables]

end ItWorksOS
