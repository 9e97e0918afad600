import ItWorksOS.Process.LoadFidelity

/-!
# Failing loads

`process_load` undoes the segment that it fails at, but not the segments before it, and
`process_prepare` releases no frame of the user stack. A failing call changes nothing only if it
fails before something has been mapped.
-/

namespace ItWorksOS

variable {Heap : Type*} {ops : HeapOps Heap} {kernel kernel' : Kernel Heap}
  {kernelDir image size first pages : ℕ} {dirs : List ℕ} {vm vm' : VmSpace} {claimed : Set ℕ}
  {seg : Iwbf32SegmentHdr} {state state' : LoadState Heap} {proc proc' : Process} {error : KError}

/-- The areas, the translations of the user half and the allocated frames that are no page tables
are as they were. -/
structure LoadUnchanged (kernelDir : ℕ) (dirs : List ℕ) (vm vm' : VmSpace)
    (kernel kernel' : Kernel Heap) : Prop where
  memory : VmUnchanged vm vm' kernel kernel'
  frames : ∀ frame, Residue kernelDir dirs kernel'.machine frame ↔
    Residue kernelDir dirs kernel.machine frame

/-- A segment that is not placed leaves nothing behind: it does not fit, it receives no frames, or
`vm_map` has nothing to undo but its area. -/
def SegmentUndone (ops : HeapOps Heap) (kernel : Kernel Heap) (vm : VmSpace) (size : ℕ)
    (seg : Iwbf32SegmentHdr) : Prop :=
  SegmentFits size seg → ∀ phys pmm,
    pmmAllocLowmem kernel.machine.pmm (seg.memSize.toNat / archVmPageSize) = (.ok phys, pmm) →
      VmMapUndone ops (kernel.setPmm pmm) vm seg.vaddr.toNat phys seg.memSize.toNat

/-- The first segment is not placed and leaves nothing behind, or there is none. -/
def LoadUndone (ops : HeapOps Heap) (proc : Process) (image size : ℕ)
    (kernel : Kernel Heap) : Prop :=
  size ≠ 0 → proc.state = .created → ∀ hdr seg,
    iwbfParseHdr kernel.machine.mem image size default = (.ok (), hdr) →
    iwbfParseSegmentHdr kernel.machine.mem (image + iwbfSegOff 0) (Word32.sub size (iwbfSegOff 0))
      default = (.ok (), seg) →
    SegmentUndone ops kernel proc.vm size seg

/-- The user stack receives no frames. -/
def PrepareUndone (proc : Process) (kernel : Kernel Heap) : Prop :=
  proc.state = .created → ∀ phys pmm,
    pmmAllocLowmem kernel.machine.pmm (userStackSize / archVmPageSize) ≠ (.ok phys, pmm)

theorem LoadUnchanged.refl (kernelDir : ℕ) (dirs : List ℕ) (vm : VmSpace) (kernel : Kernel Heap) :
    LoadUnchanged kernelDir dirs vm vm kernel kernel :=
  ⟨⟨rfl, fun _ _ => rfl⟩, fun _ => Iff.rfl⟩

/-- Claimed frames are a change. -/
theorem LoadEffect.not_unchanged
    (effect : LoadEffect kernelDir dirs claimed vm vm' kernel kernel') (some : claimed.Nonempty) :
    ¬ LoadUnchanged kernelDir dirs vm vm' kernel kernel' := by
  intro unchanged
  obtain ⟨frame, member⟩ := some
  exact effect.fresh frame member
    ((unchanged.frames frame).mp ((effect.residue frame).mpr (.inl member)))

/-- `vm_map` fails if it has nothing to undo. -/
theorem vmMap_ne_ok {virt phys flags : ℕ} (inv : KernelTables kernelDir dirs kernel)
    (member : vm.dir ∈ dirs) (arch_eq : vm.arch = ⟨vm.dir * 4096⟩)
    (undone : VmMapUndone ops kernel vm virt phys size) :
    vmMap (x86Env ops) vm virt phys size flags kernel ≠ (.ok (), vm', kernel') := by
  intro call
  obtain ⟨args, before, after, ptr, middle, position, allocated, pointer, mapped, _⟩ :=
    vmMap_eq_ok call
  obtain ⟨ptr_eq, rfl⟩ := Prod.mk.inj allocated
  obtain ⟨passed, _⟩ := Prod.mk.inj mapped
  have size_pos := (vmUserRangeValid_iff.mp args.user).1
  have range : PageRange virt size :=
    ⟨args.virt_mod, args.size_mod, size_pos, userRange_fits args.user⟩
  have reaches : VmMapReaches ops kernel vm virt phys size :=
    ⟨args, by rw [position]; nofun, by rw [ptr_eq]; exact pointer⟩
  have not_free := (undone reaches).2.2
  obtain ⟨_, stopped⟩ := archVmMap_of_not_free inv.tables inv.ready (.inl member) range
    args.phys_mod flags not_free
  rw [← arch_eq] at stopped
  exact absurd (passed.symm.trans (congrArg Prod.fst stopped)) nofun

/-- A segment that cannot be placed changes nothing exactly if it leaves nothing behind. -/
theorem placeSegment_unchanged_iff (state : LoadState Heap)
    (inv : KernelTables kernelDir dirs state.kernel) (member : state.vm.dir ∈ dirs)
    (arch_eq : state.vm.arch = ⟨state.vm.dir * 4096⟩)
    (placed : placeSegment ops image size seg state = (.error error, state')) :
    LoadUnchanged kernelDir dirs state.vm state'.vm state.kernel state'.kernel ↔
      SegmentUndone ops state.kernel state.vm size seg := by
  rcases placeSegment_cases ops image size seg state with
    ⟨_, rejected, unallocated⟩ | ⟨fits, first, pages, frames, allocated, mapping⟩
  · rw [rejected] at placed
    cases placed
    exact iff_of_true (.refl ..) fun fits phys pmm passed =>
      absurd passed (unallocated fits phys pmm)
  rw [mapping, ← LoadState.claim] at placed
  have tables := (LoadEffect.claim inv state.vm frames.fits frames.free).tables
  obtain ⟨⟨status, vm, kernel⟩, call⟩ : ∃ result, vmMap (x86Env ops) state.vm seg.vaddr.toNat
      (first * 4096) seg.memSize.toNat (segmentVmFlags seg.flags)
      (state.claim first pages).kernel = result := ⟨_, rfl⟩
  cases status with
  | error error' =>
      obtain ⟨result, effect⟩ := mapSegment_of_error inv member arch_eq image frames call
      rw [result] at placed
      cases placed
      have undone := vmMap_unchanged_iff tables member arch_eq call
      have same_memory : VmUnchanged state.vm vm state.kernel
            (kernel.setPmm (pmmUnmark kernel.machine.pmm first pages)) ↔
          VmUnchanged state.vm vm (state.claim first pages).kernel kernel :=
        ⟨fun unchanged => ⟨unchanged.vmas, unchanged.translations⟩,
          fun unchanged => ⟨unchanged.vmas, unchanged.translations⟩⟩
      constructor
      · intro unchanged _ phys pmm passed
        cases passed.symm.trans allocated
        exact undone.mp (same_memory.mp unchanged.memory)
      · intro segment_undone
        refine ⟨same_memory.mpr (undone.mpr (segment_undone fits _ _ allocated)), fun frame => ?_⟩
        rw [effect.residue, Set.mem_empty_iff_false, false_or]
  | ok =>
      obtain ⟨_, _, _, result, _⟩ := mapSegment_of_ok inv member arch_eq image frames fits.mem call
      rw [result] at placed
      cases placed

/-- A segment that is placed would leave something behind. -/
theorem placeSegment_not_undone (state : LoadState Heap)
    (inv : KernelTables kernelDir dirs state.kernel) (member : state.vm.dir ∈ dirs)
    (arch_eq : state.vm.arch = ⟨state.vm.dir * 4096⟩)
    (placed : placeSegment ops image size seg state = (.ok (), state')) :
    ¬ SegmentUndone ops state.kernel state.vm size seg := by
  rcases placeSegment_cases ops image size seg state with
    ⟨_, rejected, _⟩ | ⟨fits, first, pages, frames, allocated, mapping⟩
  · rw [rejected] at placed
    cases placed
  rw [mapping, ← LoadState.claim] at placed
  have tables := (LoadEffect.claim inv state.vm frames.fits frames.free).tables
  intro undone
  obtain ⟨⟨status, vm, kernel⟩, call⟩ : ∃ result, vmMap (x86Env ops) state.vm seg.vaddr.toNat
      (first * 4096) seg.memSize.toNat (segmentVmFlags seg.flags)
      (state.claim first pages).kernel = result := ⟨_, rfl⟩
  cases status with
  | error error =>
      rw [(mapSegment_of_error inv member arch_eq image frames call).1] at placed
      cases placed
  | ok => exact vmMap_ne_ok tables member arch_eq (undone fits _ _ allocated) call

/-- A failing `process_load` changes nothing exactly if it fails before a segment is in place, and
leaves nothing of the first one behind. -/
theorem processLoad_unchanged_iff (inv : KernelTables kernelDir dirs kernel)
    (member : proc.vm.dir ∈ dirs) (arch_eq : proc.vm.arch = ⟨proc.vm.dir * 4096⟩)
    (loaded : processLoad ops proc image size kernel = (.error error, proc', state)) :
    LoadUnchanged kernelDir dirs proc.vm proc'.vm kernel state.kernel ↔
      LoadUndone ops proc image size kernel := by
  rcases processLoad_cases ops proc image size kernel with
    ⟨_, accesses, rejects, refused⟩ |
    ⟨some, created, hdr, accesses, last, parsed, ⟨_, ran, failed⟩ | ⟨_, passed⟩⟩
  · rw [refused] at loaded
    cases loaded
    exact iff_of_true (.refl ..)
      fun some created hdr _ parsed => absurd parsed (rejects some created hdr)
  · rw [failed] at loaded
    cases loaded
    have undone_iff : LoadUndone ops proc image size kernel ↔ ∀ seg,
        iwbfParseSegmentHdr kernel.machine.mem (image + iwbfSegOff 0)
          (Word32.sub size (iwbfSegOff 0)) default = (.ok (), seg) →
        SegmentUndone ops kernel proc.vm size seg :=
      ⟨fun undone seg descriptor => undone some created hdr seg parsed descriptor,
        fun undone _ _ _ seg _ descriptor => undone seg descriptor⟩
    rw [undone_iff]
    obtain ⟨count, count_eq⟩ : ∃ count, hdr.segmentCount.toNat = count := ⟨_, rfl⟩
    rw [count_eq] at ran
    cases count with
    | zero => cases ran
    | succ count =>
        obtain ⟨⟨status, middle⟩, placed⟩ : ∃ result, processLoadSegment ops image size 0
            ⟨proc.vm, kernel, accesses⟩ = result := ⟨_, rfl⟩
        rw [processLoadSegments, placed] at ran
        obtain ⟨accesses', ⟨_, _, descriptor, refused⟩ | ⟨seg, descriptor, placing⟩⟩ :=
          processLoadSegment_cases ops image size 0 ⟨proc.vm, kernel, accesses⟩
        · rw [refused] at placed
          cases placed
          cases ran
          exact iff_of_true (.refl ..) fun seg descriptor' => by
            cases descriptor.symm.trans descriptor'
        rw [placing] at placed
        have undone_seg : (∀ seg', iwbfParseSegmentHdr kernel.machine.mem (image + iwbfSegOff 0)
              (Word32.sub size (iwbfSegOff 0)) default = (.ok (), seg') →
            SegmentUndone ops kernel proc.vm size seg') ↔
              SegmentUndone ops kernel proc.vm size seg := by
          refine ⟨fun undone => undone seg descriptor, fun undone seg' descriptor' => ?_⟩
          cases descriptor.symm.trans descriptor'
          exact undone
        rw [undone_seg]
        cases status with
        | error error' =>
            cases ran
            exact placeSegment_unchanged_iff ⟨proc.vm, kernel, accesses'⟩ inv member arch_eq placed
        | ok =>
            rcases placeSegment_effect ⟨proc.vm, kernel, accesses'⟩ inv member arch_eq image
                size seg
                placed with ⟨failed, _⟩ | ⟨_, first, pages, pages_pos, effect⟩
            · exact absurd rfl failed
            obtain ⟨claimed, rest⟩ := processLoadSegments_effect count effect.tables
              (effect.dir_eq.symm ▸ member) (by rw [effect.arch, effect.dir_eq]; exact arch_eq) ran
            refine iff_of_false ((effect.trans rest).not_unchanged ⟨first, .inl ⟨le_rfl, ?_⟩⟩)
              (placeSegment_not_undone ⟨proc.vm, kernel, accesses'⟩ inv member arch_eq placed)
            omega
  · rw [passed] at loaded
    cases loaded

/-- A failing `process_prepare` changes nothing exactly if the user stack receives no frames. -/
theorem processPrepare_unchanged_iff (inv : KernelTables kernelDir dirs kernel)
    (member : proc.vm.dir ∈ dirs) (arch_eq : proc.vm.arch = ⟨proc.vm.dir * 4096⟩)
    (prepared : processPrepare ops proc kernel = (.error error, proc', kernel')) :
    LoadUnchanged kernelDir dirs proc.vm proc'.vm kernel kernel' ↔ PrepareUndone proc kernel := by
  rw [processPrepare] at prepared
  split_ifs at prepared with created
  · cases prepared
    exact iff_of_true (.refl ..) fun same => absurd same created
  have created := not_not.mp created
  rcases pmmAllocLowmem_cases kernel.machine.pmm
      (by decide : 0 < userStackSize / archVmPageSize) with
    ⟨failed, _⟩ | ⟨first, allocated, _, fits, free⟩
  · rw [failed] at prepared
    cases prepared
    refine iff_of_true (.refl ..) fun _ phys pmm passed => ?_
    rw [failed] at passed
    cases passed
  · refine iff_of_false ?_ fun undone => undone created _ _ allocated
    rw [allocated] at prepared
    have claimed := LoadEffect.claim inv proc.vm fits free
    obtain ⟨⟨status, vm, kernel''⟩, call⟩ : ∃ result, vmMap (x86Env ops) proc.vm
        (userStackTop - userStackSize) (first * 4096) userStackSize
        (vmUser ||| vmRead ||| vmWrite ||| vmGrowsdown)
        (kernel.setPmm (pmmMark kernel.machine.pmm first (userStackSize / archVmPageSize))) =
          result := ⟨_, rfl⟩
    simp only [call] at prepared
    cases status with
    | ok => cases prepared
    | error error =>
        cases prepared
        have mapped := vmMap_effect claimed.tables member arch_eq (fun _ => by decide) call
        exact (claimed.trans mapped).not_unchanged ⟨first, .inl ⟨le_rfl, Nat.lt_add_of_pos_right
          (by decide)⟩⟩

/-- In every reachable state, a failing `process_load` changes the areas, the user translations or
the allocated user frames of the process exactly if a segment has been placed or the first one
leaves something behind, and a failing `process_prepare` exactly if the user stack has received
frames. -/
theorem load_unchanged_of_run {boot booted : Kernel Heap} {sections : KernelSections}
    {system : VmSystem Heap} (total_lt : boot.machine.pmm.totalFrames < 2 ^ 32)
    (init : vmKernInit sections boot = (.ok (), booted))
    (run : Relation.ReflTransGen (VmStep ops) ⟨booted, [], ∅⟩ system) :
    ∀ proc : Process, proc.vm ∈ system.spaces → ∀ error proc',
      (∀ image size state,
        processLoad ops proc image size system.kernel = (.error error, proc', state) →
        (LoadUnchanged (system.kernel.kernelVm.pdPhys / 4096) system.dirs proc.vm proc'.vm
            system.kernel state.kernel ↔ LoadUndone ops proc image size system.kernel)) ∧
      ∀ kernel', processPrepare ops proc system.kernel = (.error error, proc', kernel') →
        (LoadUnchanged (system.kernel.kernelVm.pdPhys / 4096) system.dirs proc.vm proc'.vm
            system.kernel kernel' ↔ PrepareUndone proc system.kernel) := by
  intro proc space_mem error proc'
  obtain ⟨kernelDir, start⟩ := vmKernInit_inv total_lt init
  have inv := start.steps run
  have member := VmSystem.dir_mem space_mem
  have arch_eq := inv.arch_eq _ space_mem
  have dir_eq : system.kernel.kernelVm.pdPhys / 4096 = kernelDir := by
    rw [inv.tables.kernelVm_eq]
    exact Nat.mul_div_cancel _ (by decide)
  rw [dir_eq]
  exact ⟨fun _ _ _ loaded => processLoad_unchanged_iff inv.tables member arch_eq loaded,
    fun _ prepared => processPrepare_unchanged_iff inv.tables member arch_eq prepared⟩

/-- The first segment of the image takes the last frame, so that no table is left for its page; the
frame is released, and nothing has changed. -/
theorem load_unchanged_of_run_full :
    ∃ kernel vm kernel' phys pmm error proc' state,
      vmKernInit smallSections (limitedKernel (imageMemory 1) 515) = (.ok (), kernel) ∧
      vmSpaceInit (x86Env bumpHeap) kernel = (.ok vm, kernel') ∧
      SegmentFits 38 systemSegmentHdr ∧
      pmmAllocLowmem kernel'.machine.pmm 1 = (.ok phys, pmm) ∧
      processLoad bumpHeap ⟨.created, vm, ⟨0, 0, 0⟩, 0⟩ 0x70000 38 kernel' =
        (.error error, proc', state) ∧
      LoadUnchanged (kernel'.kernelVm.pdPhys / 4096) [vm.dir] vm proc'.vm kernel' state.kernel := by
  have left : (limitedKernel (imageMemory 1) 515).machine.pmm.lowSet.card = 259 := by
    decide +kernel
  obtain ⟨kernelDir, frame, kernel, kernel', space⟩ := exists_freshSpace bumpHeap
    (by decide : (limitedKernel (imageMemory 1) 515).machine.pmm.totalFrames < 2 ^ 32)
    (by omega) smallSections_text smallSections_rodata
  have step : VmStep bumpHeap ⟨kernel, [], ∅⟩ _ := .spaceInit space.created
  have bytes := imageMemory_kept fun _ marked => space.bytes _ marked
  have dir_eq := vmSpace_dir_eq [] frame
  have parsed : iwbfParseHdr kernel'.machine.mem 0x70000 38 default = (.ok (), systemHdr) :=
    (systemImage_hdr bytes).trans rfl
  have described : iwbfParseSegmentHdr kernel'.machine.mem (0x70000 + iwbfSegOff 0)
      (Word32.sub 38 (iwbfSegOff 0)) default = (.ok (), systemSegmentHdr) :=
    systemImage_segment bytes
  have last : kernel'.machine.pmm.lowSet.card = 1 := by
    have lowmem := space.lowmem
    omega
  obtain ⟨only, only_eq⟩ := Finset.card_eq_one.mp last
  obtain ⟨frame', member, allocated⟩ :=
    pmmAllocLowmem_frame (only_eq ▸ Finset.singleton_nonempty only)
  have exhausted : (pmmMark kernel'.machine.pmm frame' 1).lowSet = ∅ := by
    rw [only_eq, Finset.mem_singleton] at member
    rw [lowSet_pmmMark_erase, only_eq, member, Finset.erase_singleton]
  have undone : LoadUndone bumpHeap ⟨.created, ⟨[], ⟨frame * 4096⟩⟩, ⟨0, 0, 0⟩, 0⟩ 0x70000 38
      kernel' := by
    intro _ _ hdr seg _ descriptor
    cases described.symm.trans descriptor
    intro _ phys' pmm' allocated' _
    cases allocated.symm.trans allocated'
    refine ⟨by decide, nofun, ?_⟩
    rw [dir_eq]
    exact space.not_pageFree (by decide) exhausted
  obtain ⟨⟨status, proc', state⟩, loaded⟩ : ∃ result, processLoad bumpHeap
      ⟨.created, ⟨[], ⟨frame * 4096⟩⟩, ⟨0, 0, 0⟩, 0⟩ 0x70000 38 kernel' = result := ⟨_, rfl⟩
  cases status with
  | error error =>
      obtain ⟨load_iff, _⟩ := load_unchanged_of_run (by decide) space.booted (.single step)
        ⟨.created, ⟨[], ⟨frame * 4096⟩⟩, ⟨0, 0, 0⟩, 0⟩ (List.mem_singleton_self _) error proc'
      exact ⟨kernel, _, kernel', _, _, error, proc', state, space.booted, space.created,
        ⟨by decide, by decide⟩, allocated, loaded, (load_iff 0x70000 38 state loaded).mpr undone⟩
  | ok =>
      exfalso
      rcases processLoad_cases bumpHeap ⟨.created, ⟨[], ⟨frame * 4096⟩⟩, ⟨0, 0, 0⟩, 0⟩ 0x70000 38
          kernel' with
        ⟨_, _, rejects, _⟩ | ⟨_, _, hdr, accesses, final, parsed', ⟨_, _, failed⟩ | ⟨ran, _⟩⟩
      · exact rejects (by decide) rfl _ parsed
      · cases loaded.symm.trans failed
      cases parsed.symm.trans parsed'
      rw [show systemHdr.segmentCount.toNat = 1 from rfl, processLoadSegments] at ran
      obtain ⟨middle, placed, _⟩ := kerrTry_eq_ok ran
      obtain ⟨accesses', ⟨_, _, _, refused⟩ | ⟨seg, descriptor, placing⟩⟩ :=
        processLoadSegment_cases bumpHeap 0x70000 38 0 ⟨⟨[], ⟨frame * 4096⟩⟩, kernel', accesses⟩
      · cases refused.symm.trans placed
      · rw [placing] at placed
        exact placeSegment_not_undone ⟨⟨[], ⟨frame * 4096⟩⟩, kernel', accesses'⟩ space.tables
          (by rw [dir_eq]; exact List.mem_singleton_self _) (by rw [dir_eq]) placed
          (undone (by decide) rfl _ seg parsed descriptor)

/-- An image that ends inside its second descriptor leaves its first segment loaded. -/
theorem processLoad_leaves_segment :
    ∃ kernel vm kernel' proc' state, vmKernInit smallSections (imageKernel 2) = (.ok (), kernel) ∧
      vmSpaceInit (x86Env bumpHeap) kernel = (.ok vm, kernel') ∧
      processLoad bumpHeap ⟨.created, vm, ⟨0, 0, 0⟩, 0⟩ 0x70000 38 kernel' =
        (.error .inval, proc', state) ∧
      ¬ LoadUnchanged (kernel'.kernelVm.pdPhys / 4096) [vm.dir] vm proc'.vm kernel'
        state.kernel := by
  obtain ⟨kernelDir, kernel, frame, kernel', booted, created, tables, bytes, first⟩ :=
    imageKernel_first 2
  have dir_eq := vmSpace_dir_eq [] frame
  have member : VmSpace.dir ⟨[], ⟨frame * 4096⟩⟩ ∈ [frame] := by
    rw [dir_eq]
    exact List.mem_singleton_self _
  have arch_eq : (⟨frame * 4096⟩ : ArchVmSpace) = ⟨VmSpace.dir ⟨[], ⟨frame * 4096⟩⟩ * 4096⟩ := by
    rw [dir_eq]
  have parsed : iwbfParseHdr kernel'.machine.mem 0x70000 38 default =
      (.ok (), { systemHdr with segmentCount := 2 }) := (systemImage_hdr bytes).trans rfl
  have loaded : ∃ state, processLoad bumpHeap ⟨.created, ⟨[], ⟨frame * 4096⟩⟩, ⟨0, 0, 0⟩, 0⟩ 0x70000
      38 kernel' = (.error .inval, ⟨.created, state.vm, ⟨0, 0, 0⟩, 0⟩, state) := by
    rcases processLoad_cases bumpHeap ⟨.created, ⟨[], ⟨frame * 4096⟩⟩, ⟨0, 0, 0⟩, 0⟩ 0x70000 38
        kernel' with ⟨_, _, rejects, _⟩ | ⟨_, _, hdr, accesses, last, parsed', outcome⟩
    · exact absurd parsed (rejects (by decide) rfl _)
    cases parsed.symm.trans parsed'
    obtain ⟨middle, ran⟩ := first accesses
    -- The second descriptor would start at offset 36, so that only two of its bytes are there.
    have truncated : iwbfParseSegmentHdr middle.kernel.machine.mem (0x70000 + iwbfSegOff 1)
        (Word32.sub 38 (iwbfSegOff 1)) default = (.error .inval, default) := by
      rw [iwbfParseSegmentHdr, if_pos (by decide)]
    obtain ⟨accesses', ⟨_, _, descriptor, refused⟩ | ⟨_, descriptor, _⟩⟩ :=
      processLoadSegment_cases bumpHeap 0x70000 38 1 middle
    · cases truncated.symm.trans descriptor
      have stopped : processLoadSegments bumpHeap 0x70000 38 2 0
          ⟨⟨[], ⟨frame * 4096⟩⟩, kernel', accesses⟩ =
            (.error .inval, { middle with accesses := accesses' }) := by
        rw [processLoadSegments, ran, kerrTry, processLoadSegments, refused, kerrTry]
      rcases outcome with ⟨error, failed, result⟩ | ⟨passed, _⟩
      · cases stopped.symm.trans failed
        exact ⟨_, result⟩
      · cases stopped.symm.trans passed
    · cases truncated.symm.trans descriptor
  obtain ⟨state, loaded⟩ := loaded
  refine ⟨kernel, _, kernel', _, state, booted, created, loaded, ?_⟩
  have pd_eq : kernel'.kernelVm.pdPhys / 4096 = kernelDir := by
    rw [tables.kernelVm_eq]
    exact Nat.mul_div_cancel _ (by decide)
  rw [pd_eq, dir_eq, processLoad_unchanged_iff tables member arch_eq loaded]
  intro undone
  obtain ⟨middle, ran⟩ := first []
  obtain ⟨accesses', ⟨_, _, _, refused⟩ | ⟨seg, descriptor, placing⟩⟩ :=
    processLoadSegment_cases bumpHeap 0x70000 38 0 ⟨⟨[], ⟨frame * 4096⟩⟩, kernel', []⟩
  · rw [refused] at ran
    cases ran
  · rw [placing] at ran
    exact placeSegment_not_undone ⟨⟨[], ⟨frame * 4096⟩⟩, kernel', accesses'⟩ tables member
      arch_eq ran
      (undone (by decide) rfl _ seg parsed descriptor)

end ItWorksOS
