import ItWorksOS.Mm.VmMapFailure
import ItWorksOS.Process.Process

/-!
# Effects of the loader

Whatever an image holds, loading it adds areas of the user half to one address space, claims frames
that were free, and leaves everything else: the kernel half, the other address spaces, the pages
that were mapped before and the bytes of the frames that were allocated before.
-/

namespace ItWorksOS

variable {Heap : Type*} {ops : HeapOps Heap} {kernel kernel' kernel'' : Kernel Heap}
  {kernelDir virt phys size flags first pages : ℕ} {dirs : List ℕ} {vm vm' vm'' : VmSpace}
  {claimed claimed' : Set ℕ}

/-- The area lies in the user half and is not empty. -/
def Vma.InUser (vma : Vma) : Prop := vma.start < vma.stop ∧ vma.stop ≤ vmUserEnd

/-- Loading into an address space claims a set of frames and maps pages of the user half that were
not mapped. -/
structure LoadEffect (kernelDir : ℕ) (dirs : List ℕ) (claimed : Set ℕ) (vm vm' : VmSpace)
    (kernel kernel' : Kernel Heap) : Prop where
  arch : vm'.arch = vm.arch
  areas : ∀ vma ∈ vm'.vmas, vma ∈ vm.vmas ∨ vma.InUser
  tables : KernelTables kernelDir dirs kernel'
  total : kernel'.machine.pmm.totalFrames = kernel.machine.pmm.totalFrames
  residue : ∀ frame, Residue kernelDir dirs kernel'.machine frame ↔
    frame ∈ claimed ∨ Residue kernelDir dirs kernel.machine frame
  fresh : ∀ frame ∈ claimed, ¬ Residue kernelDir dirs kernel.machine frame
  below : ∀ frame ∈ claimed, frame < kernel.machine.pmm.totalFrames
  bytes : ∀ frame, Residue kernelDir dirs kernel.machine frame →
    ByteMemory.AgreeOn kernel.machine.mem kernel'.machine.mem frame
  views : ∀ dir ∈ kernelDir :: dirs, ∀ va < 2 ^ 32, kernelVirtOffset ≤ va ∨ dir ≠ vm.dir →
    pteWord kernel'.machine dir va = pteWord kernel.machine dir va
  mapped : ∀ dir ∈ kernelDir :: dirs, ∀ va < 2 ^ 32,
    EntryPresent (pteWord kernel.machine dir va) →
      pteWord kernel'.machine dir va = pteWord kernel.machine dir va

/-- The frames of a run. -/
def frameRun (first pages : ℕ) : Set ℕ := {frame | first ≤ frame ∧ frame < first + pages}

namespace LoadEffect

theorem refl (inv : KernelTables kernelDir dirs kernel) (vm : VmSpace) :
    LoadEffect kernelDir dirs ∅ vm vm kernel kernel :=
  ⟨rfl, fun _ member => .inl member, inv, rfl, by simp, by simp, by simp, fun _ _ _ _ => rfl,
    fun _ _ _ _ _ => rfl, fun _ _ _ _ _ => rfl⟩

/-- The heap is not part of an effect. -/
theorem with_heap (effect : LoadEffect kernelDir dirs claimed vm vm' kernel kernel') (heap : Heap) :
    LoadEffect kernelDir dirs claimed vm vm' kernel { kernel' with heap := heap } :=
  ⟨effect.arch, effect.areas, effect.tables.with_heap heap, effect.total, effect.residue,
    effect.fresh, effect.below, effect.bytes, effect.views, effect.mapped⟩

theorem dir_eq (effect : LoadEffect kernelDir dirs claimed vm vm' kernel kernel') :
    vm'.dir = vm.dir := by rw [VmSpace.dir, effect.arch, VmSpace.dir]

theorem trans (before : LoadEffect kernelDir dirs claimed vm vm' kernel kernel')
    (after : LoadEffect kernelDir dirs claimed' vm' vm'' kernel' kernel'') :
    LoadEffect kernelDir dirs (claimed ∪ claimed') vm vm'' kernel kernel'' := by
  refine ⟨after.arch.trans before.arch, ?_, after.tables, after.total.trans before.total,
    ?_, ?_, ?_,
    ?_, ?_, ?_⟩
  · intro vma member
    rcases after.areas vma member with member | user
    · exact before.areas vma member
    · exact .inr user
  · intro frame
    rw [after.residue, before.residue, Set.mem_union]
    tauto
  · rintro frame (member | member)
    · exact before.fresh frame member
    · exact fun old => after.fresh frame member ((before.residue frame).mpr (.inr old))
  · rintro frame (member | member)
    · exact before.below frame member
    · rw [← before.total]
      exact after.below frame member
  · intro frame old
    exact (before.bytes frame old).trans (after.bytes frame ((before.residue frame).mpr (.inr old)))
  · intro dir member va va_lt outside
    rw [after.views dir member va va_lt (by rwa [before.dir_eq]),
      before.views dir member va va_lt outside]
  · intro dir member va va_lt present
    have kept := before.mapped dir member va va_lt present
    have later := after.mapped dir member va va_lt
    rw [kept] at later
    exact later present

/-- Claiming a free run of frames. -/
theorem claim (inv : KernelTables kernelDir dirs kernel) (vm : VmSpace)
    (fits : first + pages ≤ kernel.machine.pmm.totalFrames)
    (free : kernel.machine.pmm.FreeRun first pages) :
    LoadEffect kernelDir dirs (frameRun first pages) vm vm kernel
      (kernel.setPmm (pmmMark kernel.machine.pmm first pages)) := by
  refine ⟨rfl, fun _ member => .inl member, inv.setPmm rfl fun slot owned => ?_, rfl,
    residue_pmmMark inv.tables free, ?_, ?_, fun _ _ _ _ => rfl, fun _ _ _ _ _ => rfl,
    fun _ _ _ _ _ => rfl⟩
  · rw [marked_pmmMark]
    exact .inr (inv.tables.placed slot owned).2.2
  · exact fun frame inside old => free frame inside.1 inside.2 old.1
  · exact fun frame inside => inside.2.trans_le fits

/-- Writing to claimed frames changes no page table. -/
theorem store_tables (effect : LoadEffect kernelDir dirs claimed vm vm' kernel kernel')
    {mem : ByteMemory}
    (outside : ∀ frame, frame ∉ claimed → ByteMemory.AgreeOn kernel'.machine.mem mem frame) :
    KernelTables kernelDir dirs (kernel'.setMem mem) ∧
      (∀ frame, Residue kernelDir dirs (kernel'.setMem mem).machine frame ↔
        Residue kernelDir dirs kernel'.machine frame) ∧
      ∀ dir ∈ kernelDir :: dirs, ∀ va < 2 ^ 32,
        pteWord (kernel'.setMem mem).machine dir va = pteWord kernel'.machine dir va := by
  have tables := effect.tables.tables
  have spared (slot : TableSlot) (owned : Owned kernelDir dirs kernel'.machine slot) :
      ByteMemory.AgreeOn kernel'.machine.mem (kernel'.setMem mem).machine.mem
        (slot.frame kernel'.machine) :=
    outside _ fun member => ((effect.residue _).mpr (.inl member)).2 slot owned rfl
  have words (dir : ℕ) (member : dir ∈ kernelDir :: dirs) (index : ℕ) (index_lt : index < 1024) :
      mem.word dir index = kernel'.machine.mem.word dir index :=
    (spared (.directory dir) member).word_eq index_lt
  obtain ⟨stored, ready, view⟩ := tables.of_agree spared rfl
    fun slot owned => (tables.placed slot owned).2.2
  exact ⟨⟨stored, ready effect.tables.ready, effect.tables.kernelVm_eq⟩,
    fun frame => PageTables.residue_congr words frame Iff.rfl, view⟩

/-- Writing to claimed frames. -/
theorem store (effect : LoadEffect kernelDir dirs claimed vm vm' kernel kernel') {mem : ByteMemory}
    (outside : ∀ frame, frame ∉ claimed → ByteMemory.AgreeOn kernel'.machine.mem mem frame) :
    LoadEffect kernelDir dirs claimed vm vm' kernel (kernel'.setMem mem) := by
  obtain ⟨tables, residue, view⟩ := effect.store_tables outside
  refine ⟨effect.arch, effect.areas, tables, effect.total, ?_, effect.fresh, effect.below, ?_, ?_,
    ?_⟩
  · exact fun frame => (residue frame).trans (effect.residue frame)
  · intro frame old
    exact (effect.bytes frame old).trans (outside frame fun member => effect.fresh frame member old)
  · intro dir member va va_lt other
    exact (view dir member va va_lt).trans (effect.views dir member va va_lt other)
  · intro dir member va va_lt present
    exact (view dir member va va_lt).trans (effect.mapped dir member va va_lt present)

/-- Releasing the claimed frames. -/
theorem release
    (effect : LoadEffect kernelDir dirs (frameRun first pages) vm vm' kernel kernel') :
    LoadEffect kernelDir dirs ∅ vm vm' kernel
      (kernel'.setPmm (pmmUnmark kernel'.machine.pmm first pages)) := by
  have owned_outside (slot : TableSlot) (owned : Owned kernelDir dirs kernel'.machine slot) :
      slot.frame kernel'.machine ∉ frameRun first pages :=
    fun inside => ((effect.residue _).mpr (.inl inside)).2 slot owned rfl
  refine ⟨effect.arch, effect.areas,
    effect.tables.setPmm rfl fun slot owned => ?_, effect.total, ?_,
    by simp, by simp, effect.bytes, effect.views, effect.mapped⟩
  · rw [marked_pmmUnmark]
    exact ⟨owned_outside slot owned, (effect.tables.tables.placed slot owned).2.2⟩
  · intro frame
    refine (residue_pmmUnmark kernelDir dirs kernel'.machine first pages frame).trans ?_
    rw [effect.residue, Set.mem_empty_iff_false, false_or]
    constructor
    · rintro ⟨outside, inside | old⟩
      · exact absurd inside outside
      · exact old
    · exact fun old => ⟨fun inside => effect.fresh frame inside old, .inr old⟩

end LoadEffect

/-! ## One segment -/

section Segment

/-- `arch_vm_map` maps pages that were not mapped. -/
theorem archVmMap_effect (inv : KernelTables kernelDir dirs kernel) (member : vm.dir ∈ dirs)
    (arch_eq : vm.arch = ⟨vm.dir * 4096⟩) (range : PageRange virt size)
    (inside : virt + size ≤ vmUserEnd) (phys_mod : phys % 4096 = 0) (flags : ℕ) {vmas : List Vma}
    (areas : ∀ vma ∈ vmas, vma ∈ vm.vmas ∨ vma.InUser) (heap : Heap) :
    LoadEffect kernelDir dirs ∅ vm { vm with vmas := vmas } kernel
      { kernel with
        machine := (archVmMap kernel.machine vm.arch virt phys size flags).2, heap := heap } := by
  obtain ⟨done, machine, rewritten, absent, _, outcome⟩ := archVmMap_cases inv.tables inv.ready
    (.inl member : Mappable kernelDir dirs vm.dir virt) range phys_mod flags
  have done_le : 4096 * done ≤ size := by
    rcases outcome with ⟨_, done_eq⟩ | ⟨_, _, done_lt, _⟩ <;> omega
  have machine_eq : (archVmMap kernel.machine vm.arch virt phys size flags).2 = machine := by
    rw [arch_eq]
    rcases outcome with ⟨passed, _⟩ | ⟨_, failed, _⟩
    · rw [passed]
    · rw [failed]
  have virt_mod := range.virt_mod
  have size_mod := range.size_mod
  unfold vmUserEnd at inside
  rw [machine_eq]
  refine ⟨rfl, areas, ⟨rewritten.tables, rewritten.ready, inv.kernelVm_eq⟩, rewritten.total, ?_,
    by simp, by simp, rewritten.bytes, ?_, ?_⟩
  · intro frame
    rw [Set.mem_empty_iff_false, false_or]
    exact rewritten.residue frame
  · intro dir dir_mem va va_lt outside
    refine rewritten.kept dir dir_mem va va_lt fun selected => ?_
    obtain ⟨⟨_, upper⟩, same⟩ := mem_rangeOf.mp selected
    unfold kernelVirtOffset at same outside
    omega
  · intro dir dir_mem va va_lt present
    refine rewritten.kept dir dir_mem va va_lt fun selected => ?_
    obtain ⟨⟨lower, upper⟩, same⟩ := mem_rangeOf.mp selected
    have dir_eq : dir = vm.dir := by
      refine same.resolve_right fun kernel_le => ?_
      unfold kernelVirtOffset at kernel_le
      omega
    refine absent ((va - virt) / 4096) (by omega) ?_
    rwa [pteWord_of_same_page _ _ (by omega : (virt + 4096 * ((va - virt) / 4096)) / 4096 =
      va / 4096), ← dir_eq]

/-- `vm_remove_vma` adds no area. -/
theorem vmRemoveVma_subset {State : Type*} {env : VmEnv State} {state state' : State}
    {status : Status} (removed : vmRemoveVma env vm virt state = (status, vm', state')) :
    vm'.vmas ⊆ vm.vmas := by
  rw [vmRemoveVma] at removed
  split at removed
  · cases removed
    exact List.Subset.refl _
  · cases removed
    exact List.erase_subset

/-- `vm_map` has an effect of this kind unless the range ends at `2 ^ 32`. -/
theorem vmMap_effect {status : Status} (inv : KernelTables kernelDir dirs kernel)
    (member : vm.dir ∈ dirs) (arch_eq : vm.arch = ⟨vm.dir * 4096⟩)
    (no_wrap : VmMapArgs virt phys size → virt + size ≠ 2 ^ 32)
    (call : vmMap (x86Env ops) vm virt phys size flags kernel = (status, vm', kernel')) :
    LoadEffect kernelDir dirs ∅ vm vm' kernel kernel' := by
  rcases vmMap_cases (x86Env ops) vm virt phys size flags kernel with
    ⟨_, result⟩ | ⟨args, ⟨_, result⟩ | ⟨before, after, ptr, middle, position, allocated, outcome⟩⟩
  · rw [result] at call
    cases call
    exact .refl inv vm
  · rw [result] at call
    cases call
    exact .refl inv vm
  obtain ⟨_, rfl⟩ := Prod.mk.inj allocated
  obtain ⟨size_pos, virt_lt, end_le⟩ := vmUserRangeValid_iff.mp args.user
  have inside : virt + size ≤ vmUserEnd := end_le.resolve_right (no_wrap args)
  have range : PageRange virt size :=
    ⟨args.virt_mod, args.size_mod, size_pos, userRange_fits args.user⟩
  have new_user : Vma.InUser ⟨virt, (virt + size) % 2 ^ 32, flags, ptr⟩ := by
    unfold Vma.InUser vmUserEnd at *
    simp only
    omega
  obtain ⟨split, _⟩ := vmAddPosition_takeWhile position
  have areas (vma : Vma) (vma_mem : vma ∈ before ++ ⟨virt, (virt + size) % 2 ^ 32, flags, ptr⟩ ::
      after) : vma ∈ vm.vmas ∨ vma.InUser := by
    rw [split]
    simp only [List.mem_append, List.mem_cons] at vma_mem ⊢
    rcases vma_mem with vma_mem | rfl | vma_mem
    · exact .inl (.inl vma_mem)
    · exact .inr new_user
    · exact .inl (.inr vma_mem)
  have effect {vmas : List Vma} :=
    @archVmMap_effect _ kernel kernelDir virt phys size dirs vm inv member
    arch_eq range inside args.phys_mod flags vmas
  rcases outcome with ⟨_, result⟩ | ⟨_, state', ⟨mapped, result⟩ | ⟨_, failed, result⟩⟩
  · rw [result] at call
    cases call
    exact (LoadEffect.refl inv vm).with_heap _
  · obtain ⟨_, rfl⟩ := Prod.mk.inj mapped
    rw [result] at call
    cases call
    exact effect areas _
  · obtain ⟨_, rfl⟩ := Prod.mk.inj failed
    obtain ⟨_, vmas, heap, removed⟩ := vmRemoveVma_heap ops
      { vm with vmas := before ++ ⟨virt, (virt + size) % 2 ^ 32, flags, ptr⟩ :: after } virt _
    rw [result, removed] at call
    cases call
    exact effect (fun vma vma_mem => areas vma (vmRemoveVma_subset removed vma_mem)) heap

variable {image : ℕ} {seg : Iwbf32SegmentHdr} {state : LoadState Heap}

/-- The checks of a segment against the size of the image. -/
structure SegmentFits (size : ℕ) (seg : Iwbf32SegmentHdr) : Prop where
  mem : seg.fileSize.toNat ≤ seg.memSize.toNat
  file : seg.fileOff.toNat + seg.fileSize.toNat ≤ size

/-- A run of free LowMem frames for the whole pages of a segment. -/
structure SegmentFrames (pmm : Pmm) (seg : Iwbf32SegmentHdr) (first pages : ℕ) : Prop where
  pages_eq : pages = seg.memSize.toNat / 4096
  pages_pos : 0 < pages
  lowmem : first + pages ≤ 196608
  fits : first + pages ≤ pmm.totalFrames
  free : pmm.FreeRun first pages

/-- A segment is rejected without effect, or passes its checks and receives a run of frames. -/
theorem placeSegment_cases (ops : HeapOps Heap) (image size : ℕ) (seg : Iwbf32SegmentHdr)
    (state : LoadState Heap) :
    (∃ error, placeSegment ops image size seg state = (.error error, state) ∧
        (SegmentFits size seg → ∀ phys pmm,
          pmmAllocLowmem state.kernel.machine.pmm (seg.memSize.toNat / 4096) ≠ (.ok phys, pmm))) ∨
      SegmentFits size seg ∧ ∃ first pages,
        SegmentFrames state.kernel.machine.pmm seg first pages ∧
        pmmAllocLowmem state.kernel.machine.pmm (seg.memSize.toNat / 4096) =
          (.ok (first * 4096), pmmMark state.kernel.machine.pmm first pages) ∧
        placeSegment ops image size seg state = mapSegment ops image (first * 4096) pages seg
          { state with
            kernel := state.kernel.setPmm (pmmMark state.kernel.machine.pmm first pages)
            accesses := .frames (first * 4096) pages :: state.accesses } := by
  rw [placeSegment]
  split_ifs with sizes off file
  · refine .inl ⟨_, rfl, fun fits => ?_⟩
    rw [UInt32.lt_iff_toNat_lt] at sizes
    exact absurd fits.mem (Nat.not_le.mpr sizes)
  · refine .inl ⟨_, rfl, fun fits => ?_⟩
    have := fits.file
    omega
  · refine .inl ⟨_, rfl, fun fits => ?_⟩
    have := fits.file
    omega
  · rw [UInt32.not_lt, UInt32.le_iff_toNat_le] at sizes
    dsimp only
    rw [show archVmPageSize = 4096 from rfl]
    obtain ⟨pages, pages_eq⟩ : ∃ pages, pages = seg.memSize.toNat / 4096 := ⟨_, rfl⟩
    rw [← pages_eq]
    by_cases none : pages = 0
    · rw [none, pmmAllocLowmem, pmmAlloc, if_pos rfl]
      exact .inl ⟨_, rfl, fun _ _ _ passed => by cases passed⟩
    rcases pmmAllocLowmem_cases state.kernel.machine.pmm (Nat.pos_of_ne_zero none) with
      ⟨failed, _⟩ | ⟨first, allocated, lowmem, below, free⟩
    · rw [failed]
      exact .inl ⟨_, rfl, fun _ _ _ passed => by cases passed⟩
    · rw [allocated]
      exact .inr ⟨⟨sizes, by omega⟩, first, pages,
        ⟨pages_eq, Nat.pos_of_ne_zero none, lowmem, below, free⟩, rfl, rfl⟩

/-- The kernel in which `vm_map` is called for a segment: its frames are allocated. -/
def LoadState.claim (state : LoadState Heap) (first pages : ℕ) : LoadState Heap :=
  { state with
    kernel := state.kernel.setPmm (pmmMark state.kernel.machine.pmm first pages)
    accesses := .frames (first * 4096) pages :: state.accesses }

/-- LowMem has too few frames for a segment that reaches `2 ^ 32` from the user half. -/
theorem SegmentFrames.no_wrap {pmm : Pmm} (frames : SegmentFrames pmm seg first pages)
    (args : VmMapArgs virt phys seg.memSize.toNat) : virt + seg.memSize.toNat ≠ 2 ^ 32 := by
  obtain ⟨_, virt_lt, _⟩ := vmUserRangeValid_iff.mp args.user
  have size_mod := args.size_mod
  have pages_eq := frames.pages_eq
  have lowmem := frames.lowmem
  unfold vmUserEnd at virt_lt
  omega

theorem vmMap_claimed_effect (inv : KernelTables kernelDir dirs state.kernel)
    (member : state.vm.dir ∈ dirs) (arch_eq : state.vm.arch = ⟨state.vm.dir * 4096⟩)
    (frames : SegmentFrames state.kernel.machine.pmm seg first pages) {status : Status}
    (call : vmMap (x86Env ops) state.vm seg.vaddr.toNat (first * 4096) seg.memSize.toNat
      (segmentVmFlags seg.flags) (state.claim first pages).kernel = (status, vm, kernel)) :
    LoadEffect kernelDir dirs (frameRun first pages) state.vm vm state.kernel kernel := by
  have claimed := LoadEffect.claim inv state.vm frames.fits frames.free
  have effect := claimed.trans (vmMap_effect claimed.tables member arch_eq frames.no_wrap call)
  rwa [Set.union_empty] at effect

/-- A write inside the frames of a run. -/
theorem outside_frameRun {address start len : ℕ} (outside : address / 4096 ∉ frameRun first pages)
    (fits : start + len ≤ 4096 * pages) :
    address < first * 4096 + start ∨ first * 4096 + start + len ≤ address := by
  have outside : ¬ (first ≤ address / 4096 ∧ address / 4096 < first + pages) := outside
  omega

/-- A range of addresses outside the frames of a run lies before or behind them. -/
theorem apart_of_outside {start len : ℕ}
    (outside : ∀ offset < len, (start + offset) / 4096 ∉ frameRun first pages)
    (pages_pos : 0 < pages) (len_pos : 0 < len) :
    start + len ≤ first * 4096 ∨ (first + pages) * 4096 ≤ start := by
  by_contra overlap
  have inside : (start + (first * 4096 - start)) / 4096 ∈ frameRun first pages :=
    ⟨by omega, by omega⟩
  exact outside _ (by omega) inside

/-- The file data is copied to the frames of the segment, and nothing else is written. -/
theorem copyFileData_spec (image : ℕ) (seg : Iwbf32SegmentHdr) (state : LoadState Heap)
    (pages_pos : 0 < pages) (fits : seg.fileSize.toNat ≤ 4096 * pages) :
    ∃ mem accesses, copyFileData image (first * 4096) seg state =
        { state with kernel := state.kernel.setMem mem, accesses := accesses } ∧
      (∀ frame ∉ frameRun first pages, ByteMemory.AgreeOn state.kernel.machine.mem mem frame) ∧
      ((∀ offset < seg.fileSize.toNat,
          (image + seg.fileOff.toNat + offset) / 4096 ∉ frameRun first pages) →
        ∀ offset < seg.fileSize.toNat, mem (first * 4096 + offset) =
          state.kernel.machine.mem (image + seg.fileOff.toNat + offset)) := by
  rw [copyFileData]
  split_ifs with some
  · obtain ⟨accesses, copied⟩ :=
      state.memcpy_eq (first * 4096) (image + seg.fileOff.toNat) seg.fileSize.toNat
    refine ⟨_, accesses, copied, fun frame outside address inside => ?_,
      fun outside offset offset_lt => ?_⟩
    · subst inside
      have apart := outside_frameRun outside (by omega : 0 + seg.fileSize.toNat ≤ 4096 * pages)
      rw [Nat.add_zero] at apart
      exact memcpy_of_outside apart
    · have apart := apart_of_outside outside pages_pos (Nat.zero_lt_of_lt offset_lt)
      rw [Nat.add_mul] at apart
      exact memcpy_apply (by clear some; omega) offset_lt
  · refine ⟨state.kernel.machine.mem, state.accesses, rfl, fun _ _ _ _ => rfl,
      fun _ offset offset_lt => ?_⟩
    rw [not_not.mp some] at offset_lt
    exact absurd offset_lt (Nat.not_lt_zero _)

/-- Zeros are written behind the file data, and nothing else. -/
theorem fillRest_spec (seg : Iwbf32SegmentHdr) (state : LoadState Heap)
    (fits : seg.memSize.toNat ≤ 4096 * pages) :
    ∃ mem accesses, fillRest (first * 4096) seg state =
        { state with kernel := state.kernel.setMem mem, accesses := accesses } ∧
      (∀ frame ∉ frameRun first pages, ByteMemory.AgreeOn state.kernel.machine.mem mem frame) ∧
      ∀ offset < seg.memSize.toNat, mem (first * 4096 + offset) =
        if offset < seg.fileSize.toNat then state.kernel.machine.mem (first * 4096 + offset)
        else 0 := by
  rw [fillRest]
  split_ifs with rest
  · rw [UInt32.lt_iff_toNat_lt] at rest
    obtain ⟨accesses, filled⟩ := state.memset_eq (first * 4096 + seg.fileSize.toNat) 0
      (seg.memSize.toNat - seg.fileSize.toNat)
    refine ⟨_, accesses, filled, fun frame outside address inside => ?_,
      fun offset offset_lt => ?_⟩
    · subst inside
      have apart := outside_frameRun outside (by omega :
        seg.fileSize.toNat + (seg.memSize.toNat - seg.fileSize.toNat) ≤ 4096 * pages)
      rw [memset, ByteMemory.fill_apply, if_neg (by omega)]
    · rw [memset, ByteMemory.fill_apply]
      by_cases file : offset < seg.fileSize.toNat
      · rw [if_neg (by omega), if_pos file]
      · rw [if_pos (by omega), if_neg file]
  · rw [UInt32.lt_iff_toNat_lt] at rest
    refine ⟨state.kernel.machine.mem, state.accesses, rfl, fun _ _ _ _ => rfl,
      fun offset offset_lt => ?_⟩
    rw [if_pos (by omega)]

/-- The frames of a segment receive its data and zeros behind it, and nothing else is written. -/
theorem fillSegment_spec (image : ℕ) (seg : Iwbf32SegmentHdr) (state : LoadState Heap)
    (pages_pos : 0 < pages) (sizes : seg.fileSize.toNat ≤ seg.memSize.toNat)
    (fits : seg.memSize.toNat ≤ 4096 * pages) :
    ∃ mem accesses, fillRest (first * 4096) seg (copyFileData image (first * 4096) seg state) =
        { state with kernel := state.kernel.setMem mem, accesses := accesses } ∧
      (∀ frame ∉ frameRun first pages, ByteMemory.AgreeOn state.kernel.machine.mem mem frame) ∧
      ((∀ offset < seg.fileSize.toNat,
          (image + seg.fileOff.toNat + offset) / 4096 ∉ frameRun first pages) →
        ∀ offset < seg.memSize.toNat, mem (first * 4096 + offset) =
          if offset < seg.fileSize.toNat then
            state.kernel.machine.mem (image + seg.fileOff.toNat + offset)
          else 0) := by
  obtain ⟨mem, accesses, copied, outside, data⟩ :=
    copyFileData_spec image seg state pages_pos (sizes.trans fits)
  rw [copied]
  obtain ⟨mem', accesses', filled, outside', zeros⟩ := fillRest_spec seg
    { state with kernel := state.kernel.setMem mem, accesses := accesses } fits
  refine ⟨mem', accesses', filled,
    fun frame other => (outside frame other).trans (outside' frame other),
    fun apart offset offset_lt => ?_⟩
  rw [zeros offset offset_lt]
  split_ifs with file
  · exact data apart offset file
  · rfl

/-- When its frames cannot be mapped, they are released. -/
theorem mapSegment_of_error {error : KError} (inv : KernelTables kernelDir dirs state.kernel)
    (member : state.vm.dir ∈ dirs) (arch_eq : state.vm.arch = ⟨state.vm.dir * 4096⟩) (image : ℕ)
    (frames : SegmentFrames state.kernel.machine.pmm seg first pages)
    (call : vmMap (x86Env ops) state.vm seg.vaddr.toNat (first * 4096) seg.memSize.toNat
      (segmentVmFlags seg.flags) (state.claim first pages).kernel = (.error error, vm, kernel)) :
    mapSegment ops image (first * 4096) pages seg (state.claim first pages) =
        (.error error, { state.claim first pages with
          vm := vm, kernel := kernel.setPmm (pmmUnmark kernel.machine.pmm first pages) }) ∧
      LoadEffect kernelDir dirs ∅ state.vm vm state.kernel
        (kernel.setPmm (pmmUnmark kernel.machine.pmm first pages)) := by
  have effect := vmMap_claimed_effect inv member arch_eq frames call
  have released := pmmFree_of_marked frames.pages_pos effect.tables.tables.total_lt
    (effect.total.symm ▸ frames.fits) fun frame lower upper =>
      ((effect.residue frame).mpr (.inl ⟨lower, upper⟩)).1
  refine ⟨?_, effect.release⟩
  simp only [mapSegment, LoadState.claim] at call ⊢
  rw [call]
  simp only [released]

/-- Mapping and filling the frames of a segment, which is whole pages. -/
theorem mapSegment_of_ok (inv : KernelTables kernelDir dirs state.kernel)
    (member : state.vm.dir ∈ dirs) (arch_eq : state.vm.arch = ⟨state.vm.dir * 4096⟩) (image : ℕ)
    (frames : SegmentFrames state.kernel.machine.pmm seg first pages)
    (sizes : seg.fileSize.toNat ≤ seg.memSize.toNat)
    (call : vmMap (x86Env ops) state.vm seg.vaddr.toNat (first * 4096) seg.memSize.toNat
      (segmentVmFlags seg.flags) (state.claim first pages).kernel = (.ok (), vm, kernel)) :
    seg.memSize.toNat = 4096 * pages ∧
      ∃ mem accesses, mapSegment ops image (first * 4096) pages seg (state.claim first pages) =
          (.ok (), ⟨vm, kernel.setMem mem, accesses⟩) ∧
        LoadEffect kernelDir dirs (frameRun first pages) state.vm vm state.kernel
          (kernel.setMem mem) ∧
        (∀ frame ∉ frameRun first pages, ByteMemory.AgreeOn kernel.machine.mem mem frame) ∧
        ((∀ offset < seg.fileSize.toNat,
            (image + seg.fileOff.toNat + offset) / 4096 ∉ frameRun first pages) →
          ∀ offset < seg.memSize.toNat, mem (first * 4096 + offset) =
            if offset < seg.fileSize.toNat then
              kernel.machine.mem (image + seg.fileOff.toNat + offset)
            else 0) := by
  have effect := vmMap_claimed_effect inv member arch_eq frames call
  have whole : seg.memSize.toNat = 4096 * pages := by
    have size_mod := (vmMap_args call).size_mod
    have pages_eq := frames.pages_eq
    omega
  obtain ⟨mem, accesses, filled, outside, data⟩ := fillSegment_spec image seg
    { state.claim first pages with vm := vm, kernel := kernel } frames.pages_pos sizes whole.le
  refine ⟨whole, mem, accesses, ?_, effect.store outside, outside, data⟩
  simp only [mapSegment, LoadState.claim] at call filled ⊢
  rw [call]
  simp only [filled]

/-- A segment is refused without claiming frames, or claims some and is mapped to them. -/
theorem placeSegment_effect (state : LoadState Heap)
    (inv : KernelTables kernelDir dirs state.kernel)
    (member : state.vm.dir ∈ dirs) (arch_eq : state.vm.arch = ⟨state.vm.dir * 4096⟩)
    (image size : ℕ) (seg : Iwbf32SegmentHdr) {status : Status} {state' : LoadState Heap}
    (placed : placeSegment ops image size seg state = (status, state')) :
    (status ≠ .ok () ∧ LoadEffect kernelDir dirs ∅ state.vm state'.vm state.kernel state'.kernel) ∨
      status = .ok () ∧ ∃ first pages, 0 < pages ∧
        LoadEffect kernelDir dirs (frameRun first pages) state.vm state'.vm state.kernel
          state'.kernel := by
  rcases placeSegment_cases ops image size seg state with
    ⟨error, rejected, _⟩ | ⟨fits, first, pages, frames, _, mapping⟩
  · rw [rejected] at placed
    cases placed
    exact .inl ⟨nofun, .refl inv _⟩
  · rw [mapping, ← LoadState.claim] at placed
    obtain ⟨⟨status', vm, kernel⟩, call⟩ : ∃ result, vmMap (x86Env ops) state.vm seg.vaddr.toNat
        (first * 4096) seg.memSize.toNat (segmentVmFlags seg.flags)
        (state.claim first pages).kernel = result := ⟨_, rfl⟩
    cases status' with
    | error error =>
        obtain ⟨result, effect⟩ := mapSegment_of_error inv member arch_eq image frames call
        rw [result] at placed
        cases placed
        exact .inl ⟨nofun, effect⟩
    | ok =>
        obtain ⟨_, _, _, result, effect, _⟩ :=
          mapSegment_of_ok inv member arch_eq image frames fits.mem call
        rw [result] at placed
        cases placed
        exact .inr ⟨rfl, first, pages, frames.pages_pos, effect⟩

end Segment

/-! ## All segments -/

section Load

variable {image i : ℕ} {state state' : LoadState Heap} {status : Status}

/-- `seg_off`. -/
def iwbfSegOff (i : ℕ) : ℕ := Word32.add iwbf32HdrSize (Word32.mul iwbf32SegmentHdrSize i)

theorem iwbfSegOff_eq (inside : iwbf32HdrSize + iwbf32SegmentHdrSize * i ≤ size)
    (size_lt : size < 2 ^ 32) : iwbfSegOff i = iwbf32HdrSize + iwbf32SegmentHdrSize * i := by
  rw [iwbfSegOff, Word32.mul_of_lt (by omega), Word32.add_of_lt (by omega)]

/-- An iteration fails at the descriptor, or places the segment that it parsed. -/
theorem processLoadSegment_cases (ops : HeapOps Heap) (image size i : ℕ) (state : LoadState Heap) :
    ∃ accesses,
      (∃ error out, iwbfParseSegmentHdr state.kernel.machine.mem (image + iwbfSegOff i)
            (Word32.sub size (iwbfSegOff i)) default = (.error error, out) ∧
          processLoadSegment ops image size i state =
            (.error error, { state with accesses := accesses })) ∨
        ∃ seg, iwbfParseSegmentHdr state.kernel.machine.mem (image + iwbfSegOff i)
            (Word32.sub size (iwbfSegOff i)) default = (.ok (), seg) ∧
          processLoadSegment ops image size i state =
            placeSegment ops image size seg { state with accesses := accesses } := by
  obtain ⟨reads, parse_eq, -⟩ := LoadState.parse_segmentHdr
    (state.record (.descriptor i (iwbfSegOff i) (Word32.sub size (iwbfSegOff i))))
    (image + iwbfSegOff i) (Word32.sub size (iwbfSegOff i)) default
  refine ⟨reads ++ .descriptor i (iwbfSegOff i) (Word32.sub size (iwbfSegOff i)) ::
    state.accesses, ?_⟩
  rw [processLoadSegment]
  simp only [← iwbfSegOff.eq_1, parse_eq]
  simp only [LoadState.record]
  obtain ⟨⟨status, seg⟩, parsed⟩ : ∃ result, iwbfParseSegmentHdr state.kernel.machine.mem
      (image + iwbfSegOff i) (Word32.sub size (iwbfSegOff i)) default = result := ⟨_, rfl⟩
  rw [parsed]
  cases status with
  | error error => exact .inl ⟨error, seg, rfl, rfl⟩
  | ok => exact .inr ⟨seg, rfl, rfl⟩

theorem processLoadSegment_effect (inv : KernelTables kernelDir dirs state.kernel)
    (member : state.vm.dir ∈ dirs) (arch_eq : state.vm.arch = ⟨state.vm.dir * 4096⟩)
    (loaded : processLoadSegment ops image size i state = (status, state')) :
    (status ≠ .ok () ∧ LoadEffect kernelDir dirs ∅ state.vm state'.vm state.kernel state'.kernel) ∨
      status = .ok () ∧ ∃ first pages, 0 < pages ∧
        LoadEffect kernelDir dirs (frameRun first pages) state.vm state'.vm state.kernel
          state'.kernel := by
  obtain ⟨accesses, ⟨error, _, _, refused⟩ | ⟨seg, _, placed⟩⟩ :=
    processLoadSegment_cases ops image size i state
  · rw [refused] at loaded
    cases loaded
    exact .inl ⟨nofun, .refl inv _⟩
  · rw [placed] at loaded
    exact placeSegment_effect { state with accesses := accesses } inv member arch_eq image size
      seg loaded

/-- The loop has the effects of its iterations. -/
theorem processLoadSegments_effect (count : ℕ) (inv : KernelTables kernelDir dirs state.kernel)
    (member : state.vm.dir ∈ dirs) (arch_eq : state.vm.arch = ⟨state.vm.dir * 4096⟩)
    (loaded : processLoadSegments ops image size count i state = (status, state')) :
    ∃ claimed, LoadEffect kernelDir dirs claimed state.vm state'.vm state.kernel state'.kernel := by
  induction count generalizing i state with
  | zero =>
      cases loaded
      exact ⟨∅, .refl inv _⟩
  | succ count induction =>
      obtain ⟨⟨first, middle⟩, ran⟩ : ∃ result,
          processLoadSegment ops image size i state = result :=
        ⟨_, rfl⟩
      rw [processLoadSegments, ran] at loaded
      rcases processLoadSegment_effect inv member arch_eq ran with
        ⟨failed, effect⟩ | ⟨rfl, _, _, _, effect⟩
      · cases first with
        | error error =>
            cases loaded
            exact ⟨∅, effect⟩
        | ok => exact absurd rfl failed
      · obtain ⟨_, rest⟩ := induction effect.tables (effect.dir_eq.symm ▸ member)
          (by rw [effect.arch, effect.dir_eq]; exact arch_eq) loaded
        exact ⟨_, effect.trans rest⟩

/-- `process_load` fails at the header, or runs its loop over the segments. -/
theorem processLoad_cases (ops : HeapOps Heap) (proc : Process) (image size : ℕ)
    (kernel : Kernel Heap) :
    (∃ error accesses, (size ≠ 0 → proc.state = .created → ∀ hdr,
          iwbfParseHdr kernel.machine.mem image size default ≠ (.ok (), hdr)) ∧
        processLoad ops proc image size kernel =
          (.error error, proc, ⟨proc.vm, kernel, accesses⟩)) ∨
      size ≠ 0 ∧ proc.state = .created ∧ ∃ hdr accesses last,
        iwbfParseHdr kernel.machine.mem image size default = (.ok (), hdr) ∧
        ((∃ error, processLoadSegments ops image size hdr.segmentCount.toNat 0
              ⟨proc.vm, kernel, accesses⟩ = (.error error, last) ∧
            processLoad ops proc image size kernel =
              (.error error, { proc with vm := last.vm }, last)) ∨
          processLoadSegments ops image size hdr.segmentCount.toNat 0
              ⟨proc.vm, kernel, accesses⟩ = (.ok (), last) ∧
            processLoad ops proc image size kernel =
              (.ok (), { proc with vm := last.vm, entry := hdr.entry.toNat }, last)) := by
  rw [processLoad]
  split_ifs with empty created
  · exact .inl ⟨_, _, fun some => absurd empty some, rfl⟩
  · exact .inl ⟨_, _, fun _ same => absurd same created, rfl⟩
  obtain ⟨reads, parse_eq, -⟩ :=
    LoadState.parse_hdr ⟨proc.vm, kernel, []⟩ image size default
  obtain ⟨⟨status, hdr⟩, parsed⟩ : ∃ result,
      iwbfParseHdr kernel.machine.mem image size default = result := ⟨_, rfl⟩
  rw [parse_eq, parsed]
  cases status with
  | error error => exact .inl ⟨error, _, fun _ _ _ => nofun, rfl⟩
  | ok =>
      refine .inr ⟨empty, not_not.mp created, hdr, reads ++ [], ?_⟩
      obtain ⟨⟨status, last⟩, ran⟩ : ∃ result, processLoadSegments ops image size
          hdr.segmentCount.toNat 0 ⟨proc.vm, kernel, reads ++ []⟩ = result := ⟨_, rfl⟩
      dsimp only
      rw [ran]
      cases status with
      | error error => exact ⟨last, rfl, .inl ⟨error, rfl, rfl⟩⟩
      | ok => exact ⟨last, rfl, .inr ⟨rfl, rfl⟩⟩

/-- Whatever the image holds, `process_load` has an effect of this kind. -/
theorem processLoad_effect {proc proc' : Process}
    (inv : KernelTables kernelDir dirs kernel) (member : proc.vm.dir ∈ dirs)
    (arch_eq : proc.vm.arch = ⟨proc.vm.dir * 4096⟩)
    (loaded : processLoad ops proc image size kernel = (status, proc', state)) :
    ∃ claimed, LoadEffect kernelDir dirs claimed proc.vm proc'.vm kernel state.kernel := by
  rcases processLoad_cases ops proc image size kernel with
    ⟨error, accesses, _, refused⟩ | ⟨_, _, hdr, accesses, last, _, ⟨error, ran, failed⟩ |
      ⟨ran, passed⟩⟩
  · rw [refused] at loaded
    cases loaded
    exact ⟨∅, .refl inv _⟩
  · rw [failed] at loaded
    cases loaded
    exact processLoadSegments_effect _ inv member arch_eq ran
  · rw [passed] at loaded
    cases loaded
    exact processLoadSegments_effect _ inv member arch_eq ran

/-- Frames for a segment bound its size by 768 MiB, so that its range cannot wrap. -/
theorem segment_no_wrap {pmm pmm' : Pmm} {seg : Iwbf32SegmentHdr}
    (allocated : pmmAllocLowmem pmm (seg.memSize.toNat / archVmPageSize) = (.ok phys, pmm'))
    (args : VmMapArgs seg.vaddr.toNat phys seg.memSize.toNat) :
    seg.memSize.toNat ≤ 0x30000000 ∧ seg.vaddr.toNat + seg.memSize.toNat ≤ 0xC0000000 := by
  obtain ⟨size_pos, virt_lt, end_le⟩ := vmUserRangeValid_iff.mp args.user
  have size_mod := args.size_mod
  rw [show archVmPageSize = 4096 from rfl] at allocated
  rcases pmmAllocLowmem_cases pmm (by omega : 0 < seg.memSize.toNat / 4096) with
    ⟨failed, _⟩ | ⟨first, _, lowmem, _⟩
  · rw [failed] at allocated
    cases allocated
  · unfold vmUserEnd at virt_lt end_le
    omega

theorem LoadEffect.translate_eq {dir va : ℕ} (inv : KernelTables kernelDir dirs kernel)
    (effect : LoadEffect kernelDir dirs claimed vm vm' kernel kernel')
    (member : dir ∈ kernelDir :: dirs) (va_lt : va < 2 ^ 32)
    (outside : kernelVirtOffset ≤ va ∨ dir ≠ vm.dir) :
    archVmTranslate kernel'.machine ⟨dir * 4096⟩ va =
      archVmTranslate kernel.machine ⟨dir * 4096⟩ va := by
  rw [archVmTranslate_eq effect.tables.tables member va_lt,
    archVmTranslate_eq inv.tables member va_lt, effect.views dir member va va_lt outside]

/-- Containment of `process_load` in every reachable state: for every image, and whether it succeeds
or fails, it adds areas of the user half only, changes no entry and no translation of the kernel
half, and no translation of another address space. No range that it maps ends at `2 ^ 32`. -/
theorem processLoad_contained {boot booted : Kernel Heap} {sections : KernelSections}
    {system : VmSystem Heap} (total_lt : boot.machine.pmm.totalFrames < 2 ^ 32)
    (init : vmKernInit sections boot = (.ok (), booted))
    (run : Relation.ReflTransGen (VmStep ops) ⟨booted, [], ∅⟩ system) {proc proc' : Process}
    {before after : List VmSpace} (spaces_eq : system.spaces = before ++ proc.vm :: after)
    (loaded : processLoad ops proc image size system.kernel = (status, proc', state)) :
    (∀ vma ∈ proc'.vm.vmas, vma ∈ proc.vm.vmas ∨ vma.start < vma.stop ∧ vma.stop ≤ 0xC0000000) ∧
      (∀ va, 0xC0000000 ≤ va → va < 2 ^ 32 →
        vmKernTranslate state.kernel va = vmKernTranslate system.kernel va ∧
        pteWord state.kernel.machine (state.kernel.kernelVm.pdPhys / 4096) va =
          pteWord system.kernel.machine (system.kernel.kernelVm.pdPhys / 4096) va ∧
        ∀ space ∈ system.spaces,
          archVmTranslate state.kernel.machine space.arch va =
            archVmTranslate system.kernel.machine space.arch va ∧
          pteWord state.kernel.machine space.dir va =
            pteWord system.kernel.machine space.dir va) ∧
      (∀ space ∈ before ++ after, ∀ va < 2 ^ 32,
        archVmTranslate state.kernel.machine space.arch va =
          archVmTranslate system.kernel.machine space.arch va) ∧
      ∀ (pmm pmm' : Pmm) (seg : Iwbf32SegmentHdr) (phys : ℕ),
        pmmAllocLowmem pmm (seg.memSize.toNat / archVmPageSize) = (.ok phys, pmm') →
        VmMapArgs seg.vaddr.toNat phys seg.memSize.toNat →
        seg.memSize.toNat ≤ 0x30000000 ∧ seg.vaddr.toNat + seg.memSize.toNat ≤ 0xC0000000 := by
  obtain ⟨kernelDir, start⟩ := vmKernInit_inv total_lt init
  have inv := start.steps run
  have space_mem : proc.vm ∈ system.spaces := by simp [spaces_eq]
  obtain ⟨claimed, effect⟩ := processLoad_effect inv.tables (VmSystem.dir_mem space_mem)
    (inv.arch_eq _ space_mem) loaded
  have kernelVm_eq := inv.tables.kernelVm_eq
  have kernelVm_eq' := effect.tables.kernelVm_eq
  refine ⟨effect.areas, fun va kernel_le va_lt => ⟨?_, ?_, fun space member => ⟨?_, ?_⟩⟩, ?_,
    fun _ _ _ _ => segment_no_wrap⟩
  · simp only [vmKernTranslate, kernelVm_eq, kernelVm_eq']
    rw [effect.translate_eq inv.tables (List.mem_cons_self ..) va_lt (.inl kernel_le)]
  · rw [kernelVm_eq, kernelVm_eq', Nat.mul_div_cancel _ (by decide : 0 < 4096)]
    exact effect.views _ (List.mem_cons_self ..) va va_lt (.inl kernel_le)
  · rw [inv.arch_eq space member]
    exact effect.translate_eq inv.tables (List.mem_cons_of_mem _ (VmSystem.dir_mem member)) va_lt
      (.inl kernel_le)
  · exact effect.views _ (List.mem_cons_of_mem _ (VmSystem.dir_mem member)) va va_lt
      (.inl kernel_le)
  · intro space member va va_lt
    have nodup := (List.nodup_cons.mp inv.tables.tables.nodup).2
    rw [VmSystem.dirs, spaces_eq, List.map_append, List.map_cons] at nodup
    have differ : space.dir ≠ proc.vm.dir := by
      intro same
      refine (List.nodup_cons.mp (List.perm_middle.nodup_iff.mp nodup)).1 ?_
      rw [← List.map_append, ← same]
      exact List.mem_map_of_mem member
    have member' : space ∈ system.spaces := by
      rw [spaces_eq]
      simp only [List.mem_append, List.mem_cons] at member ⊢
      tauto
    rw [inv.arch_eq space member']
    exact effect.translate_eq inv.tables (List.mem_cons_of_mem _ (VmSystem.dir_mem member')) va_lt
      (.inr differ)

theorem processLoad_contained_small :
    ∃ kernel vm kernel' status proc' state,
      vmKernInit smallSections smallKernel = (.ok (), kernel) ∧
      vmSpaceInit (x86Env bumpHeap) kernel = (.ok vm, kernel') ∧
      processLoad bumpHeap ⟨.created, vm, ⟨0, 0, 0⟩, 0⟩ 0x70000 38 kernel' =
        (status, proc', state) ∧
      (∀ vma ∈ proc'.vm.vmas, vma.start < vma.stop ∧ vma.stop ≤ 0xC0000000) ∧
      vmKernTranslate state.kernel 0xC0100000 = vmKernTranslate kernel' 0xC0100000 := by
  obtain ⟨_, frame, _, kernel, kernel', space, _⟩ := smallKernel_attached
  have step : VmStep bumpHeap ⟨kernel, [], ∅⟩ _ := .spaceInit space.created
  obtain ⟨⟨status, proc', state⟩, loaded⟩ : ∃ result, processLoad bumpHeap
      ⟨.created, ⟨[], ⟨frame * 4096⟩⟩, ⟨0, 0, 0⟩, 0⟩ 0x70000 38 kernel' = result := ⟨_, rfl⟩
  have spaces_eq : [(⟨[], ⟨frame * 4096⟩⟩ : VmSpace)] = [] ++ ⟨[], ⟨frame * 4096⟩⟩ :: [] := rfl
  obtain ⟨areas, shared, _⟩ := processLoad_contained (by decide) space.booted (.single step)
    spaces_eq loaded
  refine ⟨kernel, _, kernel', status, proc', state, space.booted, space.created, loaded,
    fun vma member => ?_, (shared 0xC0100000 (by decide) (by decide)).1⟩
  exact (areas vma member).resolve_left (by simp)

end Load

end ItWorksOS
