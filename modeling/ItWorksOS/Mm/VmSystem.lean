import ItWorksOS.Mm.AddressSpaces

/-!
# The system of address spaces

Any number of address spaces live next to the kernel mappings, and their operations interleave in
any order with each other, with calls on the kernel mappings and with callers that allocate, write
and release frames of their own. In every state reached this way, each frame that is marked in the
PMM is a table of exactly one owner, a frame of a caller, or was marked before the kernel mappings
were created.
-/

namespace ItWorksOS

/-- Frame of the page directory. -/
def VmSpace.dir (vm : VmSpace) : ℕ := vm.arch.pdPhys / 4096

/-- Memory management with its live address spaces and the frames that its callers own. -/
structure VmSystem (Heap : Type*) where
  /-- The state of memory management. -/
  kernel : Kernel Heap
  /-- Live address spaces. -/
  spaces : List VmSpace
  /-- Frames that callers have allocated for themselves. -/
  callers : Set ℕ

section System

variable {Heap : Type*}

/-- The directories of the live address spaces. -/
def VmSystem.dirs (system : VmSystem Heap) : List ℕ := system.spaces.map VmSpace.dir

/-- A step that concerns no address space: a call on the kernel mappings with any arguments, or a
caller that allocates, releases or writes frames of its own. -/
inductive OwnStep : Kernel Heap × Set ℕ → Kernel Heap × Set ℕ → Prop
  | kernCall {kernel kernel' : Kernel Heap} {callers : Set ℕ} {op : KernOp} {status : Status}
      (call : kernCall op kernel = (status, kernel')) : OwnStep (kernel, callers) (kernel', callers)
  | alloc {kernel : Kernel Heap} {callers : Set ℕ} {min max pages addr : ℕ} {policy : PmmPolicy}
      {pmm : Pmm} (call : pmmAlloc kernel.machine.pmm min max pages policy = (.ok addr, pmm)) :
      OwnStep (kernel, callers)
        ({ kernel with machine := { kernel.machine with pmm := pmm } },
          callers ∪ framesFrom addr pages)
  | free {kernel : Kernel Heap} {callers : Set ℕ} {addr pages : ℕ} {pmm : Pmm}
      (owned : ∀ frame ∈ framesFrom addr pages, frame ∈ callers)
      (call : pmmFree kernel.machine.pmm addr pages = (.ok (), pmm)) :
      OwnStep (kernel, callers)
        ({ kernel with machine := { kernel.machine with pmm := pmm } },
          callers \ framesFrom addr pages)
  | store {kernel : Kernel Heap} {callers : Set ℕ} {mem : ByteMemory}
      (outside : ∀ frame, frame ∉ callers → ByteMemory.AgreeOn kernel.machine.mem mem frame) :
      OwnStep (kernel, callers)
        ({ kernel with machine := { kernel.machine with mem := mem } }, callers)

/-- One step of the system. -/
inductive VmStep (ops : HeapOps Heap) : VmSystem Heap → VmSystem Heap → Prop
  | spaceInit {kernel kernel' : Kernel Heap} {spaces : List VmSpace} {callers : Set ℕ}
      {vm : VmSpace} (call : vmSpaceInit (x86Env ops) kernel = (.ok vm, kernel')) :
      VmStep ops ⟨kernel, spaces, callers⟩ ⟨kernel', vm :: spaces, callers⟩
  | spaceInitError {kernel kernel' : Kernel Heap} {spaces : List VmSpace} {callers : Set ℕ}
      {error : KError} (call : vmSpaceInit (x86Env ops) kernel = (.error error, kernel')) :
      VmStep ops ⟨kernel, spaces, callers⟩ ⟨kernel', spaces, callers⟩
  | spaceDestroy {kernel kernel' : Kernel Heap} {before after : List VmSpace} {callers : Set ℕ}
      {vm vm' : VmSpace} {status : Status}
      (call : vmSpaceDestroy (x86Env ops) vm kernel = (status, vm', kernel')) :
      VmStep ops ⟨kernel, before ++ vm :: after, callers⟩ ⟨kernel', before ++ after, callers⟩
  | vmCall {kernel kernel' : Kernel Heap} {before after : List VmSpace} {callers : Set ℕ}
      {vm vm' : VmSpace} {op : VmOp} {status : Status}
      (call : vmCall (x86Env ops) op vm kernel = (status, vm', kernel')) :
      VmStep ops ⟨kernel, before ++ vm :: after, callers⟩
        ⟨kernel', before ++ vm' :: after, callers⟩
  | own {kernel kernel' : Kernel Heap} {spaces : List VmSpace} {callers callers' : Set ℕ}
      (step : OwnStep (kernel, callers) (kernel', callers')) :
      VmStep ops ⟨kernel, spaces, callers⟩ ⟨kernel', spaces, callers'⟩

/-- The tables are well formed, and the other marked frames are those of the callers and those that
were reserved before. -/
structure VmSystem.Inv (kernelDir : ℕ) (reserved : Set ℕ) (system : VmSystem Heap) : Prop where
  tables : KernelTables kernelDir system.dirs system.kernel
  arch_eq : ∀ vm ∈ system.spaces, vm.arch = ⟨vm.dir * 4096⟩
  residue : ∀ frame, Residue kernelDir system.dirs system.kernel.machine frame ↔
    frame ∈ reserved ∨ frame ∈ system.callers
  disjoint : ∀ frame ∈ system.callers, frame ∉ reserved
  below : ∀ frame ∈ system.callers, frame < system.kernel.machine.pmm.totalFrames

end System

section Steps

variable {Heap : Type*} {ops : HeapOps Heap} {kernel kernel' : Kernel Heap} {kernelDir : ℕ}
  {reserved callers callers' : Set ℕ} {spaces : List VmSpace} {system system' : VmSystem Heap}

theorem vmSpace_dir_eq (vmas : List Vma) (frame : ℕ) : VmSpace.dir ⟨vmas, ⟨frame * 4096⟩⟩ = frame :=
  Nat.mul_div_cancel _ (by decide)

theorem mem_framesFrom {firstFrame pages frame : ℕ} :
    frame ∈ framesFrom (firstFrame * 4096) pages ↔
      firstFrame ≤ frame ∧ frame < firstFrame + pages := by
  rw [framesFrom, Nat.mul_div_cancel _ (by decide : 0 < 4096), Finset.mem_Ico]

/-- The callers own no table. -/
theorem VmSystem.Inv.not_caller
    (inv : VmSystem.Inv kernelDir reserved ⟨kernel, spaces, callers⟩) {slot : TableSlot}
    (owned : Owned kernelDir (spaces.map VmSpace.dir) kernel.machine slot) :
    slot.frame kernel.machine ∉ callers := by
  intro member
  exact ((inv.residue _).mpr (Or.inr member)).2 slot owned rfl

/-- A caller that allocates frames owns them. -/
theorem VmSystem.Inv.of_pmmAlloc (inv : VmSystem.Inv kernelDir reserved ⟨kernel, spaces, callers⟩)
    {min max pages addr : ℕ} {policy : PmmPolicy} {pmm : Pmm}
    (call : pmmAlloc kernel.machine.pmm min max pages policy = (.ok addr, pmm)) :
    VmSystem.Inv kernelDir reserved ⟨{ kernel with machine := { kernel.machine with pmm := pmm } },
      spaces, callers ∪ framesFrom addr pages⟩ := by
  obtain ⟨⟨tables, ready, kernelVm_eq⟩, arch_eq, residue, disjoint, below⟩ := inv
  simp only [VmSystem.dirs] at tables residue below
  rcases pmmAlloc_cases kernel.machine.pmm min max pages policy with
    ⟨error, failed⟩ | ⟨firstFrame, allocated, _, fits, free⟩
  · rw [failed] at call
    cases call
  · rw [allocated] at call
    obtain ⟨addr_eq, rfl⟩ := Prod.mk.inj call
    obtain rfl := Except.ok.inj addr_eq
    refine ⟨⟨?_, ready, kernelVm_eq⟩, arch_eq, ?_, ?_, ?_⟩
    · refine tables.congr (fun _ _ _ _ => rfl) rfl fun slot owned => ?_
      exact (marked_pmmMark _ _ _ _).mpr (Or.inr (tables.placed slot owned).2.2)
    · intro frame
      refine (residue_pmmMark tables free frame).trans ?_
      rw [residue frame, Set.mem_union, Finset.mem_coe, mem_framesFrom]
      tauto
    · rintro frame (member | member) frame_reserved
      · exact disjoint frame member frame_reserved
      · obtain ⟨lower, upper⟩ := mem_framesFrom.mp member
        exact free frame lower upper ((residue frame).mpr (Or.inl frame_reserved)).1
    · rintro frame (member | member)
      · exact below frame member
      · obtain ⟨lower, upper⟩ := mem_framesFrom.mp member
        exact Nat.lt_of_lt_of_le upper fits

/-- A caller that releases frames gives them up. -/
theorem VmSystem.Inv.of_pmmFree (inv : VmSystem.Inv kernelDir reserved ⟨kernel, spaces, callers⟩)
    {addr pages : ℕ} {pmm : Pmm} (owned : ∀ frame ∈ framesFrom addr pages, frame ∈ callers)
    (call : pmmFree kernel.machine.pmm addr pages = (.ok (), pmm)) :
    VmSystem.Inv kernelDir reserved ⟨{ kernel with machine := { kernel.machine with pmm := pmm } },
      spaces, callers \ framesFrom addr pages⟩ := by
  have ⟨⟨tables, ready, kernelVm_eq⟩, arch_eq, residue, disjoint, below⟩ := inv
  simp only [VmSystem.dirs] at tables residue below
  rcases pmmFree_cases kernel.machine.pmm addr pages with
    ⟨error, failed⟩ | ⟨freed, pages_pos, fits, _⟩
  · rw [failed] at call
    cases call
  · rw [freed] at call
    obtain ⟨_, rfl⟩ := Prod.mk.inj call
    have total_lt := tables.total_lt
    have first_lt := below _ (owned (addr / 4096) (by
      rw [framesFrom, Finset.mem_Ico]
      omega))
    have first_eq : pmmAddrToFrame addr = addr / 4096 := by
      unfold pmmAddrToFrame pmmFrameSize
      omega
    have range_iff (frame : ℕ) : frame ∈ framesFrom addr pages ↔
        pmmAddrToFrame addr ≤ frame ∧ frame < pmmAddrToFrame addr + pages := by
      rw [framesFrom, Finset.mem_Ico, first_eq]
    refine ⟨⟨?_, ready, kernelVm_eq⟩, arch_eq, ?_, ?_, ?_⟩
    · refine tables.congr (fun _ _ _ _ => rfl) rfl fun slot slot_owned => ?_
      refine (marked_pmmUnmark _ _ _ _).mpr
        ⟨fun inside => ?_, (tables.placed slot slot_owned).2.2⟩
      exact inv.not_caller slot_owned (owned _ ((range_iff _).mpr inside))
    · intro frame
      refine (residue_pmmUnmark kernelDir (spaces.map VmSpace.dir) kernel.machine _ _
        frame).trans ?_
      rw [residue frame, ← range_iff, Set.mem_sdiff, Finset.mem_coe]
      constructor
      · rintro ⟨outside, frame_reserved | member⟩
        · exact Or.inl frame_reserved
        · exact Or.inr ⟨member, outside⟩
      · rintro (frame_reserved | ⟨member, outside⟩)
        · exact ⟨fun inside => disjoint frame (owned frame inside) frame_reserved,
            Or.inl frame_reserved⟩
        · exact ⟨outside, Or.inr member⟩
    · exact fun frame member => disjoint frame member.1
    · exact fun frame member => below frame member.1

/-- A step on no address space keeps the invariant and the tables of all address spaces. -/
theorem OwnStep.inv (inv : VmSystem.Inv kernelDir reserved ⟨kernel, spaces, callers⟩)
    (step : OwnStep (kernel, callers) (kernel', callers')) :
    VmSystem.Inv kernelDir reserved ⟨kernel', spaces, callers'⟩ ∧
      SameTables kernelDir (spaces.map VmSpace.dir) kernel.machine kernel'.machine := by
  have ⟨⟨tables, ready, kernelVm_eq⟩, arch_eq, residue, disjoint, below⟩ := inv
  simp only [VmSystem.dirs] at tables residue below
  cases step with
  | @kernCall _ _ _ op status call =>
      obtain ⟨machine, _, _, _, _, result, rewritten⟩ :=
        kernCall_rewritten (⟨tables, ready, kernelVm_eq⟩ :
          KernelTables kernelDir (spaces.map VmSpace.dir) kernel) op
      rw [call] at result
      obtain rfl := result
      refine ⟨⟨⟨rewritten.tables, rewritten.ready, kernelVm_eq⟩, arch_eq,
        fun frame => (rewritten.residue frame).trans (residue frame), disjoint, ?_⟩,
        rewritten.sameTables (fun _ member => member) (List.nodup_cons.mp tables.nodup).1⟩
      intro frame member
      simp only [rewritten.total]
      exact below frame member
  | alloc call => exact ⟨inv.of_pmmAlloc call, SameTables.refl ..⟩
  | free owned call => exact ⟨inv.of_pmmFree owned call, SameTables.refl ..⟩
  | @store _ _ mem outside =>
      have words (dir : ℕ) (member : dir ∈ kernelDir :: spaces.map VmSpace.dir) (index : ℕ)
          (index_lt : index < 1024) : mem.word dir index = kernel.machine.mem.word dir index :=
        (outside dir (inv.not_caller (PageTables.dir_owned member))).word_eq index_lt
      refine ⟨⟨⟨?_, ?_, kernelVm_eq⟩, arch_eq, ?_, disjoint, below⟩, ?_, ?_⟩
      · exact tables.congr words rfl fun slot owned => (tables.placed slot owned).2.2
      · intro index kernel_le index_lt
        simp only [words kernelDir (List.mem_cons_self ..) index index_lt]
        exact ready index kernel_le index_lt
      · intro frame
        rw [← residue frame]
        exact PageTables.residue_congr words frame Iff.rfl
      · intro dir member index user
        exact words dir (List.mem_cons_of_mem _ member) index (by omega)
      · intro index _ index_lt
        exact words kernelDir (List.mem_cons_self ..) index index_lt

/-- A call on one address space keeps the invariant and the tables of all others. -/
theorem vmCall_inv {before after : List VmSpace} {vm vm' : VmSpace} {op : VmOp} {status : Status}
    (inv : VmSystem.Inv kernelDir reserved ⟨kernel, before ++ vm :: after, callers⟩)
    (call : vmCall (x86Env ops) op vm kernel = (status, vm', kernel')) :
    VmSystem.Inv kernelDir reserved ⟨kernel', before ++ vm' :: after, callers⟩ ∧
      vm'.arch = vm.arch ∧
      SameTables kernelDir ((before ++ after).map VmSpace.dir) kernel.machine kernel'.machine := by
  obtain ⟨tables, arch_eq, residue, disjoint, below⟩ := inv
  have member : vm.dir ∈ (before ++ vm :: after).map VmSpace.dir := by simp
  obtain ⟨_, vmas, machine, heap, virt, done, word, result, rewritten, _⟩ :=
    vmCall_rewritten tables member (arch_eq vm (by simp)) op
  rw [call] at result
  obtain ⟨_, rest⟩ := Prod.mk.inj result
  obtain ⟨rfl, rfl⟩ := Prod.mk.inj rest
  have dirs_eq : (before ++ { vm with vmas := vmas } :: after).map VmSpace.dir =
      (before ++ vm :: after).map VmSpace.dir := by
    rw [List.map_append, List.map_append]
    rfl
  have nodup : vm.dir ∉ (before ++ after).map VmSpace.dir := by
    have nodup := (List.nodup_cons.mp tables.tables.nodup).2
    simp only [VmSystem.dirs, List.map_append, List.map_cons] at nodup
    have shuffled := List.perm_middle.nodup_iff.mp nodup
    rw [List.map_append]
    exact (List.nodup_cons.mp shuffled).1
  refine ⟨⟨⟨?_, rewritten.ready, tables.kernelVm_eq⟩, ?_, ?_, disjoint, ?_⟩, rfl,
    rewritten.sameTables ?_ nodup⟩
  · simp only [VmSystem.dirs, dirs_eq]
    exact rewritten.tables
  · intro other other_mem
    simp only [List.mem_append, List.mem_cons] at other_mem
    rcases other_mem with other_mem | rfl | other_mem
    · exact arch_eq other (by simp [other_mem])
    · exact arch_eq vm (by simp)
    · exact arch_eq other (by simp [other_mem])
  · intro frame
    simp only [VmSystem.dirs, dirs_eq]
    exact (rewritten.residue frame).trans (residue frame)
  · intro frame frame_mem
    simp only [rewritten.total]
    exact below frame frame_mem
  · intro dir dir_mem
    simp only [List.map_append, List.mem_append] at dir_mem
    simp only [VmSystem.dirs, List.map_append, List.map_cons, List.mem_cons, List.mem_append]
    tauto

/-- Creating an address space keeps the invariant and the tables of all others. -/
theorem vmSpaceInit_inv {vm : VmSpace}
    (inv : VmSystem.Inv kernelDir reserved ⟨kernel, spaces, callers⟩)
    (call : vmSpaceInit (x86Env ops) kernel = (.ok vm, kernel')) :
    VmSystem.Inv kernelDir reserved ⟨kernel', vm :: spaces, callers⟩ ∧
      SameTables kernelDir (spaces.map VmSpace.dir) kernel.machine kernel'.machine := by
  obtain ⟨tables, arch_eq, residue, disjoint, below⟩ := inv
  rcases vmSpaceInit_cases tables with ⟨failed, _⟩ | ⟨frame, fresh, created⟩
  · rw [failed] at call
    cases call
  rw [created] at call
  obtain ⟨vm_eq, rfl⟩ := Prod.mk.inj call
  obtain rfl := Except.ok.inj vm_eq
  obtain ⟨ready, residue', bytes, _⟩ := attachedFrame_spec tables.tables fresh
  have dirs_eq : (⟨[], ⟨frame * 4096⟩⟩ :: spaces).map VmSpace.dir =
      frame :: spaces.map VmSpace.dir := by
    rw [List.map_cons, vmSpace_dir_eq]
  have words (dir : ℕ) (member : dir ∈ kernelDir :: spaces.map VmSpace.dir) (index : ℕ)
      (index_lt : index < 1024) :
      (attachedFrame kernel.machine kernelDir frame).mem.word dir index =
        kernel.machine.mem.word dir index :=
    (bytes dir (tables.tables.placed (.directory dir) member).2.2).word_eq index_lt
  refine ⟨⟨⟨?_, ready tables.ready, tables.kernelVm_eq⟩, ?_, ?_, disjoint, ?_⟩, ?_, ?_⟩
  · simp only [VmSystem.dirs, dirs_eq]
    exact pageTables_attachedFrame tables.tables fresh
  · intro other member
    rcases List.mem_cons.mp member with rfl | member
    · rw [vmSpace_dir_eq]
    · exact arch_eq other member
  · intro other
    simp only [VmSystem.dirs, dirs_eq]
    exact (residue' other).trans (residue other)
  · intro other member
    simp only [attachedFrame_pmm tables.tables fresh, totalFrames_pmmMark]
    exact below other member
  · intro dir member index user
    exact words dir (List.mem_cons_of_mem _ member) index (by omega)
  · intro index _ index_lt
    exact words kernelDir (List.mem_cons_self ..) index index_lt

/-- Destroying an address space succeeds and keeps the invariant; memory is not written. -/
theorem vmSpaceDestroy_inv {before after : List VmSpace} {vm vm' : VmSpace} {status : Status}
    (inv : VmSystem.Inv kernelDir reserved ⟨kernel, before ++ vm :: after, callers⟩)
    (call : vmSpaceDestroy (x86Env ops) vm kernel = (status, vm', kernel')) :
    VmSystem.Inv kernelDir reserved ⟨kernel', before ++ after, callers⟩ ∧ status = .ok () ∧
      kernel'.machine = { kernel.machine with
        pmm := pmmUnmarkAll kernel.machine.pmm (spaceFrames kernel.machine vm.dir) } := by
  obtain ⟨tables, arch_eq, residue, disjoint, below⟩ := inv
  simp only [VmSystem.dirs, List.map_append, List.map_cons] at tables residue
  obtain ⟨heap, destroyed⟩ := vmSpaceDestroy_eq tables (arch_eq vm (by simp))
  rw [destroyed] at call
  obtain ⟨rfl, rest⟩ := Prod.mk.inj call
  obtain ⟨_, rfl⟩ := Prod.mk.inj rest
  obtain ⟨tables', residue'⟩ := pageTables_destroyed tables.tables
  refine ⟨⟨⟨?_, tables.ready, tables.kernelVm_eq⟩, ?_, ?_, disjoint, ?_⟩, rfl, rfl⟩
  · simp only [VmSystem.dirs, List.map_append]
    exact tables'
  · intro other member
    exact arch_eq other (List.perm_middle.mem_iff.mpr (List.mem_cons_of_mem _ member))
  · intro frame
    simp only [VmSystem.dirs, List.map_append]
    exact (residue' frame).trans (residue frame)
  · intro frame member
    simp only [totalFrames_pmmUnmarkAll]
    exact below frame member

/-- Every step keeps the invariant. -/
theorem VmSystem.Inv.step (inv : system.Inv kernelDir reserved) (step : VmStep ops system system') :
    system'.Inv kernelDir reserved := by
  cases step with
  | spaceInit call => exact (vmSpaceInit_inv inv call).1
  | spaceInitError call =>
      rcases vmSpaceInit_cases inv.tables with ⟨failed, _⟩ | ⟨_, _, created⟩
      · rw [failed] at call
        obtain ⟨_, rfl⟩ := Prod.mk.inj call
        exact inv
      · rw [created] at call
        cases call
  | spaceDestroy call => exact (vmSpaceDestroy_inv inv call).1
  | vmCall call => exact (vmCall_inv inv call).1
  | own step => exact (step.inv inv).1

/-- Every run keeps the invariant. -/
theorem VmSystem.Inv.steps (inv : system.Inv kernelDir reserved)
    (steps : Relation.ReflTransGen (VmStep ops) system system') :
    system'.Inv kernelDir reserved := by
  induction steps with
  | refl => exact inv
  | tail _ step induction => exact induction.step step

/-- After `vm_kern_init`, the system without address spaces satisfies the invariant. -/
theorem vmKernInit_inv {boot : Kernel Heap} {sections : KernelSections}
    (total_lt : boot.machine.pmm.totalFrames < 2 ^ 32)
    (init : vmKernInit sections boot = (.ok (), kernel)) :
    ∃ kernelDir, VmSystem.Inv kernelDir {frame | boot.machine.pmm.Marked frame}
      ⟨kernel, [], ∅⟩ := by
  obtain ⟨kernelDir, tables, _, _, _, residue⟩ := vmKernInit_kept total_lt init
  refine ⟨kernelDir, tables, by simp, ?_, by simp, by simp⟩
  intro frame
  rw [Set.mem_empty_iff_false, or_false]
  exact (residue frame).1

end Steps

/-! ## The shared kernel half -/

section Shared

variable {Heap : Type*} {ops : HeapOps Heap} {boot kernel : Kernel Heap} {kernelDir : ℕ}
  {reserved : Set ℕ} {sections : KernelSections} {system : VmSystem Heap}

/-- Every directory shows the kernel half of the kernel directory. -/
theorem PageTables.pteWord_kernel {dirs : List ℕ} {machine : Machine} {dir va : ℕ}
    (tables : PageTables kernelDir dirs machine) (member : dir ∈ dirs)
    (kernel_le : kernelVirtOffset ≤ va) (va_lt : va < 2 ^ 32) :
    pteWord machine dir va = pteWord machine kernelDir va := by
  have kernel_index : 768 ≤ va / 2 ^ 22 := by
    unfold kernelVirtOffset at kernel_le
    omega
  simp only [pteWord, tables.shared dir member _ kernel_index (by omega : va / 2 ^ 22 < 1024)]

theorem VmSystem.dir_mem {vm : VmSpace} (member : vm ∈ system.spaces) : vm.dir ∈ system.dirs :=
  List.mem_map_of_mem member

/-- Along every run after `vm_kern_init`, all address spaces and the kernel have the same kernel
entries, and they translate every kernel address alike. -/
theorem kernelHalf_shared_of_run (total_lt : boot.machine.pmm.totalFrames < 2 ^ 32)
    (init : vmKernInit sections boot = (.ok (), kernel))
    (run : Relation.ReflTransGen (VmStep ops) ⟨kernel, [], ∅⟩ system) :
    ∀ vm ∈ system.spaces,
      (∀ index, 768 ≤ index → index < 1024 →
        system.kernel.machine.entry vm.arch.pdPhys index =
          system.kernel.machine.entry system.kernel.kernelVm.pdPhys index) ∧
      ∀ va, 0xC0000000 ≤ va → va < 2 ^ 32 →
        archVmTranslate system.kernel.machine vm.arch va = vmKernTranslate system.kernel va := by
  obtain ⟨kernelDir, start⟩ := vmKernInit_inv total_lt init
  have inv := start.steps run
  obtain ⟨tables, _, kernelVm_eq⟩ := inv.tables
  intro vm member
  have dir_mem := VmSystem.dir_mem member
  rw [inv.arch_eq vm member, kernelVm_eq]
  constructor
  · intro index kernel_le index_lt
    exact tables.shared vm.dir dir_mem index kernel_le index_lt
  · intro va kernel_le va_lt
    rw [vmKernTranslate_eq inv.tables kernel_le va_lt,
      archVmTranslate_eq tables (List.mem_cons_of_mem _ dir_mem) va_lt,
      tables.pteWord_kernel dir_mem kernel_le va_lt]

end Shared

/-- An address space that was created right after `vm_kern_init`. Its user half is empty, the kernel
half has not changed, and the frames that were marked at boot keep their bytes. -/
structure FreshSpace {Heap : Type*} (ops : HeapOps Heap) (sections : KernelSections)
    (boot : Kernel Heap) (kernelDir frame : ℕ) (kernel kernel' : Kernel Heap) : Prop where
  booted : vmKernInit sections boot = (.ok (), kernel)
  created : vmSpaceInit (x86Env ops) kernel = (.ok ⟨[], ⟨frame * 4096⟩⟩, kernel')
  tables : KernelTables kernelDir [frame] kernel'
  heap_eq : kernel'.heap = boot.heap
  total : kernel'.machine.pmm.totalFrames = boot.machine.pmm.totalFrames
  lowmem : kernel'.machine.pmm.lowSet.card + 258 = boot.machine.pmm.lowSet.card
  empty : ∀ index < 768, kernel'.machine.mem.word frame index = 0
  bootTables : KernelTables kernelDir [] kernel
  views : ∀ va < 2 ^ 32, pteWord kernel'.machine kernelDir va = pteWord kernel.machine kernelDir va
  bytes : ∀ other, boot.machine.pmm.Marked other →
    ByteMemory.AgreeOn boot.machine.mem kernel'.machine.mem other

/-- LowMem for the kernel tables and a directory is enough. -/
theorem exists_freshSpace {Heap : Type*} (ops : HeapOps Heap) {sections : KernelSections}
    {boot : Kernel Heap} (total_lt : boot.machine.pmm.totalFrames < 2 ^ 32)
    (lowmem : 258 ≤ boot.machine.pmm.lowSet.card)
    (text : SectionBounds sections.textStart sections.textEnd)
    (rodata : SectionBounds sections.rodataStart sections.rodataEnd) :
    ∃ kernelDir frame kernel kernel',
      FreshSpace ops sections boot kernelDir frame kernel kernel' := by
  obtain ⟨_, machine, booted, _⟩ := vmKernInit_ok total_lt (by omega) text rodata
  obtain ⟨kernelDir, tables, heap_eq, total, card_eq, kept⟩ := vmKernInit_kept total_lt booted
  rcases @vmSpaceInit_cases _ ops _ _ _ tables with ⟨_, exhausted⟩ | ⟨frame, fresh, created⟩
  · obtain ⟨frame, member⟩ := Finset.card_pos.mp (Nat.lt_of_add_lt_add_right
      (show 0 + 257 < _ by rw [card_eq]; omega))
    exact absurd (freshFrame_iff.mpr member) (exhausted frame)
  obtain ⟨ready, _, bytes, views, _⟩ := attachedFrame_spec tables.tables fresh
  have lowSet_eq := lowSet_pmmMark fresh
  have pmm_eq := attachedFrame_pmm tables.tables fresh
  exact ⟨kernelDir, frame, _, _,
    { booted := booted
      created := created
      tables := ⟨pageTables_attachedFrame tables.tables fresh, ready tables.ready,
        tables.kernelVm_eq⟩
      heap_eq := heap_eq
      total := by rw [pmm_eq]; exact total
      lowmem := by rw [pmm_eq]; omega
      empty := fun index user => word_attachedFrame tables.tables fresh user
      bootTables := tables
      views := views kernelDir (List.mem_cons_self ..)
      bytes := fun other marked =>
        ((kept other).2 marked).trans (bytes other ((kept other).1.mpr marked).1) }⟩

namespace FreshSpace

variable {Heap : Type*} {ops : HeapOps Heap} {sections : KernelSections}
  {boot kernel kernel' : Kernel Heap} {kernelDir frame va : ℕ}
  (fresh : FreshSpace ops sections boot kernelDir frame kernel kernel')
include fresh

/-- The user half is unmapped. -/
theorem unmapped (user : va < kernelVirtOffset) :
    ¬ EntryPresent (pteWord kernel'.machine frame va) := by
  have absent := fresh.empty (va / 2 ^ 22) (by unfold kernelVirtOffset at user; omega)
  rw [pteWord, absent, if_neg (by decide)]
  decide

/-- The kernel half has its direct map, and nothing above it. -/
theorem kernelHalf (total_lt : boot.machine.pmm.totalFrames < 2 ^ 32) :
    DirectMapped kernelDir kernel'.machine ∧
      ∀ va, kernelVirtOffset + kernelDirectMapSize ≤ va → va < 2 ^ 32 →
        ¬ EntryPresent (pteWord kernel'.machine kernelDir va) := by
  obtain ⟨other, same, direct, absent⟩ := vmKernInit_eq_ok total_lt fresh.booted
  obtain rfl := same.dir_eq fresh.bootTables
  refine ⟨fun va lower upper => ?_, fun va beyond va_lt => ?_⟩
  · rw [fresh.views va (by unfold kernelVirtOffset kernelDirectMapSize at upper; omega)]
    exact direct va lower upper
  · rw [fresh.views va va_lt]
    exact absent va beyond va_lt

end FreshSpace

/-- The small machine has LowMem left after a fresh address space was created. -/
theorem smallKernelWith_attached (mem : ByteMemory) :
    ∃ kernelDir frame kernel kernel',
      FreshSpace bumpHeap smallSections (smallKernelWith mem) kernelDir frame kernel kernel' ∧
      510 ≤ kernel'.machine.pmm.lowSet.card := by
  have lowmem := Finset.card_le_card smallPmm_low
  rw [Nat.card_Ico] at lowmem
  have boot_lowmem : 768 ≤ (smallKernelWith mem).machine.pmm.lowSet.card := lowmem
  obtain ⟨kernelDir, frame, kernel, kernel', fresh⟩ := exists_freshSpace bumpHeap
    (by decide : 1024 < 2 ^ 32) (by omega : 258 ≤ (smallKernelWith mem).machine.pmm.lowSet.card)
    smallSections_text smallSections_rodata
  have card_eq := fresh.lowmem
  exact ⟨kernelDir, frame, kernel, kernel', fresh, by omega⟩

theorem smallKernel_attached :
    ∃ kernelDir frame other kernel kernel',
      FreshSpace bumpHeap smallSections smallKernel kernelDir frame kernel kernel' ∧
      FreshFrame kernel'.machine other := by
  obtain ⟨kernelDir, frame, kernel, kernel', fresh, lowmem⟩ :=
    smallKernelWith_attached smallKernel.machine.mem
  obtain ⟨other, member⟩ : kernel'.machine.pmm.lowSet.Nonempty := Finset.card_pos.mp (by omega)
  exact ⟨kernelDir, frame, other, kernel, kernel', fresh, freshFrame_iff.mpr member⟩

/-- A page that the kernel maps after an address space was created shows up in this space. -/
theorem kernelHalf_shared_of_run_small :
    ∃ kernel vm kernel' kernel'', vmKernInit smallSections smallKernel = (.ok (), kernel) ∧
      vmSpaceInit (x86Env bumpHeap) kernel = (.ok vm, kernel') ∧
      vmKernTranslate kernel' 0xF8000000 = .error .noent ∧
      vmKernMap kernel' 0xF8000000 0x200000 0x1000 (vmRead ||| vmWrite) = (.ok (), kernel'') ∧
      vmKernTranslate kernel'' 0xF8000000 = .ok 0x200000 ∧
      archVmTranslate kernel''.machine vm.arch 0xF8000000 = .ok 0x200000 := by
  obtain ⟨kernelDir, frame, _, kernel, kernel', fresh, _⟩ := smallKernel_attached
  have unmapped := (fresh.kernelHalf (by decide)).2 0xF8000000 (by decide) (by decide)
  have range : PageRange 0xF8000000 0x1000 := ⟨by decide, by decide, by decide, by decide⟩
  obtain ⟨machine, mapped, rewritten⟩ := vmKernMap_unmapped fresh.tables range (by decide)
    (by decide : 0x200000 % 4096 = 0)
    (fun page page_lt => by obtain rfl : page = 0 := Nat.lt_one_iff.mp page_lt; exact unmapped)
    (vmRead ||| vmWrite)
  have before : vmKernTranslate kernel' 0xF8000000 = .error .noent := by
    rw [vmKernTranslate_eq fresh.tables (by decide) (by decide), if_neg unmapped]
  have translated : vmKernTranslate { kernel' with machine := machine } 0xF8000000 =
      .ok 0x200000 := by
    have word_eq := rewritten.replaced kernelDir (List.mem_cons_self ..) 0xF8000000 (by decide)
      (mem_rangeOf.mpr ⟨⟨le_rfl, by decide⟩, .inl rfl⟩)
    rw [vmKernTranslate_eq (fresh.tables.rewritten rewritten) (by decide) (by decide), word_eq]
    rfl
  have created_step : VmStep bumpHeap ⟨kernel, [], ∅⟩ _ := .spaceInit fresh.created
  have mapped_step : VmStep bumpHeap ⟨kernel', [⟨[], ⟨frame * 4096⟩⟩], ∅⟩
      ⟨{ kernel' with machine := machine }, [⟨[], ⟨frame * 4096⟩⟩], ∅⟩ :=
    .own (.kernCall (show kernCall (.map ..) _ = _ from mapped))
  have shared := kernelHalf_shared_of_run (by decide) fresh.booted
    ((Relation.ReflTransGen.single created_step).tail mapped_step) _ (List.mem_singleton_self _)
  exact ⟨kernel, _, _, _, fresh.booted, fresh.created, before, mapped, translated,
    (shared.2 0xF8000000 (by decide) (by decide)).trans translated⟩

/-- A fresh address space can map one page to any physical page. -/
theorem vmMap_first_page {Heap : Type*} {ops : HeapOps Heap} {kernel : Kernel Heap} {heap : Heap}
    {kernelDir dir virt phys size ptr frame : ℕ} {dirs : List ℕ}
    (inv : KernelTables kernelDir dirs kernel)
    (member : dir ∈ dirs) (args : VmMapArgs virt phys size) (one : size / 4096 = 1)
    (fits : virt + size ≤ 2 ^ 32) (fresh : FreshFrame kernel.machine frame)
    (unmapped : ¬ EntryPresent (pteWord kernel.machine dir virt))
    (allocated : ops.kmalloc kernel.heap vmaSize = (ptr, heap))
    (pointer : kerrPtrIsErr ptr = false) (flags : ℕ) :
    ∃ vm' kernel', vmMap (x86Env ops) ⟨[], ⟨dir * 4096⟩⟩ virt phys size flags kernel =
        (.ok (), vm', kernel') ∧
      archVmTranslate kernel'.machine vm'.arch virt = .ok (phys % 2 ^ 32) := by
  have size_pos : 0 < size := (vmUserRangeValid_iff.mp args.user).1
  have range : PageRange virt size := ⟨args.virt_mod, args.size_mod, size_pos, fits⟩
  have mappable : Mappable kernelDir dirs dir virt := Or.inl member
  obtain ⟨done, machine, _, _, start, outcome⟩ := archVmMap_cases inv.tables inv.ready mappable
    range args.phys_mod flags
  have mapped : archVmMap kernel.machine ⟨dir * 4096⟩ virt phys size flags = (.ok (), machine) := by
    rcases outcome with ⟨mapped, _⟩ | ⟨_, _, done_lt, ⟨_, _, exhausted⟩ | ⟨_, taken⟩⟩
    · exact mapped
    · rw [start (by omega)] at exhausted
      exact absurd fresh (exhausted frame)
    · obtain rfl : done = 0 := by omega
      exact absurd taken unmapped
  have allocated' : (x86Env ops).kmalloc kernel vmaSize = (ptr, { kernel with heap := heap }) := by
    simp only [x86Env, allocated]
  have mapped' : (x86Env ops).archVmMap { kernel with heap := heap } ⟨dir * 4096⟩ virt phys size
      flags = (.ok (), { kernel with machine := machine, heap := heap }) := by
    simp only [x86Env, Kernel.lift, mapped]
  have result := (vmMap_eq args (rfl : vmAddPosition virt ((virt + size) % 2 ^ 32)
    (⟨[], ⟨dir * 4096⟩⟩ : VmSpace).vmas = some ([], [])) allocated' pointer).1 mapped'
  have translated :=
    archVmMap_translate inv.tables inv.ready mappable range args.phys_mod mapped size_pos
  rw [Nat.add_zero, Nat.add_zero] at translated
  exact ⟨_, _, result, translated⟩

/-- On the small machine, a fresh address space can map one page to any physical page. -/
theorem smallKernel_map {phys : ℕ} (phys_mod : phys % 4096 = 0) (phys_lt : phys < 2 ^ 64)
    (flags : ℕ) :
    ∃ kernel vm kernel' vm' kernel'', vmKernInit smallSections smallKernel = (.ok (), kernel) ∧
      vmSpaceInit (x86Env bumpHeap) kernel = (.ok vm, kernel') ∧
      vmMap (x86Env bumpHeap) vm 0x1000 phys 0x1000 flags kernel' = (.ok (), vm', kernel'') ∧
      archVmTranslate kernel''.machine vm'.arch 0x1000 = .ok (phys % 2 ^ 32) := by
  obtain ⟨_, _, other, kernel, kernel', space, fresh⟩ := smallKernel_attached
  have args : VmMapArgs 0x1000 phys 0x1000 :=
    ⟨by decide, phys_mod, by decide, by decide, (vmPhysRangeValid_iff phys_lt).mpr (by omega)⟩
  obtain ⟨vm', kernel'', mapped, translated⟩ := vmMap_first_page space.tables
    (List.mem_singleton_self _) args (by decide) (by decide) fresh (space.unmapped (by decide))
    (rfl : bumpHeap.kmalloc kernel'.heap vmaSize = (kernel'.heap, kernel'.heap + vmaSize))
    (by rw [space.heap_eq]; decide) flags
  exact ⟨kernel, _, _, vm', kernel'', space.booted, space.created, mapped, translated⟩

/-! ## Conservation of table frames -/

/-- A step while one address space is set up and torn down: a call on this address space, or a step
that concerns no address space. -/
inductive BracketStep {Heap : Type*} (ops : HeapOps Heap) (others : List VmSpace) :
    VmSystem Heap → VmSystem Heap → Prop
  | vmCall {kernel kernel' : Kernel Heap} {callers : Set ℕ} {vm vm' : VmSpace} {op : VmOp}
      {status : Status} (call : vmCall (x86Env ops) op vm kernel = (status, vm', kernel')) :
      BracketStep ops others ⟨kernel, vm :: others, callers⟩ ⟨kernel', vm' :: others, callers⟩
  | own {kernel kernel' : Kernel Heap} {callers callers' : Set ℕ} {vm : VmSpace}
      (step : OwnStep (kernel, callers) (kernel', callers')) :
      BracketStep ops others ⟨kernel, vm :: others, callers⟩ ⟨kernel', vm :: others, callers'⟩

section Conservation

variable {Heap : Type*} {ops : HeapOps Heap} {boot kernel kernel' : Kernel Heap} {kernelDir : ℕ}
  {reserved callers : Set ℕ} {sections : KernelSections} {system system' : VmSystem Heap}

theorem bracketSteps_inv {others : List VmSpace} (inv : system.Inv kernelDir reserved)
    (steps : Relation.ReflTransGen (BracketStep ops others) system system') :
    system'.Inv kernelDir reserved ∧ SameTables kernelDir (others.map VmSpace.dir)
      system.kernel.machine system'.kernel.machine := by
  induction steps with
  | refl => exact ⟨inv, SameTables.refl ..⟩
  | tail _ step induction =>
      obtain ⟨inv, same⟩ := induction
      cases step with
      | vmCall call =>
          obtain ⟨inv', _, same'⟩ := vmCall_inv
            (show VmSystem.Inv kernelDir reserved ⟨_, [] ++ _ :: others, _⟩ from inv) call
          exact ⟨inv', same.trans same'⟩
      | own step =>
          obtain ⟨inv', same'⟩ := step.inv inv
          exact ⟨inv', same.trans ⟨fun dir member => same'.1 dir (by simp [member]), same'.2⟩⟩

/-- Setting up an address space, working on it and destroying it returns every table frame. -/
theorem bracket_marked {last : VmSystem Heap} {vm vm' vm'' : VmSpace} {status : Status}
    (inv : system.Inv kernelDir reserved)
    (create : vmSpaceInit (x86Env ops) system.kernel = (.ok vm, kernel))
    (steps : Relation.ReflTransGen (BracketStep ops system.spaces)
      ⟨kernel, vm :: system.spaces, system.callers⟩ last)
    (spaces_eq : last.spaces = vm' :: system.spaces)
    (destroy : vmSpaceDestroy (x86Env ops) vm' last.kernel = (status, vm'', kernel')) (frame : ℕ) :
    kernel'.machine.pmm.Marked frame ↔
      (system.kernel.machine.pmm.Marked frame ∧ frame ∉ system.callers) ∨ frame ∈ last.callers := by
  obtain ⟨inv₁, same₁⟩ := vmSpaceInit_inv inv create
  obtain ⟨inv₂, same₂⟩ := bracketSteps_inv inv₁ steps
  obtain ⟨last_kernel, last_spaces, last_callers⟩ := last
  obtain rfl := spaces_eq
  obtain ⟨inv₃, _, machine_eq⟩ := vmSpaceDestroy_inv
    (show VmSystem.Inv kernelDir reserved ⟨_, [] ++ _ :: system.spaces, _⟩ from inv₂) destroy
  have same : SameTables kernelDir system.dirs system.kernel.machine kernel'.machine := by
    refine (same₁.trans same₂).trans ?_
    rw [machine_eq]
    exact ⟨fun _ _ _ _ => rfl, fun _ _ _ => rfl⟩
  have residue := inv.residue frame
  have residue₃ := inv₃.residue frame
  have owned := same.owned_iff frame
  rw [inv.tables.tables.marked_iff, inv₃.tables.tables.marked_iff]
  simp only [VmSystem.dirs, List.nil_append] at residue residue₃ owned ⊢
  rw [residue₃, residue, owned]
  constructor
  · rintro ((frame_reserved | member) | ⟨slot, slot_owned, same_frame⟩)
    · exact Or.inl ⟨Or.inl (Or.inl frame_reserved),
        fun member => inv.disjoint frame member frame_reserved⟩
    · exact Or.inr member
    · refine Or.inl ⟨Or.inr ⟨slot, slot_owned, same_frame⟩, fun member => ?_⟩
      exact ((inv.residue frame).mpr (Or.inr member)).2 slot slot_owned same_frame
  · rintro (⟨(frame_reserved | member) | used, foreign⟩ | member)
    · exact Or.inl (Or.inl frame_reserved)
    · exact absurd member foreign
    · exact Or.inr used
    · exact Or.inl (Or.inr member)

/-- The frames of different address spaces are pairwise distinct, and all are marked. -/
theorem VmSystem.Inv.spaceFrames_nodup (inv : system.Inv kernelDir reserved) :
    (system.spaces.flatMap fun vm => spaceFrames system.kernel.machine vm.dir).Nodup ∧
      ∀ frame ∈ system.spaces.flatMap fun vm => spaceFrames system.kernel.machine vm.dir,
        system.kernel.machine.pmm.Marked frame := by
  have tables := inv.tables.tables
  have split {vm : VmSpace} (member : vm ∈ system.spaces) : ∃ before after,
      system.dirs = before ++ vm.dir :: after :=
    List.append_of_mem (VmSystem.dir_mem member)
  have slot_of {vm : VmSpace} (member : vm ∈ system.spaces) {frame : ℕ}
      (frame_mem : frame ∈ spaceFrames system.kernel.machine vm.dir) :
      ∃ slot, Owned kernelDir system.dirs system.kernel.machine slot ∧
        slot.frame system.kernel.machine = frame ∧
        (slot = .directory vm.dir ∨ ∃ index < 768, slot = .table vm.dir index) := by
    obtain ⟨before, after, dirs_eq⟩ := split member
    rw [dirs_eq] at tables ⊢
    exact (mem_spaceFrames_iff tables).mp frame_mem
  constructor
  · rw [List.nodup_flatMap]
    constructor
    · intro vm member
      obtain ⟨before, after, dirs_eq⟩ := split member
      rw [dirs_eq] at tables
      exact ItWorksOS.spaceFrames_nodup tables
    · have distinct := (List.nodup_cons.mp tables.nodup).2
      rw [VmSystem.dirs, List.Nodup, List.pairwise_map] at distinct
      refine List.Pairwise.imp_of_mem ?_ distinct
      intro left right left_mem right_mem dirs_ne frame left_frame right_frame
      obtain ⟨slot, owned, frame_eq, kind⟩ := slot_of left_mem left_frame
      obtain ⟨slot', owned', frame_eq', kind'⟩ := slot_of right_mem right_frame
      obtain rfl := tables.injective slot slot' owned owned' (frame_eq.trans frame_eq'.symm)
      rcases kind with rfl | ⟨_, _, rfl⟩ <;> rcases kind' with same | ⟨_, _, same⟩
      · exact dirs_ne (TableSlot.directory.inj same)
      · cases same
      · cases same
      · exact dirs_ne (TableSlot.table.inj same).1
  · intro frame frame_mem
    obtain ⟨vm, member, frame_mem⟩ := List.mem_flatMap.mp frame_mem
    obtain ⟨slot, owned, rfl, _⟩ := slot_of member frame_mem
    exact (tables.placed slot owned).2.2

/-- Along every run after `vm_kern_init`, the table frames of the live address spaces are pairwise
distinct and marked. Destroying an address space therefore succeeds, returns each of its frames
once and no frame of another owner, and a space that is created, used and destroyed leaves no frame
behind except those its callers allocated. -/
theorem tableFrames_conserved_of_run (total_lt : boot.machine.pmm.totalFrames < 2 ^ 32)
    (init : vmKernInit sections boot = (.ok (), kernel))
    (run : Relation.ReflTransGen (VmStep ops) ⟨kernel, [], ∅⟩ system) :
    let machine := system.kernel.machine
    let kernelDir := system.kernel.kernelVm.pdPhys / 4096
    ((system.spaces.flatMap fun vm => spaceFrames machine vm.dir).Nodup ∧
      ∀ frame ∈ system.spaces.flatMap fun vm => spaceFrames machine vm.dir,
        machine.pmm.Marked frame) ∧
    (∀ vm ∈ system.spaces, ∃ kernel', vmSpaceDestroy (x86Env ops) vm system.kernel =
        (.ok (), ⟨[], ⟨0⟩⟩, kernel') ∧
      kernel'.machine =
        { machine with pmm := pmmUnmarkAll machine.pmm (spaceFrames machine vm.dir) } ∧
      (∀ frame, kernel'.machine.pmm.Marked frame ↔
        machine.pmm.Marked frame ∧ frame ∉ spaceFrames machine vm.dir) ∧
      ∀ frame ∈ spaceFrames machine vm.dir, frame ≠ kernelDir ∧
        ∀ index, 768 ≤ index → index < 1024 → machine.mem.word kernelDir index / 4096 ≠ frame) ∧
    ∀ vm kernel₁, vmSpaceInit (x86Env ops) system.kernel = (.ok vm, kernel₁) →
      ∀ last, Relation.ReflTransGen (BracketStep ops system.spaces)
          ⟨kernel₁, vm :: system.spaces, system.callers⟩ last →
        ∀ vm', last.spaces = vm' :: system.spaces → ∀ status vm'' kernel₂,
          vmSpaceDestroy (x86Env ops) vm' last.kernel = (status, vm'', kernel₂) →
            status = .ok () ∧ ∀ frame, kernel₂.machine.pmm.Marked frame ↔
              (machine.pmm.Marked frame ∧ frame ∉ system.callers) ∨ frame ∈ last.callers := by
  intro machine kernelFrame
  obtain ⟨kernelDir, start⟩ := vmKernInit_inv total_lt init
  have inv := start.steps run
  have tables := inv.tables.tables
  have kernelFrame_eq : kernelFrame = kernelDir := by
    simp only [kernelFrame, inv.tables.kernelVm_eq]
    exact Nat.mul_div_cancel _ (by decide)
  refine ⟨inv.spaceFrames_nodup, ?_, ?_⟩
  · intro vm member
    obtain ⟨before, after, spaces_eq⟩ := List.append_of_mem member
    have dirs_eq : system.dirs = before.map VmSpace.dir ++ vm.dir :: after.map VmSpace.dir := by
      rw [VmSystem.dirs, spaces_eq, List.map_append, List.map_cons]
    have split := inv.tables
    rw [dirs_eq] at split
    obtain ⟨heap, destroyed⟩ := vmSpaceDestroy_eq split (inv.arch_eq vm member)
    refine ⟨_, destroyed, rfl, ?_, ?_⟩
    · intro frame
      rw [marked_pmmUnmarkAll]
      exact And.comm
    · intro frame frame_mem
      obtain ⟨slot, owned, rfl, kind⟩ := (mem_spaceFrames_iff split.tables).mp frame_mem
      rw [← dirs_eq] at owned
      have foreign {other : TableSlot} (other_owned : Owned kernelDir system.dirs machine other)
          (distinct : slot ≠ other) : slot.frame machine ≠ other.frame machine :=
        fun same => distinct (tables.injective slot other owned other_owned same)
      have vm_ne : vm.dir ≠ kernelDir := by
        intro same
        exact (List.nodup_cons.mp tables.nodup).1 (same ▸ VmSystem.dir_mem member)
      rw [kernelFrame_eq]
      constructor
      · refine foreign (PageTables.dir_owned (List.mem_cons_self ..)) ?_
        rintro rfl
        rcases kind with same | ⟨_, _, same⟩ <;> cases same
        exact vm_ne rfl
      · intro index kernel_le index_lt same
        refine foreign (show Owned kernelDir system.dirs machine (.table kernelDir index) from
          ⟨inv.tables.ready index kernel_le index_lt, Or.inr ⟨rfl, kernel_le, index_lt⟩⟩) ?_
          same.symm
        rintro rfl
        rcases kind with same | ⟨_, _, same⟩ <;> cases same
        omega
  · intro vm kernel₁ create last steps vm' spaces_eq status vm'' kernel₂ destroy
    refine ⟨?_, bracket_marked inv create steps spaces_eq destroy⟩
    have inv₂ := (bracketSteps_inv (vmSpaceInit_inv inv create).1 steps).1
    obtain ⟨last_kernel, last_spaces, last_callers⟩ := last
    obtain rfl := spaces_eq
    exact (vmSpaceDestroy_inv
      (show VmSystem.Inv kernelDir _ ⟨_, [] ++ _ :: system.spaces, _⟩ from inv₂) destroy).2.1

end Conservation

/-- An address space is created, maps a page and is destroyed, which leaves no frame behind. -/
theorem tableFrames_conserved_of_run_small :
    ∃ kernel vm kernel₁ vm' kernel₂ vm'' kernel₃,
      vmKernInit smallSections smallKernel = (.ok (), kernel) ∧
      vmSpaceInit (x86Env bumpHeap) kernel = (.ok vm, kernel₁) ∧
      vmMap (x86Env bumpHeap) vm 0x1000 0x200000 0x1000 (vmWrite ||| vmUser) kernel₁ =
        (.ok (), vm', kernel₂) ∧
      archVmTranslate kernel₂.machine vm'.arch 0x1000 = .ok 0x200000 ∧
      vmSpaceDestroy (x86Env bumpHeap) vm' kernel₂ = (.ok (), vm'', kernel₃) ∧
      ∀ frame, kernel₃.machine.pmm.Marked frame ↔ kernel.machine.pmm.Marked frame := by
  obtain ⟨kernel, vm, kernel₁, vm', kernel₂, booted, created, mapped, translated⟩ :=
    smallKernel_map (by decide : 0x200000 % 4096 = 0) (by decide) (vmWrite ||| vmUser)
  have called : vmCall (x86Env bumpHeap) (.map 0x1000 0x200000 0x1000 (vmWrite ||| vmUser)) vm
      kernel₁ = (.ok (), vm', kernel₂) := mapped
  have created_step : VmStep bumpHeap ⟨kernel, [], ∅⟩ ⟨kernel₁, [vm], ∅⟩ := .spaceInit created
  have mapped_step : VmStep bumpHeap ⟨kernel₁, [] ++ vm :: [], ∅⟩ ⟨kernel₂, [] ++ vm' :: [], ∅⟩ :=
    .vmCall called
  have bracket_step : BracketStep bumpHeap [] ⟨kernel₁, [vm], ∅⟩ ⟨kernel₂, [vm'], ∅⟩ :=
    .vmCall called
  obtain ⟨kernel₃, destroyed, _⟩ := (tableFrames_conserved_of_run (by decide) booted
    ((Relation.ReflTransGen.single created_step).tail mapped_step)).2.1 vm'
    (List.mem_singleton_self _)
  have bracket := (tableFrames_conserved_of_run (by decide) booted .refl).2.2 vm kernel₁ created _
    (.single bracket_step) vm' rfl _ _ _ destroyed
  refine ⟨kernel, vm, kernel₁, vm', kernel₂, _, kernel₃, booted, created, mapped, translated,
    destroyed, fun frame => ?_⟩
  rw [bracket.2 frame]
  simp

end ItWorksOS
