import ItWorksOS.Mm.KernelIsolation

/-!
# Areas and page tables agree

The list of areas says what an address space maps; the page tables say it again for the processor.
Along every run of `vm_map`, `vm_unmap` and `vm_protect` the two agree, with the physical addresses
that the calls of `vm_map` gave.
-/

namespace ItWorksOS

variable {Heap : Type*} {ops : HeapOps Heap} {kernel kernel' : Kernel Heap}
  {kernelDir dir virt phys size flags va : ℕ} {dirs : List ℕ} {vm vm' : VmSpace} {status : Status}

/-! ## Translation after mapping -/

/-- A successful `arch_vm_map` has page-aligned arguments. -/
theorem archVmMap_aligned {machine machine' : Machine} {arch : ArchVmSpace}
    (call : archVmMap machine arch virt phys size flags = (.ok (), machine')) :
    0 < size ∧ virt % 4096 = 0 ∧ phys % 4096 = 0 ∧ size % 4096 = 0 := by
  unfold archVmMap at call
  split at call
  · cases (Prod.mk.inj call).1
  split at call
  · cases (Prod.mk.inj call).1
  · rename_i size_ne checked
    simp only [Bool.or_eq_true, Bool.not_eq_true', not_or, Bool.not_eq_false, alignTest,
      decide_eq_true_eq, x86PageSize] at checked
    exact ⟨Nat.pos_of_ne_zero size_ne, checked.1.1, checked.1.2, checked.2⟩

/-- The low 32 bits are the whole address exactly when the physical range ends within 4 GiB. -/
theorem truncated_eq_iff (size_pos : 0 < size) :
    (∀ offset < size, (Except.ok ((phys + offset) % 2 ^ 32) : Except KError ℕ) =
      .ok (phys + offset)) ↔ phys + size ≤ 2 ^ 32 := by
  constructor
  · intro exact_all
    have last := Except.ok.inj (exact_all (size - 1) (by omega))
    have bound := Nat.mod_lt (phys + (size - 1)) (by decide : 0 < 2 ^ 32)
    omega
  · intro fits offset offset_lt
    rw [Nat.mod_eq_of_lt (by omega)]

/-- After a successful `vm_map` or `vm_kern_map`, the range translates to the physical range exactly
when this range ends within 4 GiB. -/
theorem translate_after_map_iff {boot booted : Kernel Heap} {sections : KernelSections}
    {system : VmSystem Heap} (total_lt : boot.machine.pmm.totalFrames < 2 ^ 32)
    (init : vmKernInit sections boot = (.ok (), booted))
    (run : Relation.ReflTransGen (VmStep ops) ⟨booted, [], ∅⟩ system) :
    (∀ vm ∈ system.spaces, ∀ virt phys size flags vm' kernel', virt + size < 2 ^ 32 →
      phys < 2 ^ 64 →
      vmMap (x86Env ops) vm virt phys size flags system.kernel = (.ok (), vm', kernel') →
        ((∀ offset < size, archVmTranslate kernel'.machine vm'.arch (virt + offset) =
          .ok (phys + offset)) ↔ phys + size ≤ 2 ^ 32)) ∧
      ∀ virt phys size flags kernel', virt + size < 2 ^ 32 → phys < 2 ^ 64 →
        vmPhysRangeValid phys size = true →
        vmKernMap system.kernel virt phys size flags = (.ok (), kernel') →
          ((∀ offset < size, archVmTranslate kernel'.machine kernel'.kernelVm (virt + offset) =
            .ok (phys + offset)) ↔ phys + size ≤ 2 ^ 32) := by
  obtain ⟨kernelDir, start⟩ := vmKernInit_inv total_lt init
  have inv := start.steps run
  obtain ⟨tables, ready, kernelVm_eq⟩ := inv.tables
  constructor
  · intro vm member virt phys size flags vm' kernel' fits _ call
    obtain ⟨args, _, _, _, middle, _, allocated, _, mapped, rfl⟩ := vmMap_eq_ok call
    obtain ⟨_, rfl⟩ := Prod.mk.inj allocated
    obtain ⟨status_eq, rfl⟩ := Prod.mk.inj mapped
    have size_pos := (vmUserRangeValid_iff.mp args.user).1
    have range : PageRange virt size := ⟨args.virt_mod, args.size_mod, size_pos, by omega⟩
    rw [← truncated_eq_iff size_pos]
    refine forall₂_congr fun offset offset_lt => ?_
    have arch_eq := inv.arch_eq vm member
    simp only [arch_eq] at status_eq ⊢
    rw [archVmMap_translate tables ready (Or.inl (VmSystem.dir_mem member)) range args.phys_mod
      (Prod.ext status_eq rfl) offset_lt]
  · intro virt phys size flags kernel' fits _ _ call
    unfold vmKernMap at call
    split at call
    · cases (Prod.mk.inj call).1
    · rename_i valid
      obtain ⟨_, kernel_le, _⟩ := vmKernRangeValid_iff.mp (by simpa using valid)
      obtain ⟨status_eq, rfl⟩ := Prod.mk.inj call
      obtain ⟨size_pos, virt_mod, phys_mod, size_mod⟩ := archVmMap_aligned (Prod.ext status_eq rfl)
      have range : PageRange virt size := ⟨virt_mod, size_mod, size_pos, by omega⟩
      rw [← truncated_eq_iff size_pos]
      refine forall₂_congr fun offset offset_lt => ?_
      simp only [kernelVm_eq] at status_eq ⊢
      rw [archVmMap_translate tables ready (Or.inr ⟨rfl, kernel_le⟩) range phys_mod
        (Prod.ext status_eq rfl) offset_lt]

theorem translate_after_map_iff_small :
    ∃ kernel vm kernel' vm' kernel'', vmKernInit smallSections smallKernel = (.ok (), kernel) ∧
      vmSpaceInit (x86Env bumpHeap) kernel = (.ok vm, kernel') ∧
      vmMap (x86Env bumpHeap) vm 0x1000 0x200000 0x1000 (vmWrite ||| vmUser) kernel' =
        (.ok (), vm', kernel'') ∧
      ∀ offset < 0x1000, archVmTranslate kernel''.machine vm'.arch (0x1000 + offset) =
        .ok (0x200000 + offset) := by
  obtain ⟨kernel, vm, kernel', vm', kernel'', booted, created, mapped, _⟩ :=
    smallKernel_map (by decide : 0x200000 % 4096 = 0) (by decide) (vmWrite ||| vmUser)
  have step : VmStep bumpHeap ⟨kernel, [], ∅⟩ ⟨kernel', [vm], ∅⟩ := .spaceInit created
  have meets := (translate_after_map_iff (by decide) booted (.single step)).1 vm
    (List.mem_singleton_self _) 0x1000 0x200000 0x1000 (vmWrite ||| vmUser) vm' kernel''
    (by decide) (by decide) mapped
  exact ⟨kernel, vm, kernel', vm', kernel'', booted, created, mapped, meets.mpr (by decide)⟩

/-- A physical address of 4 GiB is accepted and mapped to zero. -/
theorem translate_after_map_truncates :
    ∃ kernel vm kernel' vm' kernel'', vmKernInit smallSections smallKernel = (.ok (), kernel) ∧
      vmSpaceInit (x86Env bumpHeap) kernel = (.ok vm, kernel') ∧
      vmMap (x86Env bumpHeap) vm 0x1000 0x100000000 0x1000 (vmWrite ||| vmUser) kernel' =
        (.ok (), vm', kernel'') ∧
      archVmTranslate kernel''.machine vm'.arch 0x1000 = .ok 0 := by
  obtain ⟨kernel, vm, kernel', vm', kernel'', booted, created, mapped, translated⟩ :=
    smallKernel_map (by decide : 0x100000000 % 4096 = 0) (by decide) (vmWrite ||| vmUser)
  exact ⟨kernel, vm, kernel', vm', kernel'', booted, created, mapped, translated⟩

/-! ## Agreement -/

/-- The page tables of a directory map exactly its areas, and their entries are as required. -/
structure AreasShown (Shown : Vma → ℕ → ℕ → Prop) (dir : ℕ) (vmas : List Vma)
    (machine : Machine) : Prop where
  ok : VmasOk vmas
  mapped : ∀ vma ∈ vmas, ∀ va, vma.start ≤ va → va < vma.stop →
    Shown vma va (pteWord machine dir va)
  unmapped : ∀ va < kernelVirtOffset, (∀ vma ∈ vmas, ¬ (vma.start ≤ va ∧ va < vma.stop)) →
    ¬ EntryPresent (pteWord machine dir va)

namespace AreasShown

variable {Shown Shown' : Vma → ℕ → ℕ → Prop} {machine machine' : Machine} {vmas : List Vma}
  {before after : List Vma} {vma : Vma}

/-- Adding an area and mapping its range. -/
theorem insert {ptr : ℕ} (shown : AreasShown Shown dir (before ++ after) machine)
    (member : dir ∈ kernelDir :: dirs)
    (ok : VmasOk (before ++ ⟨virt, virt + size, flags, ptr⟩ :: after)) (size_mod : size % 4096 = 0)
    (rewritten : Rewritten kernelDir dirs dir machine machine' (rangeOf dir virt (size / 4096))
      (mapWord virt phys flags))
    (old : ∀ vma ∈ before ++ after, vma.start ≠ virt → ∀ va word, Shown vma va word →
      Shown' vma va word)
    (new : ∀ va, Shown' ⟨virt, virt + size, flags, ptr⟩ va (mapWord virt phys flags va)) :
    AreasShown Shown' dir (before ++ ⟨virt, virt + size, flags, ptr⟩ :: after) machine' := by
  have size_eq : 4096 * (size / 4096) = size := by omega
  have cases_mem {vma : Vma} (vma_mem : vma ∈ before ++ ⟨virt, virt + size, flags, ptr⟩ :: after) :
      vma = ⟨virt, virt + size, flags, ptr⟩ ∨ vma ∈ before ++ after :=
    List.mem_cons.mp (List.perm_middle.mem_iff.mp vma_mem)
  have old_mem {vma : Vma} (vma_mem : vma ∈ before ++ after) :
      vma ∈ before ++ ⟨virt, virt + size, flags, ptr⟩ :: after :=
    List.perm_middle.mem_iff.mpr (List.mem_cons_of_mem _ vma_mem)
  have new_mem : (⟨virt, virt + size, flags, ptr⟩ : Vma) ∈
      before ++ ⟨virt, virt + size, flags, ptr⟩ :: after := by simp
  have new_bounds : virt < virt + size ∧ virt % 4096 = 0 ∧ (virt + size) % 4096 = 0 ∧
      virt + size ≤ vmUserEnd := ok.bounds _ new_mem
  have apart {vma : Vma} (vma_mem : vma ∈ before ++ after) :
      vma.stop ≤ virt ∨ virt + size ≤ vma.start := ok.apart vma_mem
  have kept {va : ℕ} (va_lt : va < 2 ^ 32) (outside : ¬ (virt ≤ va ∧ va < virt + size)) :
      pteWord machine' dir va = pteWord machine dir va :=
    rewritten.kept_outside member (by omega) va_lt outside
  unfold vmUserEnd at new_bounds
  refine ⟨ok, ?_, ?_⟩
  · intro vma vma_mem va lower upper
    rcases cases_mem vma_mem with rfl | vma_mem
    · simp only at lower upper
      rw [rewritten.replaced dir member va (by omega) (mem_rangeOf.mpr ⟨by omega, Or.inl rfl⟩)]
      exact new va
    · have bounds := ok.bounds vma (old_mem vma_mem)
      have disjoint := apart vma_mem
      unfold vmUserEnd at bounds
      rw [kept (by omega) (by omega)]
      exact old vma vma_mem (by omega) va _ (shown.mapped vma vma_mem va lower upper)
  · intro va va_lt outside
    have not_new : ¬ (virt ≤ va ∧ va < virt + size) := outside _ new_mem
    unfold kernelVirtOffset at va_lt
    rw [kept (by omega) not_new]
    exact shown.unmapped va va_lt fun vma vma_mem => outside vma (old_mem vma_mem)

/-- Removing an area and clearing its range. -/
theorem erase (shown : AreasShown Shown dir (before ++ vma :: after) machine)
    (member : dir ∈ kernelDir :: dirs)
    (rewritten : Rewritten kernelDir dirs dir machine machine'
      (rangeOf dir vma.start ((vma.stop - vma.start) / 4096)) fun _ => 0) :
    AreasShown Shown dir (before ++ after) machine' := by
  have bounds := shown.ok.bounds vma (by simp)
  have size_eq : vma.start + 4096 * ((vma.stop - vma.start) / 4096) = vma.stop := by omega
  have old_mem {other : Vma} (other_mem : other ∈ before ++ after) :
      other ∈ before ++ vma :: after :=
    List.perm_middle.mem_iff.mpr (List.mem_cons_of_mem _ other_mem)
  have kept {va : ℕ} (va_lt : va < 2 ^ 32) (outside : ¬ (vma.start ≤ va ∧ va < vma.stop)) :
      pteWord machine' dir va = pteWord machine dir va :=
    rewritten.kept_outside member size_eq va_lt outside
  refine ⟨shown.ok.of_sublist ?_, ?_, ?_⟩
  · exact (List.Sublist.refl before).append (List.sublist_cons_self vma after)
  · intro other other_mem va lower upper
    have other_bounds := shown.ok.bounds other (old_mem other_mem)
    have := shown.ok.apart other_mem
    unfold vmUserEnd at other_bounds
    rw [kept (by omega) (by omega)]
    exact shown.mapped other (old_mem other_mem) va lower upper
  · intro va va_lt outside
    have va_small : va < 2 ^ 32 := by
      unfold kernelVirtOffset at va_lt
      omega
    by_cases inside : vma.start ≤ va ∧ va < vma.stop
    · rw [rewritten.replaced dir member va va_small
        (mem_rangeOf.mpr ⟨by rw [size_eq]; exact inside, Or.inl rfl⟩)]
      decide
    · rw [kept va_small inside]
      refine shown.unmapped va va_lt fun other other_mem => ?_
      simp only [List.mem_append, List.mem_cons] at other_mem
      rcases other_mem with other_mem | rfl | other_mem
      · exact outside other (by simp [other_mem])
      · exact inside
      · exact outside other (by simp [other_mem])

/-- Changing the flags of an area and of its range. -/
theorem protect (shown : AreasShown Shown dir (before ++ vma :: after) machine)
    (member : dir ∈ kernelDir :: dirs)
    (rewritten : Rewritten kernelDir dirs dir machine machine'
      (rangeOf dir vma.start ((vma.stop - vma.start) / 4096))
      fun va => pteValue (pteWord machine dir va) flags)
    (new : ∀ va word, Shown vma va word →
      Shown { vma with flags := flags } va (pteValue word flags)) :
    AreasShown Shown dir (before ++ { vma with flags := flags } :: after) machine' := by
  have bounds := shown.ok.bounds vma (by simp)
  have size_eq : vma.start + 4096 * ((vma.stop - vma.start) / 4096) = vma.stop := by omega
  have kept {va : ℕ} (va_lt : va < 2 ^ 32) (outside : ¬ (vma.start ≤ va ∧ va < vma.stop)) :
      pteWord machine' dir va = pteWord machine dir va :=
    rewritten.kept_outside member size_eq va_lt outside
  have old_mem {other : Vma} (other_mem : other ∈ before ++ after) :
      other ∈ before ++ vma :: after :=
    List.perm_middle.mem_iff.mpr (List.mem_cons_of_mem _ other_mem)
  have cases_mem {other : Vma}
      (other_mem : other ∈ before ++ { vma with flags := flags } :: after) :
      other = { vma with flags := flags } ∨ other ∈ before ++ after :=
    List.mem_cons.mp (List.perm_middle.mem_iff.mp other_mem)
  unfold vmUserEnd at bounds
  refine ⟨shown.ok.of_bounds (by simp), ?_, ?_⟩
  · intro other other_mem va lower upper
    rcases cases_mem other_mem with rfl | other_mem
    · simp only at lower upper
      rw [rewritten.replaced dir member va (by omega)
        (mem_rangeOf.mpr ⟨by rw [size_eq]; exact ⟨lower, upper⟩, Or.inl rfl⟩)]
      exact new va _ (shown.mapped vma (by simp) va lower upper)
    · have other_bounds := shown.ok.bounds other (old_mem other_mem)
      have := shown.ok.apart other_mem
      unfold vmUserEnd at other_bounds
      rw [kept (by omega) (by omega)]
      exact shown.mapped other (old_mem other_mem) va lower upper
  · intro va va_lt outside
    have not_vma : ¬ (vma.start ≤ va ∧ va < vma.stop) :=
      outside { vma with flags := flags } (by simp)
    have va_small : va < 2 ^ 32 := by
      unfold kernelVirtOffset at va_lt
      omega
    rw [kept va_small not_vma]
    refine shown.unmapped va va_lt fun other other_mem => ?_
    simp only [List.mem_append, List.mem_cons] at other_mem
    rcases other_mem with other_mem | rfl | other_mem
    · exact outside other (by simp [other_mem])
    · exact not_vma
    · exact outside other (by simp [other_mem])

end AreasShown

/-- The page tables of a directory show exactly the areas, each mapped to consecutive physical pages
from the address that created it. -/
structure VmAgree (dir : ℕ) (vmas : List Vma) (origin : ℕ → ℕ) (machine : Machine) : Prop where
  ok : VmasOk vmas
  origins : ∀ vma ∈ vmas, origin vma.start % 4096 = 0 ∧
    origin vma.start + (vma.stop - vma.start) ≤ 2 ^ 32
  mapped : ∀ vma ∈ vmas, ∀ va, vma.start ≤ va → va < vma.stop →
    pteWord machine dir va = mapWord vma.start (origin vma.start) vma.flags va
  unmapped : ∀ va < kernelVirtOffset, (∀ vma ∈ vmas, ¬ (vma.start ≤ va ∧ va < vma.stop)) →
    ¬ EntryPresent (pteWord machine dir va)

/-- An address space with the physical address that each successful `vm_map` gave. -/
structure VmTrack (Heap : Type*) where
  /-- The address space. -/
  vm : VmSpace
  /-- The state of memory management. -/
  kernel : Kernel Heap
  /-- Physical address by start address. -/
  origin : ℕ → ℕ

/-- End of the physical range of a call. -/
def VmOp.physEnd : VmOp → ℕ
  | .map _ phys size _ => phys + size
  | .unmap _ _ => 0
  | .protect _ _ _ => 0

/-- The physical addresses after a call. -/
def VmOp.track (op : VmOp) (status : Status) (origin : ℕ → ℕ) : ℕ → ℕ :=
  match op, status with
  | .map virt phys _ _, .ok () => Function.update origin virt phys
  | _, _ => origin

/-- The only way to run out of memory was `kmalloc`: no page-table frame was missing. -/
def TablesAllocated (ops : HeapOps Heap) (kernel : Kernel Heap) (status : Status) : Prop :=
  status = .error .nomem → kerrPtrIsErr (ops.kmalloc kernel.heap vmaSize).1 = true

/-- A call without a wrapping range, above no physical 4 GiB, that got its page tables. -/
inductive VmTrackStep (ops : HeapOps Heap) : VmTrack Heap → VmTrack Heap → Prop
  | call {track : VmTrack Heap} {op : VmOp} {status : Status} {vm' : VmSpace}
      {kernel' : Kernel Heap} (fits : op.rangeEnd < 2 ^ 32) (physical : op.physEnd ≤ 2 ^ 32)
      (call : vmCall (x86Env ops) op track.vm track.kernel = (status, vm', kernel'))
      (allocated : TablesAllocated ops track.kernel status) :
      VmTrackStep ops track ⟨vm', kernel', op.track status track.origin⟩

/-- When a call succeeds: `vm_map` for valid arguments on a range without areas and with heap memory
left, the other calls for exactly one whole area. -/
def VmOp.Succeeds (ops : HeapOps Heap) (vm : VmSpace) (kernel : Kernel Heap) : VmOp → Prop
  | .map virt phys size _ => VmMapArgs virt phys size ∧
      (∀ vma ∈ vm.vmas, ¬ (virt < vma.stop ∧ vma.start < virt + size)) ∧
      kerrPtrIsErr (ops.kmalloc kernel.heap vmaSize).1 = false
  | .unmap virt size => ∃ vma ∈ vm.vmas, vma.start = virt ∧ vma.stop = virt + size
  | .protect virt size _ => ∃ vma ∈ vm.vmas, vma.start = virt ∧ vma.stop = virt + size

section Agreement

variable {origin : ℕ → ℕ} {machine machine' : Machine} {vmas : List Vma}

/-- A range that overlaps no area is unmapped. -/
theorem VmAgree.range_unmapped (agree : VmAgree dir vmas origin machine)
    (user : virt + size ≤ kernelVirtOffset)
    (apart : ∀ vma ∈ vmas, ¬ (virt < vma.stop ∧ vma.start < virt + size)) {va : ℕ}
    (lower : virt ≤ va) (upper : va < virt + size) : ¬ EntryPresent (pteWord machine dir va) := by
  refine agree.unmapped va (by omega) fun vma member inside => ?_
  exact apart vma member (by omega)

/-- An area is mapped throughout. -/
theorem VmAgree.area_mapped (agree : VmAgree dir vmas origin machine) {vma : Vma}
    (member : vma ∈ vmas) {va : ℕ} (lower : vma.start ≤ va) (upper : va < vma.stop) :
    EntryPresent (pteWord machine dir va) := by
  rw [agree.mapped vma member va lower upper]
  exact pteValue_present ..

/-- Without a missing page table, a range that overlaps no area is mapped completely. -/
theorem archVmMap_of_agree (tables : PageTables kernelDir dirs machine)
    (ready : KernelReady kernelDir machine) (member : dir ∈ dirs)
    (agree : VmAgree dir vmas origin machine) (range : PageRange virt size)
    (phys_mod : phys % 4096 = 0) (user : virt + size ≤ kernelVirtOffset)
    (apart : ∀ vma ∈ vmas, ¬ (virt < vma.stop ∧ vma.start < virt + size))
    (allocated : (archVmMap machine ⟨dir * 4096⟩ virt phys size flags).1 ≠ .error .nomem) :
    ∃ machine', archVmMap machine ⟨dir * 4096⟩ virt phys size flags = (.ok (), machine') ∧
      Rewritten kernelDir dirs dir machine machine' (rangeOf dir virt (size / 4096))
        (mapWord virt phys flags) := by
  have size_mod := range.size_mod
  obtain ⟨done, machine', rewritten, _, _, outcome⟩ := archVmMap_cases tables ready
    (Or.inl member) range phys_mod flags
  rcases outcome with ⟨mapped, rfl⟩ | ⟨error, failed, done_lt, ⟨rfl, _⟩ | ⟨rfl, taken⟩⟩
  · exact ⟨machine', mapped, rewritten⟩
  · rw [failed] at allocated
    exact absurd rfl allocated
  · exact absurd taken (agree.range_unmapped user apart (by omega) (by omega))

/-- The entry that `vm_map` and `vm_protect` leave for a page of an area. -/
private def VmAgree.Word (origin : ℕ → ℕ) (vma : Vma) (va word : ℕ) : Prop :=
  word = mapWord vma.start (origin vma.start) vma.flags va

private theorem VmAgree.shown (agree : VmAgree dir vmas origin machine) :
    AreasShown (VmAgree.Word origin) dir vmas machine := ⟨agree.ok, agree.mapped, agree.unmapped⟩

/-- Adding an area and mapping its range keeps the agreement. -/
theorem VmAgree.insert {before after : List Vma} {ptr : ℕ}
    (agree : VmAgree dir (before ++ after) origin machine) (member : dir ∈ kernelDir :: dirs)
    (ok : VmasOk (before ++ ⟨virt, virt + size, flags, ptr⟩ :: after))
    (size_mod : size % 4096 = 0) (phys_mod : phys % 4096 = 0) (physical : phys + size ≤ 2 ^ 32)
    (rewritten : Rewritten kernelDir dirs dir machine machine' (rangeOf dir virt (size / 4096))
      (mapWord virt phys flags)) :
    VmAgree dir (before ++ ⟨virt, virt + size, flags, ptr⟩ :: after)
      (Function.update origin virt phys) machine' := by
  have moved {vma : Vma} (vma_mem : vma ∈ before ++ after) : vma.start ≠ virt := by
    have apart : vma.stop ≤ virt ∨ virt + size ≤ vma.start := ok.apart vma_mem
    have bounds := agree.ok.bounds vma vma_mem
    have new_bounds := ok.bounds ⟨virt, virt + size, flags, ptr⟩ (by simp)
    simp only at new_bounds
    omega
  have shown : AreasShown (VmAgree.Word (Function.update origin virt phys)) dir
      (before ++ ⟨virt, virt + size, flags, ptr⟩ :: after) machine' := by
    refine agree.shown.insert member ok size_mod rewritten ?_ ?_
    · intro vma _ start_ne va word word_eq
      rw [VmAgree.Word, Function.update_of_ne start_ne]
      exact word_eq
    · intro va
      rw [VmAgree.Word, Function.update_self]
  refine ⟨shown.ok, ?_, shown.mapped, shown.unmapped⟩
  intro vma vma_mem
  rcases List.mem_append.mp vma_mem with vma_mem | vma_mem
  · have old : vma ∈ before ++ after := List.mem_append_left _ vma_mem
    rw [Function.update_of_ne (moved old)]
    exact agree.origins vma old
  rcases List.mem_cons.mp vma_mem with rfl | vma_mem
  · simp only [Function.update_self]
    exact ⟨phys_mod, by omega⟩
  · have old : vma ∈ before ++ after := List.mem_append_right _ vma_mem
    rw [Function.update_of_ne (moved old)]
    exact agree.origins vma old

/-- Removing an area and clearing its range keeps the agreement. -/
theorem VmAgree.erase {before after : List Vma} {vma : Vma}
    (agree : VmAgree dir (before ++ vma :: after) origin machine)
    (member : dir ∈ kernelDir :: dirs)
    (rewritten : Rewritten kernelDir dirs dir machine machine'
      (rangeOf dir vma.start ((vma.stop - vma.start) / 4096)) fun _ => 0) :
    VmAgree dir (before ++ after) origin machine' := by
  have shown := agree.shown.erase member rewritten
  refine ⟨shown.ok, fun other other_mem => agree.origins other ?_, shown.mapped, shown.unmapped⟩
  exact List.perm_middle.mem_iff.mpr (List.mem_cons_of_mem _ other_mem)

/-- Changing the flags of an area and of its range keeps the agreement. -/
theorem VmAgree.protect {before after : List Vma} {vma : Vma}
    (agree : VmAgree dir (before ++ vma :: after) origin machine)
    (member : dir ∈ kernelDir :: dirs)
    (rewritten : Rewritten kernelDir dirs dir machine machine'
      (rangeOf dir vma.start ((vma.stop - vma.start) / 4096))
      fun va => pteValue (pteWord machine dir va) flags) :
    VmAgree dir (before ++ { vma with flags := flags } :: after) origin machine' := by
  have shown := agree.shown.protect member rewritten fun va word word_eq => by
    have flags_lt := x86VmFlagsToPte_lt vma.flags
    rw [VmAgree.Word] at word_eq ⊢
    rw [word_eq]
    unfold mapWord pteValue
    dsimp only
    omega
  refine ⟨shown.ok, ?_, shown.mapped, shown.unmapped⟩
  intro other other_mem
  simp only [List.mem_append, List.mem_cons] at other_mem
  rcases other_mem with other_mem | rfl | other_mem
  · exact agree.origins other (by simp [other_mem])
  · exact agree.origins vma (by simp)
  · exact agree.origins other (by simp [other_mem])

/-- On a well-formed list, `vm_unmap` and `vm_protect` accept exactly the whole areas. -/
theorem vmWholeVma_eq_ok_iff (ok : VmasOk vm.vmas) (fits : virt + size < 2 ^ 32) {vma : Vma} :
    vmWholeVma vm virt size = .ok vma ↔
      vma ∈ vm.vmas ∧ vma.start = virt ∧ vma.stop = virt + size := by
  have end_eq : (virt + size) % 2 ^ 32 = virt + size := Nat.mod_eq_of_lt fits
  constructor
  · intro whole
    obtain ⟨_, _, _, member, start_eq, stop_eq⟩ := vmWholeVma_eq_ok whole
    exact ⟨member, start_eq, stop_eq.trans end_eq⟩
  · rintro ⟨member, rfl, stop_eq⟩
    have bounds := ok.bounds vma member
    have size_pos : 0 < size := by omega
    have valid : vmUserRangeValid vma.start size = true :=
      vmUserRangeValid_iff.mpr ⟨size_pos, by omega, Or.inl (by omega)⟩
    have found : vmFindVmaRange vm vma.start size = some vma :=
      (vmFindVmaRange_eq_some_iff ok fits).mpr ⟨member, size_pos, Nat.le_refl _, by omega⟩
    rw [vmWholeVma, if_neg (by omega), if_neg (by
      simp [alignTest_iff.mpr bounds.2.1, alignTest_iff.mpr (by omega : size % 4096 = 0)]),
      if_neg (by simp [valid]), found]
    simp only
    rw [if_neg (by rw [end_eq]; omega)]

/-- `vm_unmap` on an area that is mapped throughout. -/
theorem vmUnmap_area {vma : Vma} (inv : KernelTables kernelDir dirs kernel) (member : dir ∈ dirs)
    (arch_eq : vm.arch = ⟨dir * 4096⟩) (ok : VmasOk vm.vmas) (vma_mem : vma ∈ vm.vmas)
    (stop_eq : vma.stop = vma.start + size)
    (mapped : ∀ va, vma.start ≤ va → va < vma.stop →
      EntryPresent (pteWord kernel.machine dir va)) :
    ∃ machine', vmUnmap (x86Env ops) vm vma.start size kernel =
        (.ok (), { vm with vmas := vm.vmas.erase vma },
          { kernel with machine := machine', heap := (ops.kfree kernel.heap vma.ptr).2 }) ∧
      archVmUnmap kernel.machine vm.arch vma.start size = (.ok (), machine') ∧
      Rewritten kernelDir dirs dir kernel.machine machine'
        (rangeOf dir vma.start ((vma.stop - vma.start) / 4096)) fun _ => 0 := by
  have bounds := ok.bounds vma vma_mem
  unfold vmUserEnd at bounds
  have range : PageRange vma.start size := ⟨bounds.2.1, by omega, by omega, by omega⟩
  have whole := (vmWholeVma_eq_ok_iff ok (by omega)).mpr ⟨vma_mem, rfl, stop_eq⟩
  obtain ⟨done, machine', rewritten, _, ⟨passed, done_eq⟩ | ⟨_, done_lt, missing⟩⟩ :=
    archVmUnmap_cases inv.tables inv.ready (List.mem_cons_of_mem _ member) range
  · have size_eq : (vma.stop - vma.start) / 4096 = done := by omega
    rw [← arch_eq] at passed
    refine ⟨machine', ?_, passed, size_eq ▸ rewritten⟩
    rw [vmUnmap, whole]
    simp only [x86Env, Kernel.lift, passed]
  · exact absurd (mapped _ (by omega) (by omega)) missing

/-- `vm_protect` on an area that is mapped throughout. -/
theorem vmProtect_area {vma : Vma} (inv : KernelTables kernelDir dirs kernel) (member : dir ∈ dirs)
    (arch_eq : vm.arch = ⟨dir * 4096⟩) (ok : VmasOk vm.vmas) (vma_mem : vma ∈ vm.vmas)
    (stop_eq : vma.stop = vma.start + size)
    (mapped : ∀ va, vma.start ≤ va → va < vma.stop →
      EntryPresent (pteWord kernel.machine dir va)) (flags : ℕ) :
    ∃ machine', vmProtect (x86Env ops) vm vma.start size flags kernel =
        (.ok (), { vm with vmas := vm.vmas.replace vma { vma with flags := flags } },
          { kernel with machine := machine' }) ∧
      archVmProtect kernel.machine vm.arch vma.start size flags = (.ok (), machine') ∧
      Rewritten kernelDir dirs dir kernel.machine machine'
        (rangeOf dir vma.start ((vma.stop - vma.start) / 4096))
        fun va => pteValue (pteWord kernel.machine dir va) flags := by
  have bounds := ok.bounds vma vma_mem
  unfold vmUserEnd at bounds
  have range : PageRange vma.start size := ⟨bounds.2.1, by omega, by omega, by omega⟩
  have whole := (vmWholeVma_eq_ok_iff ok (by omega)).mpr ⟨vma_mem, rfl, stop_eq⟩
  obtain ⟨done, machine', rewritten, _, ⟨passed, done_eq⟩ | ⟨_, done_lt, missing⟩⟩ :=
    archVmProtect_cases inv.tables inv.ready (List.mem_cons_of_mem _ member) range flags
  · have size_eq : (vma.stop - vma.start) / 4096 = done := by omega
    rw [← arch_eq] at passed
    refine ⟨machine', ?_, passed, size_eq ▸ rewritten⟩
    rw [vmProtect, whole]
    simp only [x86Env, Kernel.lift, passed]
  · exact absurd (mapped _ (by omega) (by omega)) missing

/-- What a call does to an address space whose areas and tables agree. -/
structure VmCallSpec (kernelDir dir : ℕ) (dirs : List ℕ) (ops : HeapOps Heap) (op : VmOp)
    (vm vm' : VmSpace) (kernel kernel' : Kernel Heap) (origin : ℕ → ℕ) (status : Status) :
    Prop where
  inv : KernelTables kernelDir dirs kernel'
  arch_eq : vm'.arch = vm.arch
  agree : VmAgree dir vm'.vmas (op.track status origin) kernel'.machine
  succeeds : status = .ok () ↔ op.Succeeds ops vm kernel
  failed : status ≠ .ok () → vm' = vm ∧ kernel'.machine = kernel.machine

theorem VmCallSpec.of_failure {op : VmOp} {heap : Heap} {error : KError}
    (inv : KernelTables kernelDir dirs kernel) (agree : VmAgree dir vm.vmas origin kernel.machine)
    (refused : ¬ op.Succeeds ops vm kernel) :
    VmCallSpec kernelDir dir dirs ops op vm vm kernel { kernel with heap := heap } origin
      (.error error) := by
  refine ⟨inv.with_heap heap, rfl, ?_, ⟨nofun, fun good => absurd good refused⟩,
    fun _ => ⟨rfl, rfl⟩⟩
  cases op <;> exact agree

/-- `vm_map` keeps the agreement. -/
theorem vmMap_spec (inv : KernelTables kernelDir dirs kernel) (member : dir ∈ dirs)
    (arch_eq : vm.arch = ⟨dir * 4096⟩) (agree : VmAgree dir vm.vmas origin kernel.machine)
    (fits : virt + size < 2 ^ 32) (physical : phys + size ≤ 2 ^ 32)
    (call : vmMap (x86Env ops) vm virt phys size flags kernel = (status, vm', kernel'))
    (allocated : TablesAllocated ops kernel status) :
    VmCallSpec kernelDir dir dirs ops (.map virt phys size flags) vm vm' kernel kernel' origin
      status := by
  have end_eq : (virt + size) % 2 ^ 32 = virt + size := Nat.mod_eq_of_lt fits
  rcases vmMap_cases (x86Env ops) vm virt phys size flags kernel with
    ⟨invalid, result⟩ | ⟨args, ⟨overlap, result⟩ |
      ⟨before, after, ptr, middle, position, kmalloc_eq,
      outcome⟩⟩
  · rw [result] at call
    cases call
    exact .of_failure inv agree fun good => invalid good.1
  · rw [result] at call
    cases call
    rw [end_eq, vmAddPosition_eq_none_iff agree.ok] at overlap
    obtain ⟨vma, vma_mem, crossing⟩ := overlap
    exact .of_failure inv agree fun good => good.2.1 vma vma_mem crossing
  obtain ⟨ptr_eq, rfl⟩ := Prod.mk.inj kmalloc_eq
  obtain ⟨split, ok⟩ := vmasOk_insert agree.ok args fits flags ptr position
  rw [end_eq] at position ok
  have apart : ∀ vma ∈ vm.vmas, ¬ (virt < vma.stop ∧ vma.start < virt + size) := by
    intro vma vma_mem crossing
    have none_eq := (vmAddPosition_eq_none_iff agree.ok).mpr ⟨vma, vma_mem, crossing⟩
    rw [none_eq] at position
    cases position
  have user : virt + size ≤ kernelVirtOffset := by
    have bounds := vmUserRangeValid_iff.mp args.user
    unfold vmUserEnd at bounds
    unfold kernelVirtOffset
    omega
  have size_pos := (vmUserRangeValid_iff.mp args.user).1
  have range : PageRange virt size := ⟨args.virt_mod, args.size_mod, size_pos, by omega⟩
  have mapped_ok (pointer : kerrPtrIsErr ptr = false)
      (found : (archVmMap kernel.machine vm.arch virt phys size flags).1 ≠ .error .nomem) :
      (archVmMap kernel.machine vm.arch virt phys size flags).1 = .ok () ∧
      VmCallSpec kernelDir dir dirs ops (.map virt phys size flags) vm
        { vm with vmas := before ++ ⟨virt, virt + size, flags, ptr⟩ :: after } kernel
        { kernel with
          machine := (archVmMap kernel.machine vm.arch virt phys size flags).2
          heap := (ops.kmalloc kernel.heap vmaSize).2 } origin (.ok ()) := by
    rw [arch_eq] at found ⊢
    obtain ⟨machine', mapped, rewritten⟩ := archVmMap_of_agree inv.tables inv.ready member agree
      range args.phys_mod user apart found
    rw [mapped]
    refine ⟨rfl, ⟨rewritten.tables, rewritten.ready, inv.kernelVm_eq⟩, arch_eq.symm, ?_,
      ⟨fun _ => ⟨args, apart, ?_⟩, fun _ => rfl⟩, fun bad => absurd rfl bad⟩
    · exact (split ▸ agree).insert (List.mem_cons_of_mem _ member) ok args.size_mod args.phys_mod
        physical rewritten
    · rw [← pointer, ← ptr_eq]
  rcases outcome with ⟨failed, result⟩ | ⟨pointer, state', ⟨mapped, result⟩ |
      ⟨error, failed, result⟩⟩
  · rw [result] at call
    cases call
    refine .of_failure inv agree fun good => ?_
    have pointer := good.2.2
    rw [← ptr_eq] at failed
    exact absurd (failed.symm.trans pointer) (by decide)
  · obtain ⟨status_eq, rfl⟩ := Prod.mk.inj mapped
    simp only [end_eq] at result
    rw [result] at call
    cases call
    exact (mapped_ok pointer (by simp only [status_eq]; simp)).2
  · obtain ⟨status_eq, _⟩ := Prod.mk.inj failed
    simp only at status_eq
    rw [result] at call
    obtain ⟨rfl, _⟩ := Prod.mk.inj call
    have exhausted : error ≠ .nomem := by
      rintro rfl
      have bad := allocated rfl
      rw [← ptr_eq] at pointer
      exact absurd (bad.symm.trans pointer) (by decide)
    have found : (archVmMap kernel.machine vm.arch virt phys size flags).1 ≠ .error .nomem := by
      rw [status_eq]
      simpa using exhausted
    have success := (mapped_ok pointer found).1
    rw [status_eq] at success
    cases success

/-- `vm_unmap` keeps the agreement. -/
theorem vmUnmap_spec (inv : KernelTables kernelDir dirs kernel) (member : dir ∈ dirs)
    (arch_eq : vm.arch = ⟨dir * 4096⟩) (agree : VmAgree dir vm.vmas origin kernel.machine)
    (fits : virt + size < 2 ^ 32)
    (call : vmUnmap (x86Env ops) vm virt size kernel = (status, vm', kernel')) :
    VmCallSpec kernelDir dir dirs ops (.unmap virt size) vm vm' kernel kernel' origin status := by
  cases whole : vmWholeVma vm virt size with
  | error error =>
      rw [vmUnmap, whole] at call
      cases call
      refine .of_failure inv agree ?_
      rintro ⟨vma, vma_mem, start_eq, stop_eq⟩
      rw [(vmWholeVma_eq_ok_iff agree.ok fits).mpr ⟨vma_mem, start_eq, stop_eq⟩] at whole
      cases whole
  | ok vma =>
      obtain ⟨vma_mem, rfl, stop_eq⟩ := (vmWholeVma_eq_ok_iff agree.ok fits).mp whole
      obtain ⟨machine', result, _, rewritten⟩ := vmUnmap_area inv member arch_eq
        agree.ok vma_mem stop_eq fun _ lower upper => agree.area_mapped vma_mem lower upper
      rw [result] at call
      cases call
      obtain ⟨before, after, split, erased, _⟩ := agree.ok.split vma_mem
      refine ⟨⟨rewritten.tables, rewritten.ready, inv.kernelVm_eq⟩, rfl, ?_,
        ⟨fun _ => ⟨vma, vma_mem, rfl, stop_eq⟩, fun _ => rfl⟩, fun bad => absurd rfl bad⟩
      simp only [erased]
      rw [split] at agree
      exact agree.erase (List.mem_cons_of_mem _ member) rewritten

/-- `vm_protect` keeps the agreement. -/
theorem vmProtect_spec (inv : KernelTables kernelDir dirs kernel) (member : dir ∈ dirs)
    (arch_eq : vm.arch = ⟨dir * 4096⟩) (agree : VmAgree dir vm.vmas origin kernel.machine)
    (fits : virt + size < 2 ^ 32)
    (call : vmProtect (x86Env ops) vm virt size flags kernel = (status, vm', kernel')) :
    VmCallSpec kernelDir dir dirs ops (.protect virt size flags) vm vm' kernel kernel' origin
      status := by
  cases whole : vmWholeVma vm virt size with
  | error error =>
      rw [vmProtect, whole] at call
      cases call
      refine .of_failure inv agree ?_
      rintro ⟨vma, vma_mem, start_eq, stop_eq⟩
      rw [(vmWholeVma_eq_ok_iff agree.ok fits).mpr ⟨vma_mem, start_eq, stop_eq⟩] at whole
      cases whole
  | ok vma =>
      obtain ⟨vma_mem, rfl, stop_eq⟩ := (vmWholeVma_eq_ok_iff agree.ok fits).mp whole
      obtain ⟨machine', result, _, rewritten⟩ := vmProtect_area inv member arch_eq
        agree.ok vma_mem stop_eq (fun _ lower upper => agree.area_mapped vma_mem lower upper) flags
      rw [result] at call
      cases call
      obtain ⟨before, after, split, _, replaced⟩ := agree.ok.split vma_mem
      refine ⟨⟨rewritten.tables, rewritten.ready, inv.kernelVm_eq⟩, rfl, ?_,
        ⟨fun _ => ⟨vma, vma_mem, rfl, stop_eq⟩, fun _ => rfl⟩, fun bad => absurd rfl bad⟩
      simp only [replaced]
      rw [split] at agree
      exact agree.protect (List.mem_cons_of_mem _ member) rewritten

/-- Every call keeps the agreement. -/
theorem vmCall_spec {op : VmOp} (inv : KernelTables kernelDir dirs kernel) (member : dir ∈ dirs)
    (arch_eq : vm.arch = ⟨dir * 4096⟩) (agree : VmAgree dir vm.vmas origin kernel.machine)
    (fits : op.rangeEnd < 2 ^ 32) (physical : op.physEnd ≤ 2 ^ 32)
    (call : vmCall (x86Env ops) op vm kernel = (status, vm', kernel'))
    (allocated : TablesAllocated ops kernel status) :
    VmCallSpec kernelDir dir dirs ops op vm vm' kernel kernel' origin status := by
  cases op with
  | map virt phys size flags =>
      exact vmMap_spec inv member arch_eq agree fits physical call allocated
  | unmap virt size => exact vmUnmap_spec inv member arch_eq agree fits call
  | protect virt size flags => exact vmProtect_spec inv member arch_eq agree fits call

/-- Every run keeps the agreement. -/
theorem vmTrackSteps_agree {track track' : VmTrack Heap}
    (inv : KernelTables kernelDir dirs track.kernel) (member : dir ∈ dirs)
    (arch_eq : track.vm.arch = ⟨dir * 4096⟩)
    (agree : VmAgree dir track.vm.vmas track.origin track.kernel.machine)
    (steps : Relation.ReflTransGen (VmTrackStep ops) track track') :
    KernelTables kernelDir dirs track'.kernel ∧ track'.vm.arch = ⟨dir * 4096⟩ ∧
      VmAgree dir track'.vm.vmas track'.origin track'.kernel.machine := by
  induction steps with
  | refl => exact ⟨inv, arch_eq, agree⟩
  | tail _ step induction =>
      obtain ⟨inv, arch_eq, agree⟩ := induction
      cases step with
      | call fits physical call allocated =>
          have spec := vmCall_spec inv member arch_eq agree fits physical call allocated
          exact ⟨spec.inv, spec.arch_eq.trans arch_eq, spec.agree⟩

end Agreement

/-- The flag bits of a mapped entry. -/
theorem mapWord_flags (virt phys flags va : ℕ) :
    (mapWord virt phys flags va / 2 % 2 = 1 ↔ flags &&& vmWrite ≠ 0) ∧
      (mapWord virt phys flags va / 4 % 2 = 1 ↔ flags &&& vmUser ≠ 0) := pteValue_flags ..

/-- Along every run on a fresh address space, a user page is present exactly when an area contains
it, with the flags of the area and the physical address its `vm_map` gave. A call succeeds exactly
when its arguments allow it, and otherwise changes neither the areas nor the page tables. -/
theorem vm_agrees_of_run {boot booted : Kernel Heap} {sections : KernelSections}
    {system : VmSystem Heap} {origin : ℕ → ℕ} {track : VmTrack Heap}
    (total_lt : boot.machine.pmm.totalFrames < 2 ^ 32)
    (init : vmKernInit sections boot = (.ok (), booted))
    (run : Relation.ReflTransGen (VmStep ops) ⟨booted, [], ∅⟩ system)
    (create : vmSpaceInit (x86Env ops) system.kernel = (.ok vm, kernel))
    (calls : Relation.ReflTransGen (VmTrackStep ops) ⟨vm, kernel, origin⟩ track) :
    (∀ va < 0xC0000000, EntryPresent (pteWord track.kernel.machine track.vm.dir va) ↔
        ∃ vma ∈ track.vm.vmas, vma.start ≤ va ∧ va < vma.stop) ∧
      (∀ vma ∈ track.vm.vmas, ∀ va, vma.start ≤ va → va < vma.stop →
        (pteWord track.kernel.machine track.vm.dir va / 2 % 2 = 1 ↔ vma.flags &&& vmWrite ≠ 0) ∧
        (pteWord track.kernel.machine track.vm.dir va / 4 % 2 = 1 ↔ vma.flags &&& vmUser ≠ 0) ∧
        archVmTranslate track.kernel.machine track.vm.arch va =
          .ok (track.origin vma.start + (va - vma.start))) ∧
      ∀ op status vm' kernel', op.rangeEnd < 2 ^ 32 → op.physEnd ≤ 2 ^ 32 →
        vmCall (x86Env ops) op track.vm track.kernel = (status, vm', kernel') →
        TablesAllocated ops track.kernel status →
          (status = .ok () ↔ op.Succeeds ops track.vm track.kernel) ∧
          (status ≠ .ok () → vm' = track.vm ∧ kernel'.machine = track.kernel.machine) := by
  obtain ⟨kernelDir, start⟩ := vmKernInit_inv total_lt init
  have system_inv := start.steps run
  obtain ⟨inv, _⟩ := vmSpaceInit_inv system_inv create
  have member := VmSystem.dir_mem (show vm ∈
    (⟨kernel, vm :: system.spaces, system.callers⟩ : VmSystem Heap).spaces from
      List.mem_cons_self ..)
  have empty : VmAgree vm.dir vm.vmas origin kernel.machine := by
    rcases vmSpaceInit_cases system_inv.tables with ⟨failed, _⟩ | ⟨frame, fresh, created⟩
    · rw [failed] at create
      cases create
    · rw [created] at create
      cases create
      obtain ⟨_, _, _, _, new_view⟩ := attachedFrame_spec system_inv.tables.tables fresh
      refine ⟨VmasOk.nil, by simp, by simp, ?_⟩
      intro va va_lt _
      rw [vmSpace_dir_eq, new_view va (by unfold kernelVirtOffset at va_lt; omega),
        if_neg (by omega)]
      decide
  obtain ⟨tables, arch_eq, agree⟩ := vmTrackSteps_agree inv.tables member
    (inv.arch_eq vm (List.mem_cons_self ..)) empty calls
  have dir_eq : track.vm.dir = vm.dir := by
    rw [VmSpace.dir, arch_eq]
    exact Nat.mul_div_cancel _ (by decide)
  rw [dir_eq]
  refine ⟨?_, ?_, ?_⟩
  · intro va va_lt
    constructor
    · intro present
      by_contra outside
      refine agree.unmapped va va_lt (fun vma vma_mem inside => ?_) present
      exact outside ⟨vma, vma_mem, inside⟩
    · rintro ⟨vma, vma_mem, lower, upper⟩
      exact agree.area_mapped vma_mem lower upper
  · intro vma vma_mem va lower upper
    have bounds := agree.ok.bounds vma vma_mem
    have origins := agree.origins vma vma_mem
    have word_eq := agree.mapped vma vma_mem va lower upper
    have flags := mapWord_flags vma.start (track.origin vma.start) vma.flags va
    have va_lt : va < 2 ^ 32 := by
      unfold vmUserEnd at bounds
      omega
    have small : (track.origin vma.start + (va - vma.start)) % 2 ^ 32 =
        track.origin vma.start + (va - vma.start) := Nat.mod_eq_of_lt (by omega)
    rw [arch_eq, archVmTranslate_mapWord tables.tables (List.mem_cons_of_mem _ member) va_lt
      bounds.2.1 origins.1 lower word_eq, word_eq, small]
    exact ⟨flags.1, flags.2, rfl⟩
  · intro op status vm' kernel' fits physical call allocated
    have spec := vmCall_spec tables member arch_eq agree fits physical call allocated
    exact ⟨spec.succeeds, spec.failed⟩

theorem vm_agrees_of_run_small :
    ∃ kernel vm kernel' vm' kernel'', vmKernInit smallSections smallKernel = (.ok (), kernel) ∧
      vmSpaceInit (x86Env bumpHeap) kernel = (.ok vm, kernel') ∧
      vmMap (x86Env bumpHeap) vm 0x1000 0x200000 0x1000 (vmWrite ||| vmUser) kernel' =
        (.ok (), vm', kernel'') ∧
      ∀ va < 0xC0000000, EntryPresent (pteWord kernel''.machine vm'.dir va) ↔
        ∃ vma ∈ vm'.vmas, vma.start ≤ va ∧ va < vma.stop := by
  obtain ⟨kernel, vm, kernel', vm', kernel'', booted, created, mapped, _⟩ :=
    smallKernel_map (by decide : 0x200000 % 4096 = 0) (by decide) (vmWrite ||| vmUser)
  have step : VmTrackStep bumpHeap ⟨vm, kernel', fun _ => 0⟩ ⟨vm', kernel'', _⟩ :=
    .call (by decide : (VmOp.map 0x1000 0x200000 0x1000 (vmWrite ||| vmUser)).rangeEnd < 2 ^ 32)
      (by decide) mapped nofun
  have agrees := vm_agrees_of_run (by decide) booted .refl created (.single step)
  exact ⟨kernel, vm, kernel', vm', kernel'', booted, created, mapped, agrees.1⟩

end ItWorksOS
