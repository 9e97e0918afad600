import ItWorksOS.Arch.X86.Spaces
import ItWorksOS.Mm.KheapRun
import ItWorksOS.Mm.Vmm

/-!
# Kernel mappings of `mm/kernel_vm.c`

The kernel has a directory of its own without a list of areas. `vm_kern_init` gives it a table for
every entry of the kernel half, so that later kernel mappings only fill these tables.
-/

namespace ItWorksOS

/-- The functions of a kernel heap. -/
structure HeapOps (Heap : Type*) where
  /-- `kmalloc`. -/
  kmalloc : Heap → ℕ → ℕ × Heap
  /-- `kfree`. -/
  kfree : Heap → ℕ → Status × Heap

/-- The state of memory management: physical memory, the heap and `kernel_vm`. -/
structure Kernel (Heap : Type*) where
  /-- Physical memory and its allocator. -/
  machine : Machine
  /-- Kernel heap. -/
  heap : Heap
  /-- `kernel_vm`. -/
  kernelVm : ArchVmSpace

/-- Linker symbols that delimit the read-only sections. -/
structure KernelSections where
  /-- `__text_start`. -/
  textStart : ℕ
  /-- `__text_end`. -/
  textEnd : ℕ
  /-- `__rodata_start`. -/
  rodataStart : ℕ
  /-- `__rodata_end`. -/
  rodataEnd : ℕ

variable {Heap : Type*}

/-- The effect of a function of the architecture layer. -/
def Kernel.lift {α : Type*} (kernel : Kernel Heap) (result : α × Machine) : α × Kernel Heap :=
  (result.1, { kernel with machine := result.2 })

/-- `vm_kern_range_valid`. -/
def vmKernRangeValid (virt size : ℕ) : Bool :=
  if size = 0 then false
  else if virt < kernelVirtOffset then false
  else if 2 ^ 32 - 1 - virt < size - 1 then false
  else true

/-- `vm_kern_map`. -/
def vmKernMap (kernel : Kernel Heap) (virt phys size flags : ℕ) : Status × Kernel Heap :=
  if !vmKernRangeValid virt size then (.error .inval, kernel)
  else kernel.lift (archVmMap kernel.machine kernel.kernelVm virt phys size flags)

/-- `vm_kern_unmap`. -/
def vmKernUnmap (kernel : Kernel Heap) (virt size : ℕ) : Status × Kernel Heap :=
  if !vmKernRangeValid virt size then (.error .inval, kernel)
  else kernel.lift (archVmUnmap kernel.machine kernel.kernelVm virt size)

/-- `vm_kern_protect`. -/
def vmKernProtect (kernel : Kernel Heap) (virt size flags : ℕ) : Status × Kernel Heap :=
  if !vmKernRangeValid virt size then (.error .inval, kernel)
  else kernel.lift (archVmProtect kernel.machine kernel.kernelVm virt size flags)

/-- `vm_kern_attach`. -/
def vmKernAttach (kernel : Kernel Heap) (vm : ArchVmSpace) : Status × Kernel Heap :=
  kernel.lift (archVmSpaceAttachKernel kernel.machine vm kernel.kernelVm)

/-- `vm_kern_translate`. -/
def vmKernTranslate (kernel : Kernel Heap) (virt : ℕ) : Except KError ℕ :=
  if !vmKernRangeValid virt 1 then .error .inval
  else archVmTranslate kernel.machine kernel.kernelVm virt

/-- `(size_t)(end - start)` for two linker symbols. -/
def sectionSize (start finish : ℕ) : ℕ :=
  if start ≤ finish then finish - start else 2 ^ 32 - (start - finish)

/-- The permanent layout that `vm_kern_init` creates: the direct map with read-only sections. -/
def vmKernLayout (sections : KernelSections) (kernel : Kernel Heap) : Status × Kernel Heap :=
  kerrTry (vmKernMap kernel kernelVirtOffset 0 kernelDirectMapSize (vmRead ||| vmWrite))
    fun kernel =>
  kerrTry (vmKernProtect kernel sections.textStart
    (sectionSize sections.textStart sections.textEnd) (vmRead ||| vmExec)) fun kernel =>
  vmKernProtect kernel sections.rodataStart
    (sectionSize sections.rodataStart sections.rodataEnd) vmRead

/-- `vm_kern_init`. -/
def vmKernInit (sections : KernelSections) (kernel : Kernel Heap) : Status × Kernel Heap :=
  match archVmSpaceInit kernel.machine with
  | (.error error, machine) => (.error error, { kernel with machine := machine })
  | (.ok kernelVm, machine) =>
      match archVmKernelPrepare machine kernelVm with
      | (.error error, machine) =>
          (.error error, { kernel with machine := machine, kernelVm := kernelVm })
      | (.ok (), machine) =>
          vmKernLayout sections { kernel with machine := machine, kernelVm := kernelVm }

/-- What `mm/vmm.c` calls on this architecture. -/
def x86Env (ops : HeapOps Heap) : VmEnv (Kernel Heap) where
  kmalloc := fun kernel size =>
    ((ops.kmalloc kernel.heap size).1, { kernel with heap := (ops.kmalloc kernel.heap size).2 })
  kfree := fun kernel ptr =>
    ((ops.kfree kernel.heap ptr).1, { kernel with heap := (ops.kfree kernel.heap ptr).2 })
  archVmMap := fun kernel vm virt phys size flags =>
    kernel.lift (archVmMap kernel.machine vm virt phys size flags)
  archVmUnmap := fun kernel vm virt size => kernel.lift (archVmUnmap kernel.machine vm virt size)
  archVmProtect := fun kernel vm virt size flags =>
    kernel.lift (archVmProtect kernel.machine vm virt size flags)
  archVmSpaceInit := fun kernel => kernel.lift (archVmSpaceInit kernel.machine)
  archVmSpaceDestroy := fun kernel vm =>
    ((archVmSpaceDestroy kernel.machine vm).1, (archVmSpaceDestroy kernel.machine vm).2.1,
      { kernel with machine := (archVmSpaceDestroy kernel.machine vm).2.2 })
  vmKernAttach := vmKernAttach

/-! ## Kernel ranges -/

/-- The kernel directory is in place and every kernel entry has its table. -/
structure KernelTables (kernelDir : ℕ) (dirs : List ℕ) (kernel : Kernel Heap) : Prop where
  tables : PageTables kernelDir dirs kernel.machine
  ready : KernelReady kernelDir kernel.machine
  kernelVm_eq : kernel.kernelVm = ⟨kernelDir * 4096⟩

theorem KernelTables.dir_eq {kernelDir kernelDir' : ℕ} {dirs dirs' : List ℕ} {kernel : Kernel Heap}
    (first : KernelTables kernelDir dirs kernel) (second : KernelTables kernelDir' dirs' kernel) :
    kernelDir = kernelDir' := by
  have same := first.kernelVm_eq.symm.trans second.kernelVm_eq
  rw [ArchVmSpace.mk.injEq] at same
  omega

/-- A call of `vm_kern_map`, `vm_kern_unmap` or `vm_kern_protect`. -/
inductive KernOp where
  | map (virt phys size flags : ℕ)
  | unmap (virt size : ℕ)
  | protect (virt size flags : ℕ)
  deriving DecidableEq, Repr

/-- One call. -/
def kernCall (op : KernOp) (kernel : Kernel Heap) : Status × Kernel Heap :=
  match op with
  | .map virt phys size flags => vmKernMap kernel virt phys size flags
  | .unmap virt size => vmKernUnmap kernel virt size
  | .protect virt size flags => vmKernProtect kernel virt size flags

theorem vmKernRangeValid_iff {virt size : ℕ} :
    vmKernRangeValid virt size = true ↔
      0 < size ∧ kernelVirtOffset ≤ virt ∧ size - 1 ≤ 2 ^ 32 - 1 - virt := by
  unfold vmKernRangeValid
  split
  · simp only [Bool.false_eq_true, false_iff]
    omega
  split
  · simp only [Bool.false_eq_true, false_iff]
    omega
  split
  · simp only [Bool.false_eq_true, false_iff]
    omega
  · simp only [true_iff]
    omega

section Calls

variable {kernelDir virt phys size flags : ℕ} {dirs : List ℕ} {kernel : Kernel Heap}

theorem KernelTables.rewritten (inv : KernelTables kernelDir dirs kernel) {machine : Machine}
    {dir : ℕ} {changed : Set (ℕ × ℕ)} {word : ℕ → ℕ}
    (rewritten : Rewritten kernelDir dirs dir kernel.machine machine changed word) :
    KernelTables kernelDir dirs { kernel with machine := machine } :=
  ⟨rewritten.tables, rewritten.ready, inv.kernelVm_eq⟩

/-- Translation reads the entry of the page. -/
theorem vmKernTranslate_eq (inv : KernelTables kernelDir dirs kernel) {va : ℕ}
    (kernel_le : kernelVirtOffset ≤ va) (va_lt : va < 2 ^ 32) :
    vmKernTranslate kernel va =
      if EntryPresent (pteWord kernel.machine kernelDir va) then
        .ok (pteWord kernel.machine kernelDir va / 4096 * 4096 + va % 4096)
      else .error .noent := by
  have valid : vmKernRangeValid va 1 = true :=
    vmKernRangeValid_iff.mpr ⟨by decide, kernel_le, by omega⟩
  rw [vmKernTranslate, if_neg (by simp [valid]), inv.kernelVm_eq]
  exact archVmTranslate_eq inv.tables (List.mem_cons_self ..) va_lt

/-- Unmapped kernel pages can be mapped. -/
theorem vmKernMap_unmapped (inv : KernelTables kernelDir dirs kernel) (range : PageRange virt size)
    (kernel_le : kernelVirtOffset ≤ virt) (phys_mod : phys % 4096 = 0)
    (unmapped : ∀ page < size / 4096,
      ¬ EntryPresent (pteWord kernel.machine kernelDir (virt + 4096 * page))) (flags : ℕ) :
    ∃ machine, vmKernMap kernel virt phys size flags =
        (.ok (), { kernel with machine := machine }) ∧
      Rewritten kernelDir dirs kernelDir kernel.machine machine
        (rangeOf kernelDir virt (size / 4096)) (mapWord virt phys flags) := by
  have size_pos := range.size_pos
  have fits := range.fits
  have valid : vmKernRangeValid virt size = true :=
    vmKernRangeValid_iff.mpr ⟨size_pos, kernel_le, by omega⟩
  obtain ⟨done, machine, rewritten, -, -, ⟨passed, rfl⟩ | ⟨error, -, done_lt, user | taken⟩⟩ :=
    archVmMap_cases inv.tables inv.ready
      (Or.inr ⟨rfl, kernel_le⟩ : Mappable kernelDir dirs kernelDir virt) range phys_mod flags
  · refine ⟨machine, ?_, rewritten⟩
    rw [vmKernMap, if_neg (by simp [valid]), inv.kernelVm_eq, passed, Kernel.lift,
      ← inv.kernelVm_eq]
  · omega
  · exact absurd taken.2 (unmapped done done_lt)

/-- Every call on the kernel mappings rewrites entries of the kernel half only. -/
theorem kernCall_rewritten (inv : KernelTables kernelDir dirs kernel) (op : KernOp) :
    ∃ machine virt done word, kernelVirtOffset ≤ virt ∧
      (kernCall op kernel).2 = { kernel with machine := machine } ∧
      Rewritten kernelDir dirs kernelDir kernel.machine machine (rangeOf kernelDir virt done)
        word := by
  have idle : ∃ machine virt done word, kernelVirtOffset ≤ virt ∧
      kernel = { kernel with machine := machine } ∧
      Rewritten kernelDir dirs kernelDir kernel.machine machine (rangeOf kernelDir virt done)
        word :=
    ⟨kernel.machine, kernelVirtOffset, 0, fun _ => 0, Nat.le_refl _, rfl,
      rewritten_zero inv.tables inv.ready _⟩
  cases op with
  | map virt phys size flags =>
      simp only [kernCall, vmKernMap]
      split
      · exact idle
      · rename_i valid
        obtain ⟨_, kernel_le, fits⟩ := vmKernRangeValid_iff.mp (by simpa using valid)
        obtain ⟨done, word, _, rewritten⟩ := archVmMap_rewritten inv.tables inv.ready
          (Or.inr ⟨rfl, kernel_le⟩ : Mappable kernelDir dirs kernelDir virt)
          (by omega : 4096 ≤ size → virt + size ≤ 2 ^ 32) phys flags
        rw [← inv.kernelVm_eq] at rewritten
        exact ⟨_, virt, done, word, kernel_le, rfl, rewritten⟩
  | unmap virt size =>
      simp only [kernCall, vmKernUnmap]
      split
      · exact idle
      · rename_i valid
        obtain ⟨_, kernel_le, fits⟩ := vmKernRangeValid_iff.mp (by simpa using valid)
        obtain ⟨done, word, _, rewritten⟩ := archVmUnmap_rewritten inv.tables inv.ready
          (List.mem_cons_self ..) (by omega : 4096 ≤ size → virt + size ≤ 2 ^ 32)
        rw [← inv.kernelVm_eq] at rewritten
        exact ⟨_, virt, done, word, kernel_le, rfl, rewritten⟩
  | protect virt size flags =>
      simp only [kernCall, vmKernProtect]
      split
      · exact idle
      · rename_i valid
        obtain ⟨_, kernel_le, fits⟩ := vmKernRangeValid_iff.mp (by simpa using valid)
        obtain ⟨done, word, _, rewritten⟩ := archVmProtect_rewritten inv.tables inv.ready
          (List.mem_cons_self ..) (by omega : 4096 ≤ size → virt + size ≤ 2 ^ 32) flags
        rw [← inv.kernelVm_eq] at rewritten
        exact ⟨_, virt, done, word, kernel_le, rfl, rewritten⟩

end Calls

/-! ## Initialization -/

section Init

variable {kernel kernel' : Kernel Heap} {sections : KernelSections}

/-- Empty tables for the whole kernel half, where only frames that were free have changed. -/
structure PreparedTables (kernelDir : ℕ) (before machine : Machine) : Prop where
  tables : PageTables kernelDir [] machine
  ready : KernelReady kernelDir machine
  total : machine.pmm.totalFrames = before.pmm.totalFrames
  lowmem : machine.pmm.lowSet.card + 257 = before.pmm.lowSet.card
  empty : ∀ va < 2 ^ 32, pteWord machine kernelDir va = 0
  residue : ∀ frame, Residue kernelDir [] machine frame ↔ before.pmm.Marked frame
  bytes : ∀ frame, before.pmm.Marked frame → ByteMemory.AgreeOn before.mem machine.mem frame

/-- `vm_kern_init` creates the directory and the tables, and fails before the layout only when
LowMem runs out. -/
theorem vmKernInit_cases (sections : KernelSections)
    (total_lt : kernel.machine.pmm.totalFrames < 2 ^ 32) :
    (∃ kernel', vmKernInit sections kernel = (.error .nomem, kernel') ∧
        kernel.machine.pmm.lowSet.card < 257) ∨
      ∃ kernelDir machine,
        archVmSpaceInit kernel.machine =
          (.ok ⟨kernelDir * 4096⟩, clearedFrame kernel.machine kernelDir) ∧
        archVmKernelPrepare (clearedFrame kernel.machine kernelDir) ⟨kernelDir * 4096⟩ =
          (.ok (), machine) ∧
        PreparedTables kernelDir kernel.machine machine := by
  rcases archVmSpaceInit_cases kernel.machine with ⟨failed, exhausted⟩ | ⟨frame, fresh, created⟩
  · left
    refine ⟨_, by rw [vmKernInit, failed], ?_⟩
    have empty : kernel.machine.pmm.lowSet = ∅ :=
      Finset.eq_empty_of_forall_notMem fun frame member =>
        exhausted frame (freshFrame_iff.mpr member)
    simp [empty]
  · obtain ⟨tables, absent, views, residue⟩ := pageTables_clearedFrame fresh total_lt
    have lowmem : (clearedFrame kernel.machine frame).pmm.lowSet.card + 1 =
        kernel.machine.pmm.lowSet.card := lowSet_pmmMark fresh
    rcases archVmKernelPrepareFrom_cases tables (Nat.le_refl 768) (by decide : 768 + 256 = 1024)
        ⟨by omega, fun other _ other_lt => absent other other_lt⟩ with
      ⟨machine, failed, short⟩ |
      ⟨machine, prepared, tables', ready, total, lowmem', views', residue'⟩
    · have failed' : archVmKernelPrepare (clearedFrame kernel.machine frame) ⟨frame * 4096⟩ =
          (.error .nomem, machine) := failed
      exact Or.inl ⟨{ kernel with machine := machine, kernelVm := ⟨frame * 4096⟩ },
        by rw [vmKernInit, created]; simp only [failed'], by omega⟩
    · refine Or.inr ⟨frame, machine, created, prepared, tables', ready, total, by omega, ?_, ?_, ?_⟩
      · intro va va_lt
        rw [views' va va_lt, views va va_lt]
      · intro other
        rw [(residue' other).1, residue other]
      · intro other marked
        have other_ne : other ≠ frame := by
          rintro rfl
          exact fresh.free marked
        exact (clearedFrame_agreeOn other_ne).trans
          ((residue' other).2 ((residue other).mpr marked))

theorem vmKernInit_of_prepared {vm : ArchVmSpace} {cleared machine : Machine}
    (created : archVmSpaceInit kernel.machine = (.ok vm, cleared))
    (prepared : archVmKernelPrepare cleared vm = (.ok (), machine)) (sections : KernelSections) :
    vmKernInit sections kernel =
      vmKernLayout sections { kernel with machine := machine, kernelVm := vm } := by
  rw [vmKernInit, created]
  simp only [prepared]

/-- Whatever the sections are, laying out the kernel mappings keeps the structure. -/
theorem vmKernLayout_kept {kernelDir : ℕ} {dirs : List ℕ}
    (inv : KernelTables kernelDir dirs kernel) (sections : KernelSections) :
    ∃ machine, (vmKernLayout sections kernel).2 = { kernel with machine := machine } ∧
      TablesKept kernelDir dirs kernel.machine machine ∧
      SameTables kernelDir dirs kernel.machine machine := by
  have spared := (List.nodup_cons.mp inv.tables.nodup).1
  let Kept (state : Kernel Heap) : Prop :=
    ∃ machine, state = { kernel with machine := machine } ∧
      TablesKept kernelDir dirs kernel.machine machine ∧
      SameTables kernelDir dirs kernel.machine machine
  have step (op : KernOp) (state : Kernel Heap) (kept : Kept state) :
      Kept (kernCall op state).2 := by
    obtain ⟨machine, rfl, kept, same⟩ := kept
    obtain ⟨machine', _, _, _, _, result_eq, rewritten⟩ :=
      kernCall_rewritten (⟨kept.tables, kept.ready, inv.kernelVm_eq⟩ :
        KernelTables kernelDir dirs { kernel with machine := machine }) op
    exact ⟨machine', result_eq, kept.trans rewritten.tablesKept,
      same.trans (rewritten.sameTables (fun _ member => member) spared)⟩
  have start : Kept kernel :=
    ⟨kernel.machine, rfl, .refl inv.tables inv.ready, SameTables.refl ..⟩
  have map_step (virt phys size flags : ℕ) (state : Kernel Heap) (kept : Kept state) :
      Kept (vmKernMap state virt phys size flags).2 := step (.map virt phys size flags) state kept
  have protect_step (virt size flags : ℕ) (state : Kernel Heap) (kept : Kept state) :
      Kept (vmKernProtect state virt size flags).2 := step (.protect virt size flags) state kept
  suffices result : Kept (vmKernLayout sections kernel).2 from result
  rw [vmKernLayout]
  apply kerrTry_invariant Kept (map_step _ _ _ _ kernel start)
  intro state kept
  apply kerrTry_invariant Kept (protect_step _ _ _ state kept)
  intro state kept
  exact protect_step _ _ _ state kept

/-- After a successful `vm_kern_init`, the kernel tables are in place, and exactly the frames that
were marked before are marked for another use. -/
theorem vmKernInit_kept (total_lt : kernel.machine.pmm.totalFrames < 2 ^ 32)
    (init : vmKernInit sections kernel = (.ok (), kernel')) :
    ∃ kernelDir, KernelTables kernelDir [] kernel' ∧ kernel'.heap = kernel.heap ∧
      kernel'.machine.pmm.totalFrames = kernel.machine.pmm.totalFrames ∧
      kernel'.machine.pmm.lowSet.card + 257 = kernel.machine.pmm.lowSet.card ∧
      ∀ frame, (Residue kernelDir [] kernel'.machine frame ↔ kernel.machine.pmm.Marked frame) ∧
        (kernel.machine.pmm.Marked frame →
          ByteMemory.AgreeOn kernel.machine.mem kernel'.machine.mem frame) := by
  rcases vmKernInit_cases sections total_lt with
    ⟨_, failed, _⟩ | ⟨kernelDir, machine, created, filled, prepared⟩
  · rw [failed] at init
    cases init
  · have layout := vmKernInit_of_prepared created filled sections
    have inv : KernelTables kernelDir []
        { kernel with machine := machine, kernelVm := ⟨kernelDir * 4096⟩ } :=
      ⟨prepared.tables, prepared.ready, rfl⟩
    obtain ⟨machine', result_eq, kept, same⟩ := vmKernLayout_kept inv sections
    rw [← layout, init] at result_eq
    obtain rfl := result_eq
    have lowSet_eq : machine'.pmm.lowSet = machine.pmm.lowSet := by
      have marked := same.marked_iff prepared.tables kept.tables kept.residue
      ext frame
      rw [← freshFrame_iff, ← freshFrame_iff]
      constructor
      · rintro ⟨lowmem, below, free⟩
        exact ⟨lowmem, kept.total ▸ below, fun is_marked => free ((marked frame).mpr is_marked)⟩
      · rintro ⟨lowmem, below, free⟩
        exact ⟨lowmem, kept.total ▸ below, fun is_marked => free ((marked frame).mp is_marked)⟩
    refine ⟨kernelDir, ⟨kept.tables, kept.ready, rfl⟩, rfl, kept.total.trans prepared.total,
      by rw [lowSet_eq]; exact prepared.lowmem, ?_⟩
    intro frame
    refine ⟨(kept.residue frame).trans (prepared.residue frame), fun marked => ?_⟩
    exact (prepared.bytes frame marked).trans
      (kept.bytes frame ((prepared.residue frame).mpr marked))

end Init

/-! ## The direct map -/

/-- A supervisor entry that maps an address of the direct map to its physical page. -/
structure DirectEntry (va word : ℕ) : Prop where
  present : EntryPresent word
  frame_eq : word / 4096 = (va - kernelVirtOffset) / 4096
  supervisor : word / 4 % 2 = 0

/-- All addresses of the direct map are mapped. -/
def DirectMapped (kernelDir : ℕ) (machine : Machine) : Prop :=
  ∀ va, kernelVirtOffset ≤ va → va < kernelVirtOffset + kernelDirectMapSize →
    DirectEntry va (pteWord machine kernelDir va)

/-- A page-aligned, non-empty section inside the direct map. -/
structure SectionBounds (start finish : ℕ) : Prop where
  start_mod : start % 4096 = 0
  finish_mod : finish % 4096 = 0
  lower : kernelVirtOffset ≤ start
  ordered : start < finish
  upper : finish ≤ kernelVirtOffset + kernelDirectMapSize

/-- The pages of both read-only sections. -/
def KernelSections.ReadOnly (sections : KernelSections) (va : ℕ) : Prop :=
  (sections.textStart ≤ va ∧ va < sections.textEnd) ∨
    (sections.rodataStart ≤ va ∧ va < sections.rodataEnd)

instance (sections : KernelSections) (va : ℕ) : Decidable (sections.ReadOnly va) :=
  inferInstanceAs (Decidable (_ ∨ _))

/-- The table entry of an address of the kernel half after `vm_kern_init`: the direct map, writable
outside the read-only sections, and nothing above it. -/
def KernelSections.layoutWord (sections : KernelSections) (va : ℕ) : ℕ :=
  if va < kernelVirtOffset + kernelDirectMapSize then
    (va - kernelVirtOffset) / 4096 * 4096 + if sections.ReadOnly va then 1 else 3
  else 0

section DirectMap

variable {kernelDir va word flags : ℕ} {dirs : List ℕ} {kernel : Kernel Heap}

theorem DirectEntry.protect (entry : DirectEntry va word) (word_lt : word < 2 ^ 32)
    (supervisor : flags / 8 % 2 = 0) : DirectEntry va (pteValue word flags) := by
  obtain ⟨_, frame_eq, _⟩ := entry
  have flags_lt := x86VmFlagsToPte_lt flags
  refine ⟨pteValue_present word flags, ?_, ?_⟩
  · unfold pteValue
    omega
  · unfold pteValue
    rw [x86VmFlagsToPte_eq]
    omega

theorem directEntry_map (lower : kernelVirtOffset ≤ va)
    (upper : va < kernelVirtOffset + kernelDirectMapSize) (supervisor : flags / 8 % 2 = 0) :
    DirectEntry va (mapWord kernelVirtOffset 0 flags va) := by
  have flags_lt := x86VmFlagsToPte_lt flags
  unfold kernelVirtOffset at lower upper
  unfold kernelDirectMapSize at upper
  refine ⟨pteValue_present _ flags, ?_, ?_⟩
  · unfold mapWord pteValue kernelVirtOffset
    omega
  · unfold mapWord pteValue kernelVirtOffset
    rw [x86VmFlagsToPte_eq]
    omega

/-- The word that maps an address of the direct map. -/
theorem mapWord_direct (lower : kernelVirtOffset ≤ va)
    (upper : va < kernelVirtOffset + kernelDirectMapSize) :
    mapWord kernelVirtOffset 0 flags va =
      (va - kernelVirtOffset) / 4096 * 4096 + x86VmFlagsToPte flags := by
  unfold kernelVirtOffset kernelDirectMapSize at *
  unfold mapWord pteValue
  omega

/-- Protecting a page keeps its frame. -/
theorem pteValue_direct {old : ℕ} (upper : va < kernelVirtOffset + kernelDirectMapSize)
    (old_lt : old < 4096) :
    pteValue ((va - kernelVirtOffset) / 4096 * 4096 + old) flags =
      (va - kernelVirtOffset) / 4096 * 4096 + x86VmFlagsToPte flags := by
  unfold kernelVirtOffset kernelDirectMapSize at *
  unfold pteValue
  omega

/-- `vm_kern_protect` succeeds on a section of the direct map and rewrites the entries of its pages
only. -/
theorem vmKernProtect_section (inv : KernelTables kernelDir dirs kernel)
    (direct : DirectMapped kernelDir kernel.machine) {start finish : ℕ}
    (bounds : SectionBounds start finish) (supervisor : flags / 8 % 2 = 0) :
    ∃ machine, vmKernProtect kernel start (sectionSize start finish) flags =
        (.ok (), { kernel with machine := machine }) ∧
      KernelTables kernelDir dirs { kernel with machine := machine } ∧
      DirectMapped kernelDir machine ∧
      ∀ va, kernelVirtOffset ≤ va → va < 2 ^ 32 → pteWord machine kernelDir va =
        if start ≤ va ∧ va < finish then pteValue (pteWord kernel.machine kernelDir va) flags
        else pteWord kernel.machine kernelDir va := by
  obtain ⟨start_mod, finish_mod, lower, ordered, upper⟩ := bounds
  have end_lt : finish < 2 ^ 32 := by
    unfold kernelVirtOffset kernelDirectMapSize at upper
    omega
  obtain ⟨size, size_def⟩ : ∃ size, size = finish - start := ⟨_, rfl⟩
  have size_eq : sectionSize start finish = size := by
    rw [sectionSize, if_pos (by omega), size_def]
  have range : PageRange start size := ⟨start_mod, by omega, by omega, by omega⟩
  have valid : vmKernRangeValid start size = true :=
    vmKernRangeValid_iff.mpr ⟨by omega, lower, by omega⟩
  obtain ⟨done, machine, rewritten, _, ⟨passed, done_eq⟩ | ⟨_, done_lt, missing⟩⟩ :=
    archVmProtect_cases inv.tables inv.ready (List.mem_cons_self ..) range flags
  · have words (va : ℕ) (va_lower : kernelVirtOffset ≤ va) (va_lt : va < 2 ^ 32) :
        pteWord machine kernelDir va =
          if start ≤ va ∧ va < finish then pteValue (pteWord kernel.machine kernelDir va) flags
          else pteWord kernel.machine kernelDir va := by
      by_cases inside : start ≤ va ∧ va < finish
      · rw [if_pos inside]
        refine rewritten.replaced kernelDir (by simp) va va_lt (mem_rangeOf.mpr ⟨?_, Or.inl rfl⟩)
        omega
      · rw [if_neg inside]
        refine rewritten.kept kernelDir (by simp) va va_lt fun member => inside ?_
        obtain ⟨within, _⟩ := mem_rangeOf.mp member
        omega
    refine ⟨machine, ?_, inv.rewritten rewritten, ?_, words⟩
    · rw [size_eq, vmKernProtect, if_neg (by simp [valid]), inv.kernelVm_eq, passed, Kernel.lift,
        ← inv.kernelVm_eq]
    · intro va va_lower va_upper
      have va_lt : va < 2 ^ 32 := by
        unfold kernelVirtOffset kernelDirectMapSize at va_upper
        omega
      rw [words va va_lower va_lt]
      split
      · exact (direct va va_lower va_upper).protect (pteWord_lt _ _ _) supervisor
      · exact direct va va_lower va_upper
  · refine absurd (direct (start + 4096 * done) ?_ ?_).present missing
    · omega
    · omega

/-- An entry before and after `vm_kern_protect`. -/
def ProtectedWord (flags word word' : ℕ) : Prop :=
  word' = word ∨ EntryPresent word ∧ word' = pteValue word flags

theorem ProtectedWord.direct {word' : ℕ} (rewritten : ProtectedWord flags word word')
    (word_lt : word < 2 ^ 32) (supervisor : flags / 8 % 2 = 0) (entry : DirectEntry va word) :
    DirectEntry va word' := by
  rcases rewritten with rfl | ⟨_, rfl⟩
  · exact entry
  · exact entry.protect word_lt supervisor

theorem ProtectedWord.absent {word' : ℕ} (rewritten : ProtectedWord flags word word')
    (missing : ¬ EntryPresent word) : ¬ EntryPresent word' := by
  rcases rewritten with rfl | ⟨present, _⟩
  · exact missing
  · exact absurd present missing

/-- A successful `vm_kern_protect`, whatever its arguments, rewrites entries of mapped pages. -/
theorem vmKernProtect_eq_ok (inv : KernelTables kernelDir dirs kernel) {kernel' : Kernel Heap}
    {virt size : ℕ} (ran : vmKernProtect kernel virt size flags = (.ok (), kernel')) :
    KernelTables kernelDir dirs kernel' ∧
      ∀ va < 2 ^ 32, ProtectedWord flags (pteWord kernel.machine kernelDir va)
        (pteWord kernel'.machine kernelDir va) := by
  rw [vmKernProtect] at ran
  split at ran
  · cases ran
  rename_i valid
  obtain ⟨size_pos, kernel_le, fits⟩ := vmKernRangeValid_iff.mp (by simpa using valid)
  have aligned : virt % 4096 = 0 ∧ size % 4096 = 0 := by
    by_contra unaligned
    have rejected : archVmProtect kernel.machine kernel.kernelVm virt size flags =
        (.error .inval, kernel.machine) := by
      rw [archVmProtect, if_neg (by omega), if_pos]
      simp only [alignTest, x86PageSize, Bool.or_eq_true, Bool.not_eq_true',
        decide_eq_false_iff_not]
      omega
    rw [rejected] at ran
    cases ran
  rw [inv.kernelVm_eq] at ran
  obtain ⟨done, machine, rewritten, present, ⟨passed, done_eq⟩ | ⟨failed, -, -⟩⟩ :=
    archVmProtect_cases inv.tables inv.ready (List.mem_cons_self ..)
      (⟨aligned.1, aligned.2, size_pos, by omega⟩ : PageRange virt size) flags
  · rw [passed] at ran
    obtain rfl := (Prod.mk.inj ran).2
    refine ⟨inv.rewritten rewritten, fun va va_lt => ?_⟩
    by_cases inside : (kernelDir, va) ∈ rangeOf kernelDir virt done
    · obtain ⟨⟨lower, upper⟩, -⟩ := mem_rangeOf.mp inside
      refine Or.inr ⟨?_, rewritten.replaced kernelDir (List.mem_cons_self ..) va va_lt inside⟩
      rw [pteWord_of_same_page kernel.machine kernelDir
        (show va / 4096 = (virt + 4096 * ((va - virt) / 4096)) / 4096 by omega)]
      exact present _ (by omega)
    · exact Or.inl (rewritten.kept kernelDir (List.mem_cons_self ..) va va_lt inside)
  · rw [failed] at ran
    cases ran

/-- `vm_kern_init` maps the whole direct map into prepared tables, and nothing above it. -/
theorem vmKernMap_prepared (kernel : Kernel Heap) {before : Machine}
    (prepared : PreparedTables kernelDir before kernel.machine)
    (kernelVm_eq : kernel.kernelVm = ⟨kernelDir * 4096⟩) (supervisor : flags / 8 % 2 = 0) :
    ∃ machine, vmKernMap kernel kernelVirtOffset 0 kernelDirectMapSize flags =
        (.ok (), { kernel with machine := machine }) ∧
      KernelTables kernelDir [] { kernel with machine := machine } ∧
      DirectMapped kernelDir machine ∧
      ∀ va, kernelVirtOffset ≤ va → va < 2 ^ 32 → pteWord machine kernelDir va =
        if va < kernelVirtOffset + kernelDirectMapSize then mapWord kernelVirtOffset 0 flags va
        else 0 := by
  have inv : KernelTables kernelDir [] kernel := ⟨prepared.tables, prepared.ready, kernelVm_eq⟩
  have range : PageRange kernelVirtOffset kernelDirectMapSize :=
    ⟨by decide, by decide, by decide, by decide⟩
  have unmapped : ∀ page < kernelDirectMapSize / 4096,
      ¬ EntryPresent (pteWord kernel.machine kernelDir (kernelVirtOffset + 4096 * page)) := by
    intro page page_lt
    rw [prepared.empty _ (by unfold kernelVirtOffset kernelDirectMapSize at *; omega)]
    decide
  obtain ⟨machine, mapped, rewritten⟩ :=
    vmKernMap_unmapped inv range le_rfl (rfl : 0 % 4096 = 0) unmapped flags
  have covered : 4096 * (kernelDirectMapSize / 4096) = kernelDirectMapSize := rfl
  have words (va : ℕ) (lower : kernelVirtOffset ≤ va) (va_lt : va < 2 ^ 32) :
      pteWord machine kernelDir va =
        if va < kernelVirtOffset + kernelDirectMapSize then mapWord kernelVirtOffset 0 flags va
        else 0 := by
    by_cases inside : va < kernelVirtOffset + kernelDirectMapSize
    · rw [if_pos inside]
      exact rewritten.replaced kernelDir (by simp) va va_lt
        (mem_rangeOf.mpr ⟨⟨lower, covered.symm ▸ inside⟩, Or.inl rfl⟩)
    · rw [if_neg inside, rewritten.kept kernelDir (by simp) va va_lt
        fun member => inside (covered ▸ (mem_rangeOf.mp member).1.2)]
      exact prepared.empty va va_lt
  refine ⟨machine, mapped, inv.rewritten rewritten, fun va lower upper => ?_, words⟩
  have va_lt : va < 2 ^ 32 := by
    unfold kernelVirtOffset kernelDirectMapSize at upper
    omega
  rw [words va lower va_lt, if_pos upper]
  exact directEntry_map lower upper supervisor

/-- The layout of prepared tables succeeds when the sections lie in the direct map. -/
theorem vmKernLayout_ok (kernel : Kernel Heap) {before : Machine} {sections : KernelSections}
    (prepared : PreparedTables kernelDir before kernel.machine)
    (kernelVm_eq : kernel.kernelVm = ⟨kernelDir * 4096⟩)
    (text : SectionBounds sections.textStart sections.textEnd)
    (rodata : SectionBounds sections.rodataStart sections.rodataEnd) :
    ∃ machine, vmKernLayout sections kernel = (.ok (), { kernel with machine := machine }) ∧
      KernelTables kernelDir [] { kernel with machine := machine } ∧
      DirectMapped kernelDir machine ∧
      ∀ va, kernelVirtOffset ≤ va → va < 2 ^ 32 →
        pteWord machine kernelDir va = sections.layoutWord va := by
  obtain ⟨mapped, map_eq, map_inv, map_direct, map_words⟩ :=
    vmKernMap_prepared kernel prepared kernelVm_eq (by decide : (vmRead ||| vmWrite) / 8 % 2 = 0)
  obtain ⟨text_machine, text_eq, text_inv, text_direct, text_words⟩ :=
    vmKernProtect_section map_inv map_direct text (by decide : (vmRead ||| vmExec) / 8 % 2 = 0)
  obtain ⟨machine, rodata_eq, rodata_inv, direct, rodata_words⟩ :=
    vmKernProtect_section text_inv text_direct rodata (by decide : vmRead / 8 % 2 = 0)
  refine ⟨machine, ?_, rodata_inv, direct, ?_⟩
  · rw [vmKernLayout, map_eq, kerrTry_ok, text_eq, kerrTry_ok, rodata_eq]
  · intro va lower va_lt
    rw [rodata_words va lower va_lt, text_words va lower va_lt, map_words va lower va_lt,
      KernelSections.layoutWord]
    have text_upper := text.upper
    have rodata_upper := rodata.upper
    by_cases inside : va < kernelVirtOffset + kernelDirectMapSize
    · rw [if_pos inside, if_pos inside, mapWord_direct lower inside]
      by_cases in_text : sections.textStart ≤ va ∧ va < sections.textEnd <;>
        by_cases in_rodata : sections.rodataStart ≤ va ∧ va < sections.rodataEnd
      all_goals
        simp only [KernelSections.ReadOnly, in_text, in_rodata, and_self, or_self, true_or, or_true,
          if_true, if_false]
      · rw [pteValue_direct inside (by decide), pteValue_direct inside (by decide)]
        rfl
      · rw [pteValue_direct inside (by decide)]
        rfl
      · rw [pteValue_direct inside (by decide)]
        rfl
      · rfl
    · rw [if_neg inside, if_neg inside, if_neg (by omega), if_neg (by omega)]

/-- `vm_kern_init` succeeds when LowMem holds the kernel tables and the sections lie in the direct
map. -/
theorem vmKernInit_ok {sections : KernelSections}
    (total_lt : kernel.machine.pmm.totalFrames < 2 ^ 32)
    (lowmem : 257 ≤ kernel.machine.pmm.lowSet.card)
    (text : SectionBounds sections.textStart sections.textEnd)
    (rodata : SectionBounds sections.rodataStart sections.rodataEnd) :
    ∃ kernelDir machine, vmKernInit sections kernel =
        (.ok (), { kernel with machine := machine, kernelVm := ⟨kernelDir * 4096⟩ }) ∧
      DirectMapped kernelDir machine := by
  rcases vmKernInit_cases sections total_lt with
    ⟨_, _, short⟩ | ⟨kernelDir, prepared, created, filled, facts⟩
  · omega
  obtain ⟨machine, layout, _, direct, _⟩ := vmKernLayout_ok
    { kernel with machine := prepared, kernelVm := ⟨kernelDir * 4096⟩ } facts rfl text rodata
  exact ⟨kernelDir, machine, (vmKernInit_of_prepared created filled sections).trans layout, direct⟩

/-- Whatever the sections are, a successful `vm_kern_init` leaves the direct map behind and maps
nothing above it. -/
theorem vmKernInit_eq_ok {sections : KernelSections} {kernel' : Kernel Heap}
    (total_lt : kernel.machine.pmm.totalFrames < 2 ^ 32)
    (init : vmKernInit sections kernel = (.ok (), kernel')) :
    ∃ kernelDir, KernelTables kernelDir [] kernel' ∧ DirectMapped kernelDir kernel'.machine ∧
      ∀ va, kernelVirtOffset + kernelDirectMapSize ≤ va → va < 2 ^ 32 →
        ¬ EntryPresent (pteWord kernel'.machine kernelDir va) := by
  rcases vmKernInit_cases sections total_lt with
    ⟨_, failed, _⟩ | ⟨kernelDir, machine, created, filled, prepared⟩
  · rw [failed] at init
    cases init
  obtain ⟨mapped, map_eq, map_inv, map_direct, map_words⟩ := vmKernMap_prepared
    { kernel with machine := machine, kernelVm := ⟨kernelDir * 4096⟩ } prepared rfl
    (by decide : (vmRead ||| vmWrite) / 8 % 2 = 0)
  rw [vmKernInit_of_prepared created filled, vmKernLayout, map_eq, kerrTry_ok] at init
  obtain ⟨text, text_eq, rodata_eq⟩ := kerrTry_eq_ok init
  obtain ⟨text_inv, text_words⟩ := vmKernProtect_eq_ok map_inv text_eq
  obtain ⟨final_inv, final_words⟩ := vmKernProtect_eq_ok text_inv rodata_eq
  refine ⟨kernelDir, final_inv, fun va lower upper => ?_, fun va beyond va_lt => ?_⟩
  · have va_lt : va < 2 ^ 32 := by
      unfold kernelVirtOffset kernelDirectMapSize at upper
      omega
    refine (final_words va va_lt).direct (pteWord_lt _ _ _) (by decide) ?_
    exact (text_words va va_lt).direct (pteWord_lt _ _ _) (by decide) (map_direct va lower upper)
  · refine (final_words va va_lt).absent ((text_words va va_lt).absent ?_)
    have above := map_words va (by unfold kernelDirectMapSize at beyond; omega) va_lt
    rw [if_neg (by omega)] at above
    rw [above]
    decide

end DirectMap

/-! ## A small machine -/

/-- A heap that only grows. -/
def bumpHeap : HeapOps ℕ where
  kmalloc := fun next size => (next, next + size)
  kfree := fun next _ => (.ok (), next)

/-- Two pages of code and one page of read-only data. -/
def smallSections : KernelSections where
  textStart := 0xC0010000
  textEnd := 0xC0012000
  rodataStart := 0xC0012000
  rodataEnd := 0xC0013000

theorem smallSections_text : SectionBounds smallSections.textStart smallSections.textEnd :=
  ⟨by decide, by decide, by decide, by decide, by decide⟩

theorem smallSections_rodata : SectionBounds smallSections.rodataStart smallSections.rodataEnd :=
  ⟨by decide, by decide, by decide, by decide, by decide⟩

/-- Empty memory of 4 MiB. -/
def smallKernel : Kernel ℕ where
  machine := { mem := fun _ => 0, pmm := smallPmm }
  heap := 0xD0000000
  kernelVm := ⟨0⟩

/-- The same machine with other contents of its memory. -/
def smallKernelWith (mem : ByteMemory) : Kernel ℕ :=
  { smallKernel with machine := { smallKernel.machine with mem := mem } }

/-- A machine with fewer frames. -/
def limitedKernel (mem : ByteMemory) (frames : ℕ) : Kernel ℕ :=
  { smallKernel with
    machine :=
      { mem := mem
        pmm :=
          { bm := { data := smallPmm.bm.data, nbits := frames }
            maxAddr := frames * 4096
            totalFrames := frames
            freeFrames := frames - 256 } } }

/-- The frames behind the first MiB are free. -/
theorem smallPmm_low : Finset.Ico 256 1024 ⊆ smallPmm.lowSet := by
  intro frame member
  obtain ⟨lower, upper⟩ := Finset.mem_Ico.mp member
  exact mem_lowSet_of_clear (by omega) upper (if_neg (by omega))

/-- The small machine boots, with its direct map in place and LowMem left. -/
theorem smallKernelWith_init (mem : ByteMemory) :
    ∃ kernelDir kernel, vmKernInit smallSections (smallKernelWith mem) = (.ok (), kernel) ∧
      KernelTables kernelDir [] kernel ∧ DirectMapped kernelDir kernel.machine ∧
      kernel.heap = 0xD0000000 ∧ 511 ≤ kernel.machine.pmm.lowSet.card := by
  have lowmem := Finset.card_le_card smallPmm_low
  rw [Nat.card_Ico] at lowmem
  have total_lt : (smallKernelWith mem).machine.pmm.totalFrames < 2 ^ 32 :=
    (by decide : 1024 < 2 ^ 32)
  obtain ⟨kernelDir, machine, booted, direct⟩ := vmKernInit_ok total_lt
    (by simp only [smallKernelWith, smallKernel]; omega :
      257 ≤ (smallKernelWith mem).machine.pmm.lowSet.card)
    smallSections_text smallSections_rodata
  obtain ⟨kernelDir', tables, _, _, lowSet_eq, _⟩ := vmKernInit_kept total_lt booted
  have same : kernelDir * 4096 = kernelDir' * 4096 :=
    congrArg ArchVmSpace.pdPhys tables.kernelVm_eq
  obtain rfl : kernelDir' = kernelDir := by omega
  simp only [smallKernelWith, smallKernel] at lowSet_eq
  exact ⟨kernelDir', _, booted, tables, direct, rfl, by simp only; omega⟩

theorem smallKernel_init :
    ∃ kernelDir kernel, vmKernInit smallSections smallKernel = (.ok (), kernel) ∧
      KernelTables kernelDir [] kernel ∧ DirectMapped kernelDir kernel.machine ∧
      kernel.heap = 0xD0000000 ∧ 511 ≤ kernel.machine.pmm.lowSet.card :=
  smallKernelWith_init _

/-! ## Address conversion -/

/-- The kernel tables translate the addresses of the direct map by subtraction. -/
theorem vmKernTranslate_of_direct {kernelDir : ℕ} {dirs : List ℕ} {kernel : Kernel Heap}
    (inv : KernelTables kernelDir dirs kernel) (direct : DirectMapped kernelDir kernel.machine)
    {va : ℕ} (lower : kernelVirtOffset ≤ va)
    (upper : va < kernelVirtOffset + kernelDirectMapSize) :
    vmKernTranslate kernel va = .ok (va - kernelVirtOffset) := by
  obtain ⟨present, frame_eq, _⟩ := direct va lower upper
  rw [vmKernTranslate_eq inv lower (by unfold kernelVirtOffset kernelDirectMapSize at *; omega),
    if_pos present, frame_eq]
  refine congrArg Except.ok ?_
  unfold kernelVirtOffset at *
  omega

/-- `VIRT_TO_PHYS` adds what it is to subtract, and two offsets of 3 GiB do not cancel modulo
4 GiB: it agrees with the page tables at no address of the direct map, and inverts `PHYS_TO_VIRT`
nowhere. -/
theorem virtToPhys_ne {kernel kernel' : Kernel Heap} {sections : KernelSections}
    (total_lt : kernel.machine.pmm.totalFrames < 2 ^ 32)
    (init : vmKernInit sections kernel = (.ok (), kernel')) :
    (∀ va, kernelVirtOffset ≤ va → va < kernelVirtOffset + kernelDirectMapSize →
        ∃ phys, vmKernTranslate kernel' va = .ok phys ∧ virtToPhys va ≠ phys) ∧
      ∀ p < kernelDirectMapSize, virtToPhys (physToVirt p) ≠ p := by
  obtain ⟨kernelDir, inv, direct, _⟩ := vmKernInit_eq_ok total_lt init
  constructor
  · intro va lower upper
    refine ⟨va - kernelVirtOffset, vmKernTranslate_of_direct inv direct lower upper, ?_⟩
    unfold virtToPhys
    unfold kernelVirtOffset kernelDirectMapSize at *
    omega
  · intro p p_lt
    unfold virtToPhys physToVirt
    unfold kernelVirtOffset kernelDirectMapSize at *
    omega

/-- The first page of the kernel image after the small machine has booted. -/
theorem virtToPhys_ne_small :
    ∃ kernel', vmKernInit smallSections smallKernel = (.ok (), kernel') ∧
      ∃ phys, vmKernTranslate kernel' 0xC0100000 = .ok phys ∧ virtToPhys 0xC0100000 ≠ phys := by
  obtain ⟨_, kernel', booted, _⟩ := smallKernel_init
  exact ⟨kernel', booted, (virtToPhys_ne (by decide) booted).1 0xC0100000 (by decide) (by decide)⟩

theorem virtToPhys_differs :
    (∃ kernel', vmKernInit smallSections smallKernel = (.ok (), kernel') ∧
        vmKernTranslate kernel' 0xC0100000 = .ok 0x100000 ∧
        virtToPhys 0xC0100000 = 0x80100000) ∧
      virtToPhys (physToVirt 0x100000) = 0x80100000 := by
  obtain ⟨_, kernel', booted, inv, direct, _⟩ := smallKernel_init
  exact ⟨⟨kernel', booted, vmKernTranslate_of_direct inv direct (by decide) (by decide), rfl⟩, rfl⟩

end ItWorksOS
