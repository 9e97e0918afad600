import ItWorksOS.Mm.KernelStackFailure
import ItWorksOS.Mm.KheapExact
import ItWorksOS.Process.Create

/-!
# Runs of the process table

Processes are created while their address spaces change, other kernel code maps kernel pages and
takes frames, heap blocks and kernel stacks, and everyone writes to memory of its own.
-/

namespace ItWorksOS

/-! ## Page tables with given directories -/

/-- The page tables with these directories are well formed, and the frames of callers are marked
and none of theirs. -/
def SpacesTables {Heap : Type*} (kernelDir : ℕ) (dirs : List ℕ) (callers : Set ℕ)
    (kernel : Kernel Heap) : Prop :=
  ∃ reserved, VmSystem.Inv kernelDir reserved
    ⟨kernel, dirs.map fun dir => ⟨[], ⟨dir * 4096⟩⟩, callers⟩

namespace SpacesTables

variable {Heap : Type*} {ops : HeapOps Heap} {kernel kernel' : Kernel Heap} {kernelDir dir : ℕ}
  {dirs : List ℕ} {callers callers' : Set ℕ} {vm vm' : VmSpace} {status : Status}

private theorem dirs_eq (dirs : List ℕ) :
    (dirs.map fun dir => (⟨[], ⟨dir * 4096⟩⟩ : VmSpace)).map VmSpace.dir = dirs := by
  rw [List.map_map]
  conv => rhs; rw [← List.map_id dirs]
  exact List.map_congr_left fun dir _ => vmSpace_dir_eq [] dir

theorem tables (inv : SpacesTables kernelDir dirs callers kernel) :
    KernelTables kernelDir dirs kernel := by
  obtain ⟨_, inv⟩ := inv
  have tables := inv.tables
  rwa [VmSystem.dirs, dirs_eq] at tables

theorem with_heap (inv : SpacesTables kernelDir dirs callers kernel) (heap : Heap) :
    SpacesTables kernelDir dirs callers { kernel with heap := heap } := by
  obtain ⟨reserved, inv⟩ := inv
  exact ⟨reserved, inv.tables.with_heap heap, inv.arch_eq, inv.residue, inv.disjoint, inv.below⟩

/-- A step on no address space keeps all directories. -/
theorem own (inv : SpacesTables kernelDir dirs callers kernel)
    (step : OwnStep (kernel, callers) (kernel', callers')) :
    SpacesTables kernelDir dirs callers' kernel' := by
  obtain ⟨reserved, inv⟩ := inv
  exact ⟨reserved, (step.inv inv).1⟩

/-- Callers may give up frames without releasing them. -/
theorem keep (inv : SpacesTables kernelDir dirs callers' kernel) (sub : callers ⊆ callers') :
    SpacesTables kernelDir dirs callers kernel := by
  obtain ⟨reserved, tables, arch_eq, residue, disjoint, below⟩ := inv
  refine ⟨reserved ∪ {frame | frame ∈ callers' ∧ frame ∉ callers}, tables, arch_eq,
    fun frame => ?_, ?_, ?_⟩
  · refine (residue frame).trans ?_
    have inside := @sub frame
    simp only [Set.mem_union, Set.mem_ofPred_eq]
    tauto
  · rintro frame member (frame_reserved | ⟨_, outside⟩)
    · exact disjoint frame (sub member) frame_reserved
    · exact outside member
  · exact fun frame member => below frame (sub member)

private theorem of_spaces {reserved : Set ℕ} {spaces : List VmSpace}
    (inv : VmSystem.Inv kernelDir reserved ⟨kernel, spaces, callers⟩)
    (dirs_of : spaces.map VmSpace.dir = dirs) : SpacesTables kernelDir dirs callers kernel := by
  subst dirs_of
  refine ⟨reserved, ?_, ?_, ?_, inv.disjoint, inv.below⟩
  · rw [VmSystem.dirs, dirs_eq]
    exact inv.tables
  · intro vm member
    obtain ⟨dir, _, rfl⟩ := List.mem_map.mp member
    rw [vmSpace_dir_eq]
  · rw [VmSystem.dirs, dirs_eq]
    exact inv.residue

/-- The address space of a directory may be put in its place. -/
private theorem exists_spaces {before after : List ℕ}
    (inv : SpacesTables kernelDir (before ++ dir :: after) callers kernel)
    (arch_eq : vm.arch = ⟨dir * 4096⟩) :
    ∃ reserved front back, front.map VmSpace.dir = before ∧ back.map VmSpace.dir = after ∧
      VmSystem.Inv kernelDir reserved ⟨kernel, front ++ vm :: back, callers⟩ := by
  have dir_eq : vm.dir = dir := by
    rw [VmSpace.dir, arch_eq]
    exact Nat.mul_div_cancel _ (by decide)
  obtain ⟨reserved, inv⟩ := inv
  have arches := inv.arch_eq
  rw [List.map_append, List.map_cons] at inv arches
  refine ⟨reserved, _, _, dirs_eq before, dirs_eq after, ?_, ?_, ?_, inv.disjoint, inv.below⟩
  · have tables := inv.tables
    simp only [VmSystem.dirs, List.map_append, List.map_cons, vmSpace_dir_eq] at tables ⊢
    rwa [dir_eq]
  · intro other member
    simp only [List.mem_append, List.mem_cons] at member arches
    rcases member with member | rfl | member
    · exact arches other (Or.inl member)
    · rw [dir_eq, arch_eq]
    · exact arches other (Or.inr (Or.inr member))
  · have residue := inv.residue
    simp only [VmSystem.dirs, List.map_append, List.map_cons, vmSpace_dir_eq] at residue ⊢
    rwa [dir_eq]

/-- A call on an address space keeps all directories. -/
theorem call (inv : SpacesTables kernelDir dirs callers kernel) (member : dir ∈ dirs)
    (arch_eq : vm.arch = ⟨dir * 4096⟩) {op : VmOp}
    (call : vmCall (x86Env ops) op vm kernel = (status, vm', kernel')) :
    SpacesTables kernelDir dirs callers kernel' ∧ vm'.arch = vm.arch := by
  obtain ⟨before, after, rfl⟩ := List.append_of_mem member
  obtain ⟨reserved, front, back, front_eq, back_eq, spaces_inv⟩ := inv.exists_spaces arch_eq
  obtain ⟨inv', same, _⟩ := vmCall_inv spaces_inv call
  have dir_eq : vm'.dir = dir := by
    rw [VmSpace.dir, same, arch_eq]
    exact Nat.mul_div_cancel _ (by decide)
  exact ⟨of_spaces inv' (by rw [List.map_append, List.map_cons, front_eq, back_eq, dir_eq]), same⟩

/-- A new address space adds its directory. -/
theorem spaceInit (inv : SpacesTables kernelDir dirs callers kernel)
    (call : vmSpaceInit (x86Env ops) kernel = (.ok vm, kernel')) :
    SpacesTables kernelDir (vm.dir :: dirs) callers kernel' ∧ vm.arch = ⟨vm.dir * 4096⟩ := by
  obtain ⟨reserved, inv⟩ := inv
  have inv' := (vmSpaceInit_inv inv call).1
  exact ⟨of_spaces inv' (by rw [List.map_cons, dirs_eq]), inv'.arch_eq vm List.mem_cons_self⟩

/-- Memory outside the directories may change at will. -/
theorem write (inv : SpacesTables kernelDir dirs callers kernel) {mem : ByteMemory}
    (kept : ∀ dir ∈ kernelDir :: dirs, ByteMemory.AgreeOn kernel.machine.mem mem dir) :
    SpacesTables kernelDir dirs callers (kernel.setMem mem) := by
  obtain ⟨tables, ready, kernelVm_eq⟩ := inv.tables
  obtain ⟨reserved, inv⟩ := inv
  have residue := inv.residue
  rw [VmSystem.dirs, dirs_eq] at residue
  have words (dir : ℕ) (member : dir ∈ kernelDir :: dirs) (index : ℕ) (index_lt : index < 1024) :
      mem.word dir index = kernel.machine.mem.word dir index :=
    (kept dir member).word_eq index_lt
  refine ⟨reserved, ⟨?_, ?_, kernelVm_eq⟩, inv.arch_eq, ?_, inv.disjoint, inv.below⟩
  · rw [VmSystem.dirs, dirs_eq]
    exact tables.congr words rfl fun slot owned => (tables.placed slot owned).2.2
  · intro index kernel_le index_lt
    have present := ready index kernel_le index_lt
    rwa [← words kernelDir (List.mem_cons_self ..) index index_lt] at present
  · intro frame
    rw [VmSystem.dirs, dirs_eq, ← residue frame]
    exact PageTables.residue_congr words frame Iff.rfl

/-- Destroying an address space removes its directory. -/
theorem spaceDestroy (inv : SpacesTables kernelDir (dir :: dirs) callers kernel)
    (arch_eq : vm.arch = ⟨dir * 4096⟩)
    (call : vmSpaceDestroy (x86Env ops) vm kernel = (status, vm', kernel')) :
    SpacesTables kernelDir dirs callers kernel' := by
  have whole : SpacesTables kernelDir ([] ++ dir :: dirs) callers kernel := inv
  obtain ⟨reserved, front, back, front_eq, back_eq, spaces_inv⟩ := whole.exists_spaces arch_eq
  obtain rfl := List.map_eq_nil_iff.mp front_eq
  exact of_spaces (vmSpaceDestroy_inv spaces_inv call).1 back_eq

end SpacesTables

/-! ## Kernel stacks -/

section Stacks

variable {Heap : Type*} {kernel kernel' : Kernel Heap} {kernelDir : ℕ} {dirs : List ℕ}
  {callers callers' : Set ℕ}

theorem kernCall_heap (op : KernOp) (kernel : Kernel Heap) :
    (kernCall op kernel).2.heap = kernel.heap := by
  cases op with
  | map virt phys size flags =>
      rw [kernCall, vmKernMap]
      split_ifs
      · rfl
      · rfl
  | unmap virt size =>
      rw [kernCall, vmKernUnmap]
      split_ifs
      · rfl
      · rfl
  | protect virt size flags =>
      rw [kernCall, vmKernProtect]
      split_ifs
      · rfl
      · rfl

/-- Steps on no address space do not touch the heap. -/
theorem OwnStep.heap_eq (step : OwnStep (kernel, callers) (kernel', callers')) :
    kernel'.heap = kernel.heap := by
  cases step with
  | @kernCall _ _ _ op status call =>
      have same := kernCall_heap op kernel
      rwa [call] at same
  | alloc call => rfl
  | free owned call => rfl
  | store outside => rfl

/-- The loop of `kstack_alloc` takes frames and maps them, and releases none. -/
theorem kstackMapPages_steps (base count i : ℕ) (kernel : Kernel Heap) (callers : Set ℕ) :
    ∃ callers', callers ⊆ callers' ∧ Relation.ReflTransGen OwnStep (kernel, callers)
      ((kstackMapPages base count i kernel).2, callers') := by
  induction count generalizing i kernel callers with
  | zero => exact ⟨callers, subset_rfl, .refl⟩
  | succ count induction =>
      rw [kstackMapPages]
      rcases pmmAllocAny_cases kernel.machine.pmm with ⟨failed, -⟩ | ⟨frame, allocated, -, -⟩
      · rw [failed]
        exact ⟨callers, subset_rfl, .refl⟩
      · rw [allocated]
        have taken : OwnStep (kernel, callers) (kernel.setPmm (pmmMark kernel.machine.pmm frame 1),
            callers ∪ framesFrom (frame * 4096) 1) := .alloc allocated
        obtain ⟨⟨status, mapped⟩, call⟩ : ∃ result, kernCall
            (.map ((base + i * archVmPageSize) % 2 ^ 32) (frame * 4096) archVmPageSize kstackFlags)
            (kernel.setPmm (pmmMark kernel.machine.pmm frame 1)) = result := ⟨_, rfl⟩
        have page := Relation.ReflTransGen.tail (.single taken) (OwnStep.kernCall call)
        rw [kernCall] at call
        dsimp only
        rw [call]
        cases status with
        | error error => exact ⟨_, Set.subset_union_left, page⟩
        | ok =>
            obtain ⟨callers', sub, rest⟩ := induction (i + 1) mapped
              (callers ∪ framesFrom (frame * 4096) 1)
            exact ⟨callers', Set.subset_union_left.trans sub, page.trans rest⟩

/-- However it ends, `kstack_alloc` keeps all directories and the heap. -/
theorem SpacesTables.kstackAlloc {state : KstackState Heap}
    (inv : SpacesTables kernelDir dirs callers state.kernel) (stack : KernelStack) :
    SpacesTables kernelDir dirs callers (kstackAlloc state stack).2.2.kernel ∧
      (ItWorksOS.kstackAlloc state stack).2.2.kernel.heap = state.kernel.heap := by
  have pages (base : ℕ) :
      SpacesTables kernelDir dirs callers (kstackMapPages base kernelStackPages 0 state.kernel).2 ∧
        (kstackMapPages base kernelStackPages 0 state.kernel).2.heap = state.kernel.heap := by
    obtain ⟨callers', sub, steps⟩ :=
      kstackMapPages_steps base kernelStackPages 0 state.kernel callers
    have kept (next : Kernel Heap × Set ℕ)
        (steps : Relation.ReflTransGen OwnStep (state.kernel, callers) next) :
        SpacesTables kernelDir dirs next.2 next.1 ∧ next.1.heap = state.kernel.heap := by
      induction steps with
      | refl => exact ⟨inv, rfl⟩
      | tail _ step induction => exact ⟨induction.1.own step, step.heap_eq.trans induction.2⟩
    obtain ⟨tables, heap_eq⟩ := kept _ steps
    exact ⟨tables.keep sub, heap_eq⟩
  rw [ItWorksOS.kstackAlloc]
  split_ifs
  · exact ⟨inv, rfl⟩
  · cases bitmapFindZero state.bm with
    | none => exact ⟨inv, rfl⟩
    | some pos =>
        have kept := pages ((kernelStackBase + kernelStackPages * pos * archVmPageSize) % 2 ^ 32)
        dsimp only
        split
        · rename_i error kernel ran
          rwa [ran] at kept
        · rename_i kernel ran
          rwa [ran] at kept

end Stacks

/-! ## Runs -/

/-- The process table together with what other kernel code owns. -/
structure ProcessRun where
  /-- Memory management and the process table. -/
  state : ProcessTable
  /-- Frames that other kernel code has allocated. -/
  callers : Set ℕ
  /-- Heap pointers that other kernel code holds. -/
  clients : Multiset ℕ

/-- The state after boot: number `0` is reserved and there is no process. -/
def processBoot (kernel : Kernel Kheap) (procs : ℕ → NamedProcess) : ProcessRun where
  state :=
    { memory := (kstackBoot kernel).state
      pids := (pidInit pidBm).2
      table := fun _ => 0
      procs := procs }
  callers := ∅
  clients := 0

/-- The frame is the page directory of the kernel or of a process. -/
def ProcessTable.Directory (state : ProcessTable) (frame : ℕ) : Prop :=
  state.kernel.kernelVm.pdPhys = frame * 4096 ∨
    ∃ pid, state.table pid ≠ 0 ∧ (state.procs (state.table pid)).vm.dir = frame

/-- A call of `process_create`, a call on the address space of a process, a change of the other
members of a process, a step of other kernel code, or a write to memory. -/
inductive ProcessStep : ProcessRun → ProcessRun → Prop
  | create {run : ProcessRun} {name ptr : ℕ} {state : ProcessTable}
      (call : processCreate name run.state = (ptr, state)) :
      ProcessStep run { run with state := state }
  | space {run : ProcessRun} {pid : ℕ} {op : VmOp} {status : Status} {vm : VmSpace}
      {kernel : Kernel Kheap} (used : run.state.table pid ≠ 0)
      (call : vmCall (x86Env kheapOps) op (run.state.procs (run.state.table pid)).vm
        run.state.kernel = (status, vm, kernel)) :
      ProcessStep run
        { run with
          state := (run.state.setKernel kernel).setProc (run.state.table pid)
            { run.state.procs (run.state.table pid) with vm := vm } }
  | member {run : ProcessRun} {pid : ℕ} {process : Process} (used : run.state.table pid ≠ 0)
      (same : process.vm = (run.state.procs (run.state.table pid)).vm) :
      ProcessStep run
        { run with
          state := run.state.setProc (run.state.table pid)
            { run.state.procs (run.state.table pid) with toProcess := process } }
  | own {run : ProcessRun} {kernel : Kernel Kheap} {callers : Set ℕ}
      (step : OwnStep (run.state.kernel, run.callers) (kernel, callers)) :
      ProcessStep run { run with state := run.state.setKernel kernel, callers := callers }
  | kstack {run : ProcessRun} {stack stack' : KernelStack} {status : Status}
      {memory : KstackState Kheap}
      (call : kstackAlloc run.state.memory stack = (status, stack', memory)) :
      ProcessStep run { run with state := { run.state with memory := memory } }
  | kmalloc {run : ProcessRun} {size ptr : ℕ} {heap : Kheap} (fits : KmallocFits size)
      (call : kmalloc run.state.kernel.heap size = some (ptr, heap)) :
      ProcessStep run
        { run with
          state := run.state.setKernel { run.state.kernel with heap := heap }
          clients := if kerrPtrIsErr ptr then run.clients else ptr ::ₘ run.clients }
  | kfree {run : ProcessRun} {ptr : ℕ} {heap : Kheap} (held : ptr ∈ run.clients)
      (call : kfree run.state.kernel.heap ptr = (.ok (), heap)) :
      ProcessStep run
        { run with
          state := run.state.setKernel { run.state.kernel with heap := heap }
          clients := run.clients.erase ptr }
  | store {run : ProcessRun} {ptr addr : ℕ} {byte : UInt8} (held : ptr ∈ run.clients)
      (lower : ptr ≤ addr)
      (upper : addr < (KheapRun.initial run.state.kernel.heap).payloadEnd ptr) :
      ProcessStep run
        { run with
          state := run.state.setKernel
            { run.state.kernel with
              heap := { run.state.kernel.heap with
                mem := run.state.kernel.heap.mem.write8 addr byte } } }
  | write {run : ProcessRun} {mem : ByteMemory}
      (kept : ∀ frame, run.state.Directory frame →
        ByteMemory.AgreeOn run.state.kernel.machine.mem mem frame) :
      ProcessStep run { run with state := run.state.setKernel (run.state.kernel.setMem mem) }

/-! ## Invariant -/

/-- The heap pointers of a process: its structure and the records of its areas. -/
def ProcessTable.ownedBy (state : ProcessTable) (pid : ℕ) : Multiset ℕ :=
  if state.table pid = 0 then 0
  else state.table pid ::ₘ (state.procs (state.table pid)).vm.areas

/-- The heap pointers of all processes. -/
def ProcessTable.owned (state : ProcessTable) : Multiset ℕ :=
  ∑ pid ∈ Finset.range pidMax, state.ownedBy pid

/-- The numbers in use are those of the bitmap, the address spaces of the processes are those of
the page tables, and no two owners share a heap block. -/
structure ProcessRun.Inv (kernelDir : ℕ) (run : ProcessRun) : Prop where
  nbits : run.state.pids.nbits = pidMax
  reserved : bitmapTest run.state.pids 0 = true
  used : ∀ pid, run.state.table pid ≠ 0 → pid < pidMax ∧
    bitmapTest run.state.pids pid = true ∧ (run.state.procs (run.state.table pid)).pid = pid
  spaces : ∃ dirs, SpacesTables kernelDir dirs run.callers run.state.kernel ∧
    (∀ pid, run.state.table pid ≠ 0 → (run.state.procs (run.state.table pid)).vm.dir ∈ dirs ∧
      (run.state.procs (run.state.table pid)).vm.arch =
        ⟨(run.state.procs (run.state.table pid)).vm.dir * 4096⟩) ∧
    ∀ dir ∈ dirs, ∃ pid, run.state.table pid ≠ 0 ∧
      (run.state.procs (run.state.table pid)).vm.dir = dir
  heap : HeapOwned run.state.kernel.heap (run.clients + run.state.owned)

namespace ProcessRun

variable {run : ProcessRun} {state : ProcessTable} {kernelDir : ℕ} {callers : Set ℕ}
  {clients : Multiset ℕ}

/-- Steps that leave the processes alone keep the invariant. -/
theorem Inv.of_same (inv : run.Inv kernelDir) (pids : state.pids = run.state.pids)
    (table : state.table = run.state.table)
    (procs : ∀ pid, run.state.table pid ≠ 0 →
      state.procs (run.state.table pid) = run.state.procs (run.state.table pid))
    (spaces : ∀ dirs, SpacesTables kernelDir dirs run.callers run.state.kernel →
      (∀ dir ∈ dirs, run.state.Directory dir) → SpacesTables kernelDir dirs callers state.kernel)
    (heap : HeapOwned state.kernel.heap (clients + run.state.owned)) :
    Inv kernelDir ⟨state, callers, clients⟩ := by
  have owned : state.owned = run.state.owned := by
    refine Finset.sum_congr rfl fun pid _ => ?_
    unfold ProcessTable.ownedBy
    rw [table]
    split_ifs with empty
    · rfl
    · rw [procs pid empty]
  obtain ⟨dirs, tables, of_process, of_dir⟩ := inv.spaces
  refine ⟨?_, ?_, ?_,
    ⟨dirs, spaces dirs tables fun dir member => Or.inr (of_dir dir member), ?_, ?_⟩, ?_⟩
  · rw [pids]
    exact inv.nbits
  · rw [pids]
    exact inv.reserved
  · intro pid used
    simp only [table] at used ⊢
    rw [pids, procs pid used]
    exact inv.used pid used
  · intro pid used
    simp only [table] at used ⊢
    rw [procs pid used]
    exact of_process pid used
  · intro dir member
    obtain ⟨pid, used, dir_eq⟩ := of_dir dir member
    refine ⟨pid, ?_, ?_⟩
    · simpa only [table] using used
    · simp only [table]
      rw [procs pid used]
      exact dir_eq
  · rw [owned]
    exact heap

/-- The heap pointers of all processes but one. -/
private def othersOwned (state : ProcessTable) (pid : ℕ) : Multiset ℕ :=
  ∑ other ∈ (Finset.range pidMax).erase pid, state.ownedBy other

private theorem owned_eq (state : ProcessTable) {pid : ℕ} (pid_lt : pid < pidMax) :
    state.owned = state.ownedBy pid + othersOwned state pid :=
  (Finset.add_sum_erase _ _ (Finset.mem_range.mpr pid_lt)).symm

private theorem ownedBy_of_unused {pid : ℕ} (unused : state.table pid = 0) :
    state.ownedBy pid = 0 := if_pos unused

private theorem ownedBy_of_used {pid : ℕ} (used : state.table pid ≠ 0) :
    state.ownedBy pid = state.table pid ::ₘ (state.procs (state.table pid)).vm.areas :=
  if_neg used

/-- The structure of a process is a heap block that it owns. -/
theorem Inv.table_mem (inv : run.Inv kernelDir) {pid : ℕ} (used : run.state.table pid ≠ 0) :
    run.state.table pid ∈ run.state.owned := by
  rw [owned_eq run.state (inv.used pid used).1, ownedBy_of_used used]
  exact Multiset.mem_add.mpr (Or.inl (Multiset.mem_cons_self _ _))

/-- Distinct processes have distinct structures. -/
theorem Inv.table_ne (inv : run.Inv kernelDir) {pid other : ℕ} (used : run.state.table pid ≠ 0)
    (other_used : run.state.table other ≠ 0) (differ : other ≠ pid) :
    run.state.table other ≠ run.state.table pid := by
  intro same
  have number := (inv.used other other_used).2.2
  rw [same, (inv.used pid used).2.2] at number
  exact differ number.symm

/-- Changing one process, and memory management with it, keeps the invariant. -/
theorem Inv.setProc (inv : run.Inv kernelDir) {pid : ℕ} (used : run.state.table pid ≠ 0)
    {process : NamedProcess} {kernel : Kernel Kheap} (number : process.pid = pid)
    (arch_eq : process.vm.arch = (run.state.procs (run.state.table pid)).vm.arch)
    (spaces : ∀ dirs, (run.state.procs (run.state.table pid)).vm.dir ∈ dirs →
      SpacesTables kernelDir dirs run.callers run.state.kernel →
        SpacesTables kernelDir dirs run.callers kernel)
    (heap : ∀ rest, HeapOwned run.state.kernel.heap
        (rest + (run.state.procs (run.state.table pid)).vm.areas) →
      HeapOwned kernel.heap (rest + process.vm.areas)) :
    Inv kernelDir
      { run with state := (run.state.setKernel kernel).setProc (run.state.table pid) process } := by
  have pid_lt := (inv.used pid used).1
  have dir_eq : process.vm.dir = (run.state.procs (run.state.table pid)).vm.dir := by
    rw [VmSpace.dir, arch_eq, VmSpace.dir]
  have self : Function.update run.state.procs (run.state.table pid) process
      (run.state.table pid) = process := Function.update_self ..
  have others {other : ℕ} (other_used : run.state.table other ≠ 0) (differ : other ≠ pid) :
      Function.update run.state.procs (run.state.table pid) process (run.state.table other) =
        run.state.procs (run.state.table other) :=
    Function.update_of_ne (inv.table_ne used other_used differ) ..
  obtain ⟨dirs, tables, of_process, of_dir⟩ := inv.spaces
  refine ⟨inv.nbits, inv.reserved, ?_,
    ⟨dirs, spaces dirs (of_process pid used).1 tables, ?_, ?_⟩, ?_⟩
  · intro other other_used
    by_cases same : other = pid
    · subst same
      refine ⟨pid_lt, (inv.used other used).2.1, ?_⟩
      simp only [ProcessTable.setProc, ProcessTable.setKernel, self, number]
    · simp only [ProcessTable.setProc, ProcessTable.setKernel]
      rw [others other_used same]
      exact inv.used other other_used
  · intro other other_used
    simp only [ProcessTable.setProc, ProcessTable.setKernel]
    by_cases same : other = pid
    · subst same
      rw [self, dir_eq, arch_eq]
      exact of_process other used
    · rw [others other_used same]
      exact of_process other other_used
  · intro dir member
    obtain ⟨other, other_used, other_dir⟩ := of_dir dir member
    refine ⟨other, other_used, ?_⟩
    simp only [ProcessTable.setProc, ProcessTable.setKernel]
    by_cases same : other = pid
    · subst same
      rw [self, dir_eq]
      exact other_dir
    · rw [others other_used same]
      exact other_dir
  · have before := inv.heap
    rw [owned_eq run.state pid_lt, ownedBy_of_used used] at before
    rw [owned_eq _ pid_lt, ownedBy_of_used (by exact used)]
    have kept : othersOwned ((run.state.setKernel kernel).setProc (run.state.table pid) process)
        pid = othersOwned run.state pid := by
      refine Finset.sum_congr rfl fun other member => ?_
      have differ := (Finset.mem_erase.mp member).1
      by_cases unused : run.state.table other = 0
      · rw [ownedBy_of_unused unused, ownedBy_of_unused (by exact unused)]
      · rw [ownedBy_of_used unused, ownedBy_of_used (by exact unused)]
        simp only [ProcessTable.setProc, ProcessTable.setKernel]
        rw [others unused differ]
    have regroup (areas : Multiset ℕ) : run.clients + (run.state.table pid ::ₘ areas +
        othersOwned run.state pid) =
          run.clients + (run.state.table pid ::ₘ othersOwned run.state pid) + areas := by
      rw [Multiset.cons_add, Multiset.add_cons, Multiset.add_cons, Multiset.cons_add,
        Multiset.add_comm areas, Multiset.add_assoc]
    rw [kept]
    simp only [ProcessTable.setProc, ProcessTable.setKernel, self]
    rw [regroup] at before ⊢
    exact heap _ before

end ProcessRun

/-! ## Creating a process -/

/-- The numbers, the table and the frames are as they were, and the heap has the same blocks. Only
the order of its free list may differ. -/
structure ProcessTable.Restored (state state' : ProcessTable) : Prop where
  pids : state'.pids = state.pids
  table : state'.table = state.table
  pmm : state'.kernel.machine.pmm = state.kernel.machine.pmm
  blocks : ∃ blocks free free', KheapInv state.kernel.heap blocks free ∧
    KheapInv state'.kernel.heap blocks free'

namespace ProcessRun

variable {run : ProcessRun} {kernelDir : ℕ}

/-- The state in which `kstack_alloc` is called. -/
private def createdState (state : ProcessTable) (name pid proc : ℕ) (heap : Kheap)
    (kernelDir frame : ℕ) : ProcessTable where
  memory :=
    { state.memory with
      kernel :=
        { state.kernel with
          machine := attachedFrame state.kernel.machine kernelDir frame
          heap := heap } }
  pids := bitmapSet state.pids pid
  table := state.table
  procs := Function.update state.procs proc
    { freshProcess name pid with vm := { vmas := [], arch := ⟨frame * 4096⟩ } }

private theorem createdState_proc (state : ProcessTable) (name pid proc : ℕ) (heap : Kheap)
    (kernelDir frame : ℕ) :
    (createdState state name pid proc heap kernelDir frame).procs proc =
      { freshProcess name pid with vm := { vmas := [], arch := ⟨frame * 4096⟩ } } :=
  Function.update_self ..

theorem Inv.restored_refl (inv : run.Inv kernelDir) : run.state.Restored run.state := by
  obtain ⟨_, blocks, free, heap_inv, _⟩ := inv.heap
  exact ⟨rfl, rfl, rfl, blocks, free, free, heap_inv, heap_inv⟩

/-- A fresh heap block is the structure of no process. -/
private theorem procs_of_fresh {heap : Kheap} {proc : ℕ} (inv : run.Inv kernelDir)
    (owned : HeapOwned heap (proc ::ₘ (run.clients + run.state.owned))) (process : NamedProcess)
    {pid : ℕ} (used : run.state.table pid ≠ 0) :
    Function.update run.state.procs proc process (run.state.table pid) =
      run.state.procs (run.state.table pid) := by
  refine Function.update_of_ne ?_ ..
  intro same
  have fresh := (Multiset.nodup_cons.mp owned.1).1
  exact fresh (Multiset.mem_add.mpr (Or.inr (same ▸ inv.table_mem used)))

/-- A resource of `process_create` up to `vm_space_init` is missing. -/
def Exhausted (run : ProcessRun) (name : ℕ) : Prop :=
  name = 0 ∨ pidAlloc run.state.pids = (.error .nospc, run.state.pids) ∨
    (∃ error, kmalloc run.state.kernel.heap processSize =
      some (kerrPtr error, run.state.kernel.heap)) ∨
    ∀ frame, ¬ FreshFrame run.state.kernel.machine frame

/-- What `process_create` has obtained when it calls `kstack_alloc`. -/
structure Creating (run : ProcessRun) (kernelDir pid proc frame : ℕ) (heap : Kheap) : Prop where
  first_le : pidFirst ≤ pid
  pid_lt : pid < pidMax
  clear : bitmapTest run.state.pids pid = false
  served : kmalloc run.state.kernel.heap processSize = some (proc, heap)
  valid : kerrPtrIsErr proc = false
  proc_pos : 0 < proc
  owned : HeapOwned heap (proc ::ₘ (run.clients + run.state.owned))
  fresh : FreshFrame run.state.kernel.machine frame
  created : vmSpaceInit (x86Env kheapOps) { run.state.kernel with heap := heap } =
    (.ok ⟨[], ⟨frame * 4096⟩⟩, { run.state.kernel with
      machine := attachedFrame run.state.kernel.machine kernelDir frame
      heap := heap })

private theorem kmallocFits_processSize : KmallocFits processSize := by
  unfold KmallocFits
  decide

/-- Releasing the structure of a process that was not created gives its block back. -/
private theorem Inv.kfree_proc {heap : Kheap} {proc : ℕ} (inv : run.Inv kernelDir)
    (served : kmalloc run.state.kernel.heap processSize = some (proc, heap))
    (valid : kerrPtrIsErr proc = false)
    (owned : HeapOwned heap (proc ::ₘ (run.clients + run.state.owned))) :
    ∃ heap' blocks free free', kfree heap proc = (.ok (), heap') ∧
      KheapInv run.state.kernel.heap blocks free ∧ KheapInv heap' blocks free' ∧
      HeapOwned heap' (run.clients + run.state.owned) := by
  obtain ⟨_, blocks, free, heap_inv, _⟩ := inv.heap
  obtain ⟨heap', free', released, heap_inv'⟩ :=
    kfree_kmalloc heap_inv kmallocFits_processSize served valid (by decide)
  have owned' := owned.kfree
  rw [released] at owned'
  exact ⟨heap', blocks, free, free', released, heap_inv, heap_inv', owned'⟩

/-- Up to `vm_space_init`, a failure restores everything. -/
theorem Inv.processCreateSpace_cases (inv : run.Inv kernelDir) (name : ℕ) :
    (∃ ptr state, processCreateSpace name run.state = (.error ptr, state) ∧
        kerrPtrIsErr ptr = true ∧ run.state.Restored state ∧
        Inv kernelDir { run with state := state } ∧ run.Exhausted name) ∨
      ∃ pid proc heap frame, processCreateSpace name run.state =
          (.ok (pid, proc), createdState run.state name pid proc heap kernelDir frame) ∧
        run.Creating kernelDir pid proc frame heap := by
  by_cases unnamed : name = 0
  · exact Or.inl ⟨_, _, by rw [processCreateSpace, if_pos unnamed],
      kerrPtrIsErr_kerrPtr .inval, inv.restored_refl, inv, Or.inl unnamed⟩
  rcases pidAlloc_cases inv.nbits inv.reserved with full | ⟨pid, number, first_le, pid_lt, clear⟩
  · refine Or.inl ⟨kerrPtr .nospc, run.state, ?_, kerrPtrIsErr_kerrPtr .nospc, inv.restored_refl,
      inv, Or.inr (Or.inl full)⟩
    rw [processCreateSpace, if_neg unnamed, full]
  have freed := pidFree_pidAlloc clear first_le pid_lt
  rcases inv.heap.kmalloc_cases kmallocFits_processSize with ⟨error, failed⟩ |
      ⟨proc, heap, served, valid, proc_pos, owned⟩
  · have result : kheapOps.kmalloc run.state.kernel.heap processSize =
        (kerrPtr error, run.state.kernel.heap) := by
      simp only [kheapOps, failed, Option.getD_some]
    refine Or.inl ⟨kerrPtr error, run.state, ?_, kerrPtrIsErr_kerrPtr error, inv.restored_refl, inv,
      Or.inr (Or.inr (Or.inl ⟨error, failed⟩))⟩
    rw [processCreateSpace, if_neg unnamed, number]
    simp only [ProcessTable.kernel] at result ⊢
    simp only [result, kerrPtrIsErr_kerrPtr, if_true, ProcessTable.freePid,
      ProcessTable.setKernel, freed]
  · have result : kheapOps.kmalloc run.state.kernel.heap processSize = (proc, heap) := by
      simp only [kheapOps, served, Option.getD_some]
    obtain ⟨dirs, tables, _⟩ := inv.spaces
    have outcome : (vmSpaceInit (x86Env kheapOps) { run.state.kernel with heap := heap } = _ ∧ _) ∨
        _ := vmSpaceInit_cases (tables.tables.with_heap heap)
    rcases outcome with ⟨failed, exhausted⟩ | ⟨frame, fresh, created⟩
    · left
      obtain ⟨heap', blocks, free, free', released, heap_inv, heap_inv', owned'⟩ :=
        inv.kfree_proc served valid owned
      refine ⟨kerrPtr .nomem,
        { memory :=
            { run.state.memory with kernel := { run.state.kernel with heap := heap' } }
          pids := run.state.pids
          table := run.state.table
          procs := Function.update run.state.procs proc (freshProcess name pid) }, ?_,
        kerrPtrIsErr_kerrPtr .nomem, ⟨rfl, rfl, rfl, blocks, free, free', heap_inv, heap_inv'⟩, ?_,
        Or.inr (Or.inr (Or.inr exhausted))⟩
      · rw [processCreateSpace, if_neg unnamed, number]
        simp only [ProcessTable.kernel] at result failed ⊢
        simp only [result, valid, Bool.false_eq_true, if_false, ProcessTable.setKernel,
          ProcessTable.kernel, failed, ProcessTable.setProc, ProcessTable.freePid,
          ProcessTable.freeProc, freed, released]
      · exact inv.of_same rfl rfl (fun _ used => procs_of_fresh inv owned _ used)
          (fun _ tables _ => tables.with_heap heap') owned'
    · right
      refine ⟨pid, proc, heap, frame, ?_, first_le, pid_lt, clear, served, valid, proc_pos, owned,
        fresh, created⟩
      rw [processCreateSpace, if_neg unnamed, number]
      simp only [ProcessTable.kernel] at result created ⊢
      simp only [result, valid, ProcessTable.setKernel, created]
      rfl

/-- A new process with a number that was not in use, a fresh heap block and a new directory. -/
theorem Inv.addProcess (inv : run.Inv kernelDir) {pid proc frame : ℕ} {process : NamedProcess}
    {memory : KstackState Kheap} (pid_lt : pid < pidMax)
    (clear : bitmapTest run.state.pids pid = false) (proc_pos : 0 < proc)
    (owned : HeapOwned memory.kernel.heap (proc ::ₘ (run.clients + run.state.owned)))
    (number : process.pid = pid) (empty : process.vm = { vmas := [], arch := ⟨frame * 4096⟩ })
    (spaces : ∀ dirs, SpacesTables kernelDir dirs run.callers run.state.kernel →
      SpacesTables kernelDir (frame :: dirs) run.callers memory.kernel) :
    Inv kernelDir
      { run with
        state :=
          { memory := memory
            pids := bitmapSet run.state.pids pid
            table := Function.update run.state.table pid proc
            procs := Function.update run.state.procs proc process } } := by
  have unused : run.state.table pid = 0 := by
    by_contra used
    rw [(inv.used pid used).2.1] at clear
    cases clear
  have table_self : Function.update run.state.table pid proc pid = proc := Function.update_self ..
  have procs_self : Function.update run.state.procs proc process proc = process :=
    Function.update_self ..
  have table_other {other : ℕ} (differ : other ≠ pid) :
      Function.update run.state.table pid proc other = run.state.table other :=
    Function.update_of_ne differ ..
  have procs_other {other : ℕ} (used : run.state.table other ≠ 0) :
      Function.update run.state.procs proc process (run.state.table other) =
        run.state.procs (run.state.table other) := procs_of_fresh inv owned process used
  have dir_eq : process.vm.dir = frame := by
    rw [empty]
    exact vmSpace_dir_eq [] frame
  obtain ⟨dirs, tables, of_process, of_dir⟩ := inv.spaces
  refine ⟨inv.nbits, ?_, ?_, ⟨frame :: dirs, spaces dirs tables, ?_, ?_⟩, ?_⟩
  · rw [bitmapTest_bitmapSet, inv.reserved, Bool.or_true]
  · intro other used
    rw [bitmapTest_bitmapSet]
    by_cases same : other = pid
    · subst same
      simp only [table_self, procs_self]
      exact ⟨pid_lt, by simp, number⟩
    · simp only [table_other same] at used ⊢
      rw [procs_other used, (inv.used other used).2.1, Bool.or_true]
      exact ⟨(inv.used other used).1, rfl, (inv.used other used).2.2⟩
  · intro other used
    by_cases same : other = pid
    · subst same
      simp only [table_self, procs_self]
      rw [dir_eq, empty]
      exact ⟨List.mem_cons_self, rfl⟩
    · simp only [table_other same] at used ⊢
      rw [procs_other used]
      exact ⟨List.mem_cons_of_mem _ (of_process other used).1, (of_process other used).2⟩
  · intro dir member
    rcases List.mem_cons.mp member with rfl | member
    · refine ⟨pid, ?_, ?_⟩
      · simp only [table_self]
        omega
      · simp only [table_self, procs_self]
        exact dir_eq
    · obtain ⟨other, used, other_dir⟩ := of_dir dir member
      have differ : other ≠ pid := by
        rintro rfl
        exact used unused
      refine ⟨other, ?_, ?_⟩
      · simpa only [table_other differ] using used
      · simp only [table_other differ]
        rw [procs_other used]
        exact other_dir
  · rw [owned_eq _ pid_lt, ownedBy_of_used (by simp only [table_self]; omega)]
    simp only [table_self, procs_self]
    have kept : othersOwned
        { memory := memory
          pids := bitmapSet run.state.pids pid
          table := Function.update run.state.table pid proc
          procs := Function.update run.state.procs proc process } pid =
        othersOwned run.state pid := by
      refine Finset.sum_congr rfl fun other member => ?_
      have other_table := table_other (Finset.mem_erase.mp member).1
      by_cases used : run.state.table other = 0
      · rw [ownedBy_of_unused used, ownedBy_of_unused (other_table.trans used)]
      · have other_used : Function.update run.state.table pid proc other ≠ 0 := by
          rwa [other_table]
        rw [ownedBy_of_used used, ownedBy_of_used (by exact other_used)]
        simp only [other_table]
        rw [procs_other used]
    have areas_eq : process.vm.areas = 0 := by
      rw [empty]
      rfl
    rw [owned_eq run.state pid_lt, ownedBy_of_unused unused, Multiset.zero_add] at owned
    rw [kept, areas_eq, Multiset.cons_add, Multiset.zero_add, Multiset.add_cons]
    exact owned

/-- Destroying an address space without areas releases no heap block. -/
private theorem vmSpaceDestroy_heap {Heap : Type*} (ops : HeapOps Heap) (arch : ArchVmSpace)
    (kernel : Kernel Heap) :
    (vmSpaceDestroy (x86Env ops) { vmas := [], arch := arch } kernel).2.2.heap = kernel.heap := rfl

section Stack

variable {pid proc frame : ℕ} {heap : Kheap} {dirs : List ℕ} {stack : KernelStack}
  {memory : KstackState Kheap}

/-- The tables when `kstack_alloc` is called. -/
private theorem Creating.tables (creating : run.Creating kernelDir pid proc frame heap) (name : ℕ)
    (tables : SpacesTables kernelDir dirs run.callers run.state.kernel) :
    SpacesTables kernelDir (frame :: dirs) run.callers
      (createdState run.state name pid proc heap kernelDir frame).kernel := by
  have attached := ((tables.with_heap heap).spaceInit creating.created).1
  rwa [vmSpace_dir_eq] at attached

/-- The tables behind `kstack_alloc`. -/
private theorem Creating.stacked (creating : run.Creating kernelDir pid proc frame heap)
    {name : ℕ} {status : Status}
    (call : kstackAlloc (createdState run.state name pid proc heap kernelDir frame).memory
      ⟨0, 0, 0⟩ = (status, stack, memory))
    (tables : SpacesTables kernelDir dirs run.callers run.state.kernel) :
    SpacesTables kernelDir (frame :: dirs) run.callers memory.kernel ∧
      memory.kernel.heap = heap := by
  have kept := SpacesTables.kstackAlloc (creating.tables name tables) ⟨0, 0, 0⟩
  rwa [call] at kept

/-- Destroying a fresh address space gives its directory back. -/
private theorem pmm_of_destroyed {machine : Machine} (tables : PageTables kernelDir dirs machine)
    (fresh : FreshFrame machine frame) (count_lt : machine.pmm.freeFrames < 2 ^ 32) :
    pmmUnmarkAll (attachedFrame machine kernelDir frame).pmm
      (spaceFrames (attachedFrame machine kernelDir frame) frame) = machine.pmm := by
  rw [spaceFrames_attachedFrame tables fresh, attachedFrame_pmm tables fresh]
  refine Pmm.pmmUnmark_pmmMark (fun other lower upper => ?_) (by decide) count_lt
  obtain rfl : other = frame := by omega
  exact fresh.free

/-- A failure of `kstack_alloc` keeps the invariant, and it restores everything if no frame was
taken. -/
private theorem Inv.processCreateStack_error (inv : run.Inv kernelDir) {name : ℕ} {error : KError}
    (creating : run.Creating kernelDir pid proc frame heap)
    (call : kstackAlloc (createdState run.state name pid proc heap kernelDir frame).memory
      ⟨0, 0, 0⟩ = (.error error, stack, memory)) :
    ∃ state, processCreateStack pid proc
        (createdState run.state name pid proc heap kernelDir frame) = (kerrPtr error, state) ∧
      Inv kernelDir { run with state := state } ∧
      (KstackRefused (createdState run.state name pid proc heap kernelDir frame).memory
          ⟨0, 0, 0⟩ → run.state.kernel.machine.pmm.freeFrames < 2 ^ 32 →
        run.state.Restored state) := by
  obtain ⟨dirs, tables, _⟩ := inv.spaces
  have self := createdState_proc run.state name pid proc heap kernelDir frame
  have freed := pidFree_pidAlloc creating.clear creating.first_le creating.pid_lt
  obtain ⟨⟨status, vm, kernel⟩, destroyed⟩ : ∃ result, vmSpaceDestroy (x86Env kheapOps)
      { vmas := [], arch := ⟨frame * 4096⟩ } memory.kernel = result := ⟨_, rfl⟩
  have heap_eq : kernel.heap = heap := by
    have kept := vmSpaceDestroy_heap kheapOps ⟨frame * 4096⟩ memory.kernel
    rw [destroyed] at kept
    exact kept.trans (creating.stacked call tables).2
  obtain ⟨heap', blocks, free, free', released, heap_inv, heap_inv', owned'⟩ :=
    inv.kfree_proc creating.served creating.valid creating.owned
  refine ⟨{ memory := { memory with kernel := { kernel with heap := heap' } }
            pids := run.state.pids
            table := run.state.table
            procs := Function.update run.state.procs proc
              { freshProcess name pid with vm := vm, kstack := stack } }, ?_, ?_, ?_⟩
  · have call' : kstackAlloc (createdState run.state name pid proc heap kernelDir frame).memory
        ((createdState run.state name pid proc heap kernelDir frame).procs proc).kstack =
          (.error error, stack, memory) := by
      rw [self]
      exact call
    have destroyed' : vmSpaceDestroy (x86Env kheapOps)
        ((createdState run.state name pid proc heap kernelDir frame).procs proc).vm
          memory.kernel = (status, vm, kernel) := by
      rw [self]
      exact destroyed
    rw [processCreateStack_of_error call' destroyed']
    simp only [self, ProcessTable.setProc, ProcessTable.freePid, ProcessTable.freeProc,
      ProcessTable.setKernel, ProcessTable.kernel, heap_eq, released]
    simp only [createdState, freed, Function.update_idem]
  · exact inv.of_same rfl rfl (fun _ used => procs_of_fresh inv creating.owned _ used)
      (fun _ tables _ =>
        ((creating.stacked call tables).1.spaceDestroy rfl destroyed).with_heap heap') owned'
  · intro refused count_lt
    obtain ⟨_, failed⟩ := kstackAlloc_refused refused
    rw [call] at failed
    obtain ⟨-, rest⟩ := Prod.mk.inj failed
    obtain ⟨-, rfl⟩ := Prod.mk.inj rest
    have whole : KernelTables kernelDir ([] ++ frame :: dirs) _ :=
      (creating.stacked call tables).1.tables
    obtain ⟨_, result⟩ := (vmSpaceDestroy_eq whole rfl : ∃ heap : Kheap, vmSpaceDestroy
      (x86Env kheapOps) { vmas := [], arch := ⟨frame * 4096⟩ } _ = _)
    rw [destroyed] at result
    obtain ⟨-, rest⟩ := Prod.mk.inj result
    obtain ⟨-, rfl⟩ := Prod.mk.inj rest
    exact ⟨rfl, rfl, pmm_of_destroyed tables.tables.tables creating.fresh count_lt, blocks, free,
      free', heap_inv, heap_inv'⟩

/-- A success of `kstack_alloc` adds one process. -/
private theorem Inv.processCreateStack_ok (inv : run.Inv kernelDir) {name : ℕ}
    (creating : run.Creating kernelDir pid proc frame heap)
    (call : kstackAlloc (createdState run.state name pid proc heap kernelDir frame).memory
      ⟨0, 0, 0⟩ = (.ok (), stack, memory)) :
    ∃ state, processCreateStack pid proc
        (createdState run.state name pid proc heap kernelDir frame) = (proc, state) ∧
      Inv kernelDir { run with state := state } ∧
      state.table = Function.update run.state.table pid proc ∧ (state.procs proc).pid = pid := by
  obtain ⟨dirs, tables, _⟩ := inv.spaces
  have self := createdState_proc run.state name pid proc heap kernelDir frame
  have call' : kstackAlloc (createdState run.state name pid proc heap kernelDir frame).memory
      ((createdState run.state name pid proc heap kernelDir frame).procs proc).kstack =
        (.ok (), stack, memory) := by
    rw [self]
    exact call
  have made : processCreateStack pid proc
      (createdState run.state name pid proc heap kernelDir frame) = (proc,
        { memory := memory
          pids := bitmapSet run.state.pids pid
          table := Function.update run.state.table pid proc
          procs := Function.update run.state.procs proc
            { freshProcess name pid with
              vm := { vmas := [], arch := ⟨frame * 4096⟩ }
              kstack := stack } }) := by
    rw [processCreateStack_of_ok call', self]
    simp only [ProcessTable.setProc, createdState, Function.update_idem]
  have owned' : HeapOwned memory.kernel.heap (proc ::ₘ (run.clients + run.state.owned)) := by
    rw [(creating.stacked call tables).2]
    exact creating.owned
  refine ⟨_, made, ?_, rfl, ?_⟩
  · exact inv.addProcess creating.pid_lt creating.clear creating.proc_pos owned' rfl rfl
      fun _ tables => (creating.stacked call tables).1
  · simp only [Function.update_self, freshProcess]

/-- From `kstack_alloc` on, a failure keeps the invariant, and it restores everything if no frame
was taken. A success adds one process. -/
theorem Inv.processCreateStack_cases (inv : run.Inv kernelDir) (name : ℕ)
    (creating : run.Creating kernelDir pid proc frame heap) :
    (∃ error state, processCreateStack pid proc
          (createdState run.state name pid proc heap kernelDir frame) = (kerrPtr error, state) ∧
        Inv kernelDir { run with state := state } ∧
        (KstackRefused (createdState run.state name pid proc heap kernelDir frame).memory
            ⟨0, 0, 0⟩ → run.state.kernel.machine.pmm.freeFrames < 2 ^ 32 →
          run.state.Restored state)) ∨
      ∃ state, processCreateStack pid proc
          (createdState run.state name pid proc heap kernelDir frame) = (proc, state) ∧
        Inv kernelDir { run with state := state } ∧
        ¬ KstackRefused (createdState run.state name pid proc heap kernelDir frame).memory
          ⟨0, 0, 0⟩ ∧
        state.table = Function.update run.state.table pid proc ∧ (state.procs proc).pid = pid := by
  obtain ⟨⟨status, stack, memory⟩, call⟩ : ∃ result, kstackAlloc
      (createdState run.state name pid proc heap kernelDir frame).memory ⟨0, 0, 0⟩ = result :=
    ⟨_, rfl⟩
  cases status with
  | error error => exact Or.inl ⟨error, inv.processCreateStack_error creating call⟩
  | ok =>
      obtain ⟨state, made, inv', table, number⟩ := inv.processCreateStack_ok creating call
      refine Or.inr ⟨state, made, inv', fun refused => ?_, table, number⟩
      obtain ⟨_, failed⟩ := kstackAlloc_refused refused
      rw [call] at failed
      cases failed

end Stack

/-- Every step keeps the invariant. -/
theorem Inv.step {run' : ProcessRun} (inv : run.Inv kernelDir) (step : ProcessStep run run') :
    run'.Inv kernelDir := by
  cases step with
  | @create name ptr state call =>
      rcases inv.processCreateSpace_cases name with
        ⟨_, _, failed, _, _, inv', _⟩ | ⟨pid, proc, heap, frame, spaced, creating⟩
      · rw [processCreate_of_error failed] at call
        obtain ⟨-, rfl⟩ := Prod.mk.inj call
        exact inv'
      · rw [processCreate_of_ok spaced] at call
        rcases inv.processCreateStack_cases name creating with
          ⟨_, _, result, inv', _⟩ | ⟨_, result, inv', _⟩
        · rw [result] at call
          obtain ⟨-, rfl⟩ := Prod.mk.inj call
          exact inv'
        · rw [result] at call
          obtain ⟨-, rfl⟩ := Prod.mk.inj call
          exact inv'
  | @space pid op status vm kernel used call =>
      obtain ⟨dirs, tables, of_process, _⟩ := inv.spaces
      obtain ⟨member, arch_eq⟩ := of_process pid used
      refine inv.setProc used (inv.used pid used).2.2 (tables.call member arch_eq call).2
        (fun _ member tables => (tables.call member arch_eq call).1) fun rest before => ?_
      have after := vmCall_owned before op
      rwa [call] at after
  | @member pid process used same =>
      refine inv.setProc used (inv.used pid used).2.2 ?_ (fun _ _ tables => tables)
        fun rest before => ?_
      · rw [same]
      · rwa [same]
  | @own kernel callers step =>
      refine inv.of_same rfl rfl (fun _ _ => rfl) (fun _ tables _ => tables.own step) ?_
      have heap_eq := step.heap_eq
      show HeapOwned kernel.heap _
      rw [heap_eq]
      exact inv.heap
  | @kstack stack stack' status memory call =>
      refine inv.of_same rfl rfl (fun _ _ => rfl) (fun dirs tables _ => ?_) ?_
      · have kept := (SpacesTables.kstackAlloc tables stack).1
        rwa [call] at kept
      · obtain ⟨dirs, tables, _⟩ := inv.spaces
        have heap_eq := (SpacesTables.kstackAlloc tables stack).2
        rw [call] at heap_eq
        show HeapOwned memory.kernel.heap _
        rw [heap_eq]
        exact inv.heap
  | @kmalloc size ptr heap fits call =>
      refine inv.of_same rfl rfl (fun _ _ => rfl) (fun _ tables _ => tables.with_heap heap) ?_
      show HeapOwned heap _
      rcases inv.heap.kmalloc_cases fits with ⟨error, failed⟩ | ⟨_, _, served, valid, _, owned⟩
      · rw [failed, Option.some.injEq, Prod.mk.injEq] at call
        obtain ⟨rfl, rfl⟩ := call
        rw [kerrPtrIsErr_kerrPtr, if_pos rfl]
        exact inv.heap
      · rw [served, Option.some.injEq, Prod.mk.injEq] at call
        obtain ⟨rfl, rfl⟩ := call
        rw [valid, if_neg Bool.false_ne_true, Multiset.cons_add]
        exact owned
  | @kfree ptr heap held call =>
      refine inv.of_same rfl rfl (fun _ _ => rfl) (fun _ tables _ => tables.with_heap heap) ?_
      have owned := inv.heap
      rw [← Multiset.cons_erase held, Multiset.cons_add] at owned
      have released := owned.kfree
      rwa [call] at released
  | @store ptr addr byte held lower upper =>
      refine inv.of_same rfl rfl (fun _ _ => rfl) (fun _ tables _ => tables.with_heap _) ?_
      exact inv.heap.store (Multiset.mem_add.mpr (Or.inl held)) lower upper byte
  | @write mem kept =>
      refine inv.of_same rfl rfl (fun _ _ => rfl) (fun dirs tables directories => ?_) inv.heap
      refine tables.write fun dir dir_mem => kept dir ?_
      rcases List.mem_cons.mp dir_mem with rfl | dir_mem
      · exact Or.inl (congrArg ArchVmSpace.pdPhys tables.tables.kernelVm_eq)
      · exact directories dir dir_mem

/-- Every run keeps the invariant. -/
theorem Inv.steps {run' : ProcessRun} (inv : run.Inv kernelDir)
    (steps : Relation.ReflTransGen ProcessStep run run') : run'.Inv kernelDir := by
  induction steps with
  | refl => exact inv
  | tail _ step induction => exact induction.step step

/-- After boot, the invariant holds. -/
theorem boot_inv {boot kernel : Kernel Kheap} {sections : KernelSections} {mem : ByteMemory}
    {freeList : ℕ} {heap : Kheap} {pmm : Pmm}
    (total_lt : boot.machine.pmm.totalFrames < 2 ^ 32)
    (init : vmKernInit sections boot = (.ok (), kernel))
    (static : ReservedData kernel.machine.pmm freeList 8)
    (heapInit : kheapInit mem freeList kernel.machine.pmm = (.ok heap, pmm))
    (procs : ℕ → NamedProcess) :
    ∃ kernelDir, (processBoot { kernel.setPmm pmm with heap := heap } procs).Inv kernelDir := by
  obtain ⟨kernelDir, start⟩ := vmKernInit_inv total_lt init
  obtain ⟨phys, allocated⟩ : ∃ phys, pmmAllocLowmem kernel.machine.pmm 256 = (.ok phys, pmm) := by
    rw [kheapInit] at heapInit
    rcases pmmAllocLowmem_cases kernel.machine.pmm (by decide : 0 < 256) with
      ⟨failed, _⟩ | ⟨_, served, _⟩
    · rw [failed] at heapInit
      cases heapInit
    · rw [served] at heapInit
      obtain ⟨-, rfl⟩ := Prod.mk.inj heapInit
      exact ⟨_, served⟩
  have tables : SpacesTables kernelDir [] ∅ kernel := ⟨_, start⟩
  have taken := (tables.own (OwnStep.alloc allocated)).keep (Set.empty_subset _)
  have number (query : ℕ) : bitmapTest (bitmapSet pidBm 0) query = decide (query = 0) := by
    rw [bitmapTest_bitmapSet]
    simp [pidBm, bitmapTest]
  refine ⟨kernelDir, rfl, ?_, fun pid used => absurd rfl used,
    ⟨[], taken.with_heap heap, fun pid used => absurd rfl used, fun dir member => ?_⟩, ?_⟩
  · exact (number 0).trans (decide_eq_true rfl)
  · cases member
  · have none_owned : ProcessTable.owned
        (processBoot { kernel.setPmm pmm with heap := heap } procs).state = 0 :=
      Finset.sum_eq_zero fun pid _ => ownedBy_of_unused rfl
    rw [none_owned]
    exact ⟨Multiset.nodup_zero, _, _, kheapInit_inv heapInit static,
      fun ptr member => absurd member (Multiset.notMem_zero ptr)⟩

end ProcessRun

/-- In every reachable state, `process_create` restores the numbers, the table, the frames and the
heap blocks when it fails before `kstack_alloc` takes a frame. When it succeeds, its number is
valid and new, and finds the process. -/
theorem processCreate_of_run {boot kernel : Kernel Kheap} {sections : KernelSections}
    {mem : ByteMemory} {freeList name ptr : ℕ} {heap : Kheap} {pmm : Pmm}
    {procs : ℕ → NamedProcess} {run : ProcessRun} {state : ProcessTable}
    (total_lt : boot.machine.pmm.totalFrames < 2 ^ 32)
    (init : vmKernInit sections boot = (.ok (), kernel))
    (static : ReservedData kernel.machine.pmm freeList 8)
    (heapInit : kheapInit mem freeList kernel.machine.pmm = (.ok heap, pmm))
    (steps : Relation.ReflTransGen ProcessStep
      (processBoot { kernel.setPmm pmm with heap := heap } procs) run)
    (count_lt : run.state.kernel.machine.pmm.freeFrames < 2 ^ 32)
    (call : processCreate name run.state = (ptr, state)) :
    ((∀ pid proc middle, processCreateSpace name run.state = (.ok (pid, proc), middle) →
        KstackRefused middle.memory (middle.procs proc).kstack) →
      kerrPtrIsErr ptr = true ∧ run.state.Restored state) ∧
    (kerrPtrIsErr ptr = false →
      ∃ pid : ℕ, 1 ≤ pid ∧ pid ≤ 63 ∧ processGet state pid = ptr ∧ (state.procs ptr).pid = pid ∧
        ∀ other : ℤ, other ≠ pid → processGet state other ≠ 0 →
          (state.procs (processGet state other)).pid ≠ pid) := by
  obtain ⟨kernelDir, start⟩ := ProcessRun.boot_inv total_lt init static heapInit procs
  have inv := start.steps steps
  rcases inv.processCreateSpace_cases name with
    ⟨_, _, failed, invalid, restored, _⟩ | ⟨pid, proc, heap', frame, spaced, creating⟩
  · rw [processCreate_of_error failed] at call
    obtain ⟨rfl, rfl⟩ := Prod.mk.inj call
    refine ⟨fun _ => ⟨invalid, restored⟩, fun accepted => ?_⟩
    rw [invalid] at accepted
    cases accepted
  rw [processCreate_of_ok spaced] at call
  have kstack_eq : ((ProcessRun.createdState run.state name pid proc heap' kernelDir frame).procs
      proc).kstack = ⟨0, 0, 0⟩ := by
    rw [ProcessRun.createdState_proc, freshProcess]
  rcases inv.processCreateStack_cases name creating with
    ⟨error, _, result, _, restored⟩ | ⟨_, result, inv', accepted, table, number⟩
  · rw [result] at call
    obtain ⟨rfl, rfl⟩ := Prod.mk.inj call
    refine ⟨fun refused => ?_, fun accepted => ?_⟩
    · have early := refused pid proc _ spaced
      rw [kstack_eq] at early
      exact ⟨kerrPtrIsErr_kerrPtr error, restored early count_lt⟩
    · rw [kerrPtrIsErr_kerrPtr] at accepted
      cases accepted
  · rw [result] at call
    obtain ⟨rfl, rfl⟩ := Prod.mk.inj call
    refine ⟨fun refused => ?_, fun _ => ?_⟩
    · have early := refused pid proc _ spaced
      rw [kstack_eq] at early
      exact absurd early accepted
    · refine ⟨pid, creating.first_le, Nat.le_of_lt_succ creating.pid_lt, ?_, number,
        fun other differ used => ?_⟩
      · rw [processGet_of_valid creating.first_le creating.pid_lt, table, Function.update_self]
      · obtain ⟨index, rfl, lower, upper⟩ := processGet_ne_zero used
        rw [processGet_of_valid lower upper] at used ⊢
        rw [(inv'.used index used).2.2]
        exact fun same => differ (congrArg Nat.cast same)

/-! ## A first process -/

/-- When few frames of a range are taken, a run of it stays free. -/
theorem Pmm.exists_lowRun {pmm pmm' : Pmm} {start pages count : ℕ}
    (low : ∀ frame, start ≤ frame → frame < start + pages * count → frame ∈ pmm.lowSet)
    (few : (pmm.lowSet \ pmm'.lowSet).card < count) :
    ∃ first, first + pages ≤ start + pages * count ∧
      ∀ frame, first ≤ frame → frame < first + pages → frame ∈ pmm'.lowSet := by
  by_contra none_free
  -- Every run of the range then contains a frame that was taken.
  have taken (index : ℕ) (index_lt : index < count) : ∃ frame ∈ pmm.lowSet \ pmm'.lowSet,
      start + pages * index ≤ frame ∧ frame < start + pages * index + pages := by
    have last : pages * index + pages ≤ pages * count := by
      rw [← Nat.mul_succ]
      exact Nat.mul_le_mul_left pages index_lt
    by_contra kept
    refine none_free ⟨start + pages * index, by omega, fun frame lower upper => ?_⟩
    by_contra outside
    exact kept
      ⟨frame, Finset.mem_sdiff.mpr ⟨low frame (by omega) (by omega), outside⟩, lower, upper⟩
  choose! frame member lower upper using taken
  refine few.not_ge ?_
  rw [← Finset.card_range count]
  refine Finset.card_le_card_of_injOn frame
    (fun index index_mem => member index (Finset.mem_range.mp index_mem)) ?_
  intro left left_mem right right_mem same
  have left_lt := Finset.mem_range.mp left_mem
  have right_lt := Finset.mem_range.mp right_mem
  have left_lower := lower left left_lt
  have left_upper := upper left left_lt
  have right_lower := lower right right_lt
  have right_upper := upper right right_lt
  rcases Nat.lt_trichotomy left right with before | same_index | after
  · have := Nat.mul_le_mul_left pages before
    rw [Nat.mul_succ] at this
    omega
  · exact same_index
  · have := Nat.mul_le_mul_left pages after
    rw [Nat.mul_succ] at this
    omega

/-- A machine with 260 MiB of memory whose first MiB is reserved. -/
def roomyKernel : Kernel Kheap where
  machine :=
    { mem := fun _ => 0
      pmm :=
        { bm := { data := smallPmm.bm.data, nbits := 66560 }
          maxAddr := 66560 * 4096
          totalFrames := 66560
          freeFrames := 66304 } }
  heap := { mem := fun _ => 0, start := 0, stop := 0, freeList := 0xC0008000 }
  kernelVm := ⟨0⟩

private theorem roomyKernel_low {frame : ℕ} :
    frame ∈ roomyKernel.machine.pmm.lowSet ↔ 256 ≤ frame ∧ frame < 66560 := by
  have reserved : ∀ frame < 256, roomyKernel.machine.pmm.Marked frame := by decide +kernel
  constructor
  · intro member
    obtain ⟨_, below, free⟩ := (@freshFrame_iff _ roomyKernel.machine).mpr member
    exact ⟨Nat.le_of_not_lt fun low => free (reserved frame low), below⟩
  · rintro ⟨lower, below⟩
    exact mem_lowSet_of_clear (by omega) below (if_neg (by omega))

/-- On the roomy machine, `vm_kern_init` and `kheap_init` succeed and leave LowMem. -/
theorem roomyKernel_init :
    ∃ kernel heap pmm, vmKernInit smallSections roomyKernel = (.ok (), kernel) ∧
      ReservedData kernel.machine.pmm 0xC0008000 8 ∧
      kheapInit (fun _ => 0) 0xC0008000 kernel.machine.pmm = (.ok heap, pmm) ∧
      10 ≤ pmm.lowSet.card ∧ pmm.freeFrames < 2 ^ 32 := by
  have total_lt : roomyKernel.machine.pmm.totalFrames < 2 ^ 32 := by decide
  have low_eq : roomyKernel.machine.pmm.lowSet = Finset.Ico 256 66560 := by
    ext frame
    rw [roomyKernel_low, Finset.mem_Ico]
  have low_card : roomyKernel.machine.pmm.lowSet.card = 66304 := by
    rw [low_eq, Nat.card_Ico]
  obtain ⟨_, machine, booted, _⟩ := vmKernInit_ok total_lt (by omega) smallSections_text
    smallSections_rodata
  obtain ⟨_, _, _, total, lowSet_eq, residue⟩ := vmKernInit_kept total_lt booted
  have total_eq : machine.pmm.totalFrames = 66560 := total
  have marked (frame : ℕ) (before : roomyKernel.machine.pmm.Marked frame) :
      machine.pmm.Marked frame := ((residue frame).1.mpr before).1
  have low_sub : machine.pmm.lowSet ⊆ roomyKernel.machine.pmm.lowSet := by
    intro frame member
    obtain ⟨lowmem, below, free⟩ := freshFrame_iff.mpr member
    refine freshFrame_iff.mp ⟨lowmem, ?_, fun before => free (marked frame before)⟩
    rwa [← total]
  have taken : (roomyKernel.machine.pmm.lowSet \ machine.pmm.lowSet).card < 259 := by
    rw [Finset.card_sdiff_of_subset low_sub]
    simp only at lowSet_eq
    omega
  obtain ⟨first, upper, free⟩ := Pmm.exists_lowRun
    (fun frame lower upper => roomyKernel_low.mpr ⟨lower, upper⟩ :
      ∀ frame, 256 ≤ frame → frame < 256 + 256 * 259 → frame ∈ roomyKernel.machine.pmm.lowSet) taken
  have static : ReservedData machine.pmm 0xC0008000 8 := by
    refine ⟨by decide, by decide, fun byte lower upper _ => ?_⟩
    have frame : (byte - kernelVirtOffset) / 4096 = 8 := by
      unfold kernelVirtOffset
      omega
    rw [frame]
    exact marked 8 (by decide)
  rcases pmmAllocLowmem_cases machine.pmm (by decide : 0 < 256) with
    ⟨_, none_free⟩ | ⟨firstFrame, allocated, _⟩
  · refine absurd (fun frame lower upper => ?_)
      (none_free first (Nat.le_min.mpr ⟨by omega, by omega⟩))
    exact (freshFrame_iff.mpr (free frame lower upper)).free
  · obtain ⟨heap, init⟩ : ∃ heap, kheapInit (fun _ => 0) 0xC0008000 machine.pmm =
        (.ok heap, pmmMark machine.pmm firstFrame 256) := by
      rw [kheapInit, allocated]
      exact ⟨_, rfl⟩
    refine ⟨_, heap, _, booted, static, init, ?_, Nat.mod_lt _ (by decide)⟩
    have kept : machine.pmm.lowSet \ Finset.Ico firstFrame (firstFrame + 256) ⊆
        (pmmMark machine.pmm firstFrame 256).lowSet := by
      intro frame member
      obtain ⟨member, outside⟩ := Finset.mem_sdiff.mp member
      rw [Finset.mem_Ico] at outside
      simp only [Pmm.lowSet, Finset.mem_filter, Finset.mem_range, marked_pmmMark,
        totalFrames_pmmMark, not_or] at member ⊢
      exact ⟨member.1, outside, member.2⟩
    have many := Finset.le_card_sdiff (Finset.Ico firstFrame (firstFrame + 256)) machine.pmm.lowSet
    rw [Nat.card_Ico] at many
    simp only at lowSet_eq
    exact (show 10 ≤ _ by omega).trans (Finset.card_le_card kept)

/-- After boot, the first named process is created when a few LowMem frames are left. -/
theorem processCreate_after_boot {boot kernel : Kernel Kheap} {sections : KernelSections}
    {mem : ByteMemory} {freeList name : ℕ} {heap : Kheap} {pmm : Pmm}
    (total_lt : boot.machine.pmm.totalFrames < 2 ^ 32)
    (init : vmKernInit sections boot = (.ok (), kernel))
    (static : ReservedData kernel.machine.pmm freeList 8)
    (heapInit : kheapInit mem freeList kernel.machine.pmm = (.ok heap, pmm))
    (procs : ℕ → NamedProcess) (lowmem : 5 ≤ pmm.lowSet.card) (named : name ≠ 0) :
    kerrPtrIsErr (processCreate name
      (processBoot { kernel.setPmm pmm with heap := heap } procs).state).1 = false := by
  obtain ⟨kernelDir, start⟩ := ProcessRun.boot_inv total_lt init static heapInit procs
  rcases start.processCreateSpace_cases name with
    ⟨_, _, _, _, _, _, exhausted⟩ |
      ⟨pid, proc, heap', frame, spaced, creating⟩
  · exfalso
    rcases exhausted with unnamed | full | ⟨error, refused⟩ | none_fresh
    · exact named unnamed
    · have number : (pidAlloc (pidInit pidBm).2).1.toOption = some 1 := by decide +kernel
      have full : pidAlloc (pidInit pidBm).2 = _ := full
      rw [full] at number
      cases number
    · have inv := kheapInit_inv heapInit static
      obtain ⟨block, member, _, served⟩ := kmalloc_of_first inv (by decide : processSize ≠ 0)
        ⟨_, List.mem_singleton_self _, rfl⟩ fun block member _ => by
          rw [List.mem_singleton.mp member]
          exact (by decide : kmallocBlockSize processSize ≤ 0x100000)
      have refused : kmalloc heap processSize = _ := refused
      rw [served, Option.some.injEq, Prod.mk.injEq] at refused
      have bounds := inv.tags.tiles.bounds member
      have size_ge := (inv.tags.tagged block member).size_ge
      have stop_le := inv.stop_le
      have pointer := kerrPtrIsErr_kerrPtr error
      rw [← refused.1, kerrPtrIsErr_of_lt (by unfold kheapHeaderSize; omega)] at pointer
      cases pointer
    · obtain ⟨frame, member⟩ := Finset.card_pos.mp (show 0 < pmm.lowSet.card by omega)
      have fresh := (@freshFrame_iff frame ⟨kernel.machine.mem, pmm⟩).mpr member
      exact none_fresh frame fresh
  · obtain ⟨dirs, tables, _⟩ := start.spaces
    have attached : KernelTables kernelDir (frame :: dirs)
        { kernel.setPmm pmm with
          machine := attachedFrame (kernel.setPmm pmm).machine kernelDir frame
          heap := heap' } := (creating.tables name tables).tables
    have unmapped : ∀ va, kernelVirtOffset + kernelDirectMapSize ≤ va → va < 2 ^ 32 →
        ¬ EntryPresent
          (pteWord (attachedFrame (kernel.setPmm pmm).machine kernelDir frame) kernelDir va) := by
      obtain ⟨dir, booted, -, missing⟩ := vmKernInit_eq_ok total_lt init
      have dir_eq : dir * 4096 = kernelDir * 4096 :=
        congrArg ArchVmSpace.pdPhys (booted.kernelVm_eq.symm.trans attached.kernelVm_eq)
      obtain rfl : dir = kernelDir := by omega
      obtain ⟨_, _, _, views, _⟩ := attachedFrame_spec tables.tables.tables creating.fresh
      intro va lower upper
      have kept : pteWord (attachedFrame (kernel.setPmm pmm).machine dir frame) dir va =
          pteWord kernel.machine dir va := views dir List.mem_cons_self va upper
      rw [kept]
      exact missing va lower upper
    have lowSet_eq :
        (attachedFrame (kernel.setPmm pmm).machine kernelDir frame).pmm.lowSet.card + 1 =
          pmm.lowSet.card := by
      have marked := lowSet_pmmMark creating.fresh
      rwa [← attachedFrame_pmm tables.tables.tables creating.fresh] at marked
    have slots := (kstackBoot_inv attached unmapped).slots
    have zeroed : (⟨0, 0, 0⟩ : KernelStack).Zeroed := ⟨rfl, rfl⟩
    rcases kstackAlloc_cases slots zeroed with
      ⟨_, all⟩ | ⟨_, _, _, few⟩ | ⟨_, _, _, _, _, call, _⟩
    · have used := all 0 (by decide)
      simp [kstackBoot, bitmapTest] at used
    · have short := few (attachedFrame (kernel.setPmm pmm).machine kernelDir frame).pmm.lowSet
        fun free member => by
          obtain ⟨_, below, unmarked⟩ := freshFrame_iff.mpr member
          exact ⟨unmarked, below⟩
      unfold kernelStackPages at short
      omega
    · rw [processCreate_of_ok spaced, processCreateStack_of_ok (by
        simp only [ProcessRun.createdState, Function.update_self, freshProcess]
        exact call)]
      exact creating.valid

/-- Callers can take the LowMem frames one by one, until none is left. -/
theorem exists_exhaustedRun {run : ProcessRun}
    (count_lt : run.state.kernel.machine.pmm.freeFrames < 2 ^ 32) :
    ∃ run', Relation.ReflTransGen ProcessStep run run' ∧
      run'.state.kernel.machine.pmm.lowSet = ∅ ∧
      run'.state.kernel.machine.pmm.freeFrames < 2 ^ 32 := by
  obtain ⟨count, count_eq⟩ : ∃ count, run.state.kernel.machine.pmm.lowSet.card = count := ⟨_, rfl⟩
  induction count generalizing run with
  | zero => exact ⟨run, .refl, Finset.card_eq_zero.mp count_eq, count_lt⟩
  | succ count induction =>
      obtain ⟨frame, member, allocated⟩ := pmmAllocLowmem_frame
        (Finset.card_pos.mp (by omega : 0 < run.state.kernel.machine.pmm.lowSet.card))
      obtain ⟨next, taken, pmm_eq⟩ : ∃ next, ProcessStep run next ∧
          next.state.kernel.machine.pmm = pmmMark run.state.kernel.machine.pmm frame 1 :=
        ⟨_, .own (.alloc allocated), rfl⟩
      have fewer : next.state.kernel.machine.pmm.lowSet.card = count := by
        rw [pmm_eq, lowSet_pmmMark_erase, Finset.card_erase_of_mem member, count_eq]
        rfl
      have counted : next.state.kernel.machine.pmm.freeFrames < 2 ^ 32 :=
        pmm_eq ▸ Nat.mod_lt _ (Nat.two_pow_pos 32)
      obtain ⟨run', steps, exhausted⟩ := induction counted fewer
      exact ⟨run', .head taken steps, exhausted⟩

/-- The first process of the roomy machine is created. When callers have taken all LowMem frames
instead, its number and its heap block are allocated and released again. -/
theorem processCreate_of_run_roomy :
    ∃ kernel heap pmm ptr state, vmKernInit smallSections roomyKernel = (.ok (), kernel) ∧
      kheapInit (fun _ => 0) 0xC0008000 kernel.machine.pmm = (.ok heap, pmm) ∧
      processCreate 0xC0009000
        (processBoot { kernel.setPmm pmm with heap := heap } fun _ => freshProcess 0 0).state =
          (ptr, state) ∧
      kerrPtrIsErr ptr = false ∧ (∃ pid : ℕ, 1 ≤ pid ∧ pid ≤ 63 ∧ processGet state pid = ptr) ∧
      ∃ run ptr' state', Relation.ReflTransGen ProcessStep
          (processBoot { kernel.setPmm pmm with heap := heap } fun _ => freshProcess 0 0) run ∧
        processCreate 0xC0009000 run.state = (ptr', state') ∧ kerrPtrIsErr ptr' = true ∧
        run.state.Restored state' := by
  obtain ⟨kernel, heap, pmm, booted, static, heapInit, lowmem, count_lt⟩ := roomyKernel_init
  obtain ⟨⟨ptr, state⟩, call⟩ : ∃ result, processCreate 0xC0009000
      (processBoot { kernel.setPmm pmm with heap := heap } fun _ => freshProcess 0 0).state =
        result := ⟨_, rfl⟩
  have accepted := processCreate_after_boot (by decide) booted static heapInit
    (fun _ => freshProcess 0 0) (by omega) (by decide : 0xC0009000 ≠ 0)
  rw [call] at accepted
  obtain ⟨pid, first_le, pid_le, found, _⟩ :=
    (processCreate_of_run (by decide) booted static heapInit .refl count_lt call).2 accepted
  obtain ⟨run, steps, exhausted, run_count_lt⟩ := @exists_exhaustedRun
    (processBoot { kernel.setPmm pmm with heap := heap } fun _ => freshProcess 0 0) count_lt
  obtain ⟨⟨ptr', state'⟩, call'⟩ : ∃ result, processCreate 0xC0009000 run.state = result := ⟨_, rfl⟩
  -- `vm_space_init` finds no frame for the page directory.
  obtain ⟨_, start⟩ :=
    ProcessRun.boot_inv (by decide) booted static heapInit fun _ => freshProcess 0 0
  have restored := (processCreate_of_run (by decide) booted static heapInit steps run_count_lt
    call').1 fun _ _ _ spaced => by
      rcases (start.steps steps).processCreateSpace_cases 0xC0009000 with
        ⟨_, _, failed, _⟩ | ⟨_, _, _, frame, _, creating⟩
      · cases failed.symm.trans spaced
      · have member := freshFrame_iff.mp creating.fresh
        rw [exhausted] at member
        cases member
  exact ⟨kernel, heap, pmm, ptr, state, booted, heapInit, call, accepted,
    ⟨pid, first_le, pid_le, found⟩, run, ptr', state', steps, call', restored⟩

end ItWorksOS
