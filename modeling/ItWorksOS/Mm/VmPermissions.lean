import ItWorksOS.Mm.VmRefinement
import ItWorksOS.Arch.X86.Permissions

/-!
# Effective permissions of user pages

The table entry of a page always carries the flags of its area, but the directory entry carries the
user bit of the mapping that needed the page table first. The processor therefore grants the flags
of every area exactly as long as no area for user mode is placed on a page table that was made for
the kernel.
-/

namespace ItWorksOS

variable {Heap : Type*} {ops : HeapOps Heap} {kernel kernel' : Kernel Heap}
  {kernelDir dir virt phys size flags va : ℕ} {dirs : List ℕ} {vm vm' : VmSpace}

/-- The entries of every mapped user page allow what the flags of its area say. -/
def PermissionsMatch (vm : VmSpace) (machine : Machine) : Prop :=
  ∀ va < vmUserEnd, ArchVmAllows machine vm.arch va x86Present →
    (∃ vma ∈ vm.vmas, vma.start ≤ va ∧ va < vma.stop) ∧
      ∀ vma ∈ vm.vmas, vma.start ≤ va → va < vma.stop →
        (ArchVmAllows machine vm.arch va x86User ↔ vma.flags &&& vmUser ≠ 0) ∧
          (ArchVmAllows machine vm.arch va x86Writable ↔ vma.flags &&& vmWrite ≠ 0)

/-- Flags for user mode find no page table in a range that is closed to user mode. -/
def TablesOpen (vm : VmSpace) (machine : Machine) (virt size flags : ℕ) : Prop :=
  flags &&& vmUser ≠ 0 → ∀ va, virt ≤ va → va < virt + size →
    archVmPde machine vm.arch va &&& x86Present ≠ 0 → archVmPde machine vm.arch va &&& x86User ≠ 0

/-- The range of a call is open to the flags that the call gives to it. -/
def VmOp.Open (op : VmOp) (vm : VmSpace) (machine : Machine) : Prop :=
  match op with
  | .map virt _ size flags => TablesOpen vm machine virt size flags
  | .unmap _ _ => True
  | .protect virt size flags => TablesOpen vm machine virt size flags

/-- The flags that a call gives to its range. -/
def VmOp.newFlags : VmOp → ℕ
  | .map _ _ _ flags => flags
  | .unmap _ _ => 0
  | .protect _ _ flags => flags

/-- A successful call without a wrapping range, on page tables that are open to its flags. -/
inductive VmOpenStep (ops : HeapOps Heap) : VmSpace × Kernel Heap → VmSpace × Kernel Heap → Prop
  | call {op : VmOp} {vm vm' : VmSpace} {kernel kernel' : Kernel Heap}
      (fits : op.rangeEnd < 2 ^ 32) (tablesOpen : op.Open vm kernel.machine)
      (call : vmCall (x86Env ops) op vm kernel = (.ok (), vm', kernel')) :
      VmOpenStep ops (vm, kernel) (vm', kernel')

/-! ## Directory entries of areas -/

/-- The table entries of an area carry its flags. -/
def FlagsShown (vma : Vma) (_ word : ℕ) : Prop := ∃ pa, word = pteValue pa vma.flags

/-- The page tables of a range are open to its flags. -/
def UserRange (dir : ℕ) (machine : Machine) (virt stop flags : ℕ) : Prop :=
  flags &&& vmUser ≠ 0 → ∀ va, virt ≤ va → va < stop →
    machine.mem.word dir (va / 2 ^ 22) / 4 % 2 = 1

/-- The page tables of all areas are open to their flags. -/
def UserTables (dir : ℕ) (vmas : List Vma) (machine : Machine) : Prop :=
  ∀ vma ∈ vmas, UserRange dir machine vma.start vma.stop vma.flags

/-- The present directory entries of the user half allow writing. -/
def WritableTables (dir : ℕ) (machine : Machine) : Prop :=
  ∀ index < 768, EntryPresent (machine.mem.word dir index) →
    machine.mem.word dir index / 2 % 2 = 1

section Tables

variable {machine machine' : Machine} {vmas : List Vma}

/-- An area is mapped throughout. -/
theorem AreasShown.area_mapped {vma : Vma} (shown : AreasShown FlagsShown dir vmas machine)
    (member : vma ∈ vmas) (lower : vma.start ≤ va) (upper : va < vma.stop) :
    EntryPresent (pteWord machine dir va) := by
  obtain ⟨pa, word_eq⟩ := shown.mapped vma member va lower upper
  exact word_eq ▸ pteValue_present pa vma.flags

/-- Permissions match when all page tables are open to the flags of their areas. -/
theorem permissionsMatch_iff (shown : AreasShown FlagsShown dir vm.vmas machine)
    (writable : WritableTables dir machine) (arch_eq : vm.arch = ⟨dir * 4096⟩) :
    PermissionsMatch vm machine ↔ UserTables dir vm.vmas machine := by
  have inside {vma : Vma} (member : vma ∈ vm.vmas) {va : ℕ} (lower : vma.start ≤ va)
      (upper : va < vma.stop) : va < vmUserEnd ∧ EntryPresent (pteWord machine dir va) ∧
        EntryPresent (machine.mem.word dir (va / 2 ^ 22)) ∧
        (pteWord machine dir va / 2 % 2 = 1 ↔ vma.flags &&& vmWrite ≠ 0) ∧
        (pteWord machine dir va / 4 % 2 = 1 ↔ vma.flags &&& vmUser ≠ 0) := by
    have bounds := shown.ok.bounds vma member
    obtain ⟨pa, word_eq⟩ := shown.mapped vma member va lower upper
    have mapped : EntryPresent (pteWord machine dir va) := shown.area_mapped member lower upper
    refine ⟨by omega, mapped, table_present_of_pteWord mapped, ?_⟩
    rw [word_eq]
    exact pteValue_flags pa vma.flags
  constructor
  · intro permissions vma member user va lower upper
    obtain ⟨user_lt, mapped, _⟩ := inside member lower upper
    obtain ⟨_, allowed⟩ := permissions va user_lt (by
      rw [arch_eq]
      exact archVmAllows_present_iff.mpr mapped)
    have both := (allowed vma member lower upper).1.mpr user
    rw [arch_eq, ArchVmAllows, and_user, archVmPde_eq] at both
    exact both.1
  · intro tables va user_lt mapped
    rw [arch_eq] at mapped ⊢
    have present := archVmAllows_present_iff.mp mapped
    refine ⟨?_, fun vma member lower upper => ?_⟩
    · by_contra outside
      refine shown.unmapped va user_lt (fun vma member covered => ?_) present
      exact outside ⟨vma, member, covered⟩
    · obtain ⟨_, _, table, write_iff, user_iff⟩ := inside member lower upper
      have index_lt : va / 2 ^ 22 < 768 := by
        unfold vmUserEnd at user_lt
        omega
      have table_writable := writable _ index_lt table
      rw [ArchVmAllows, ArchVmAllows, archVmPde_eq, archVmPte_eq table, and_user, and_user,
        and_writable, and_writable]
      refine ⟨⟨fun both => user_iff.mp both.2, fun user => ⟨?_, user_iff.mpr user⟩⟩,
        fun both => write_iff.mp both.2, fun write => ⟨table_writable, write_iff.mpr write⟩⟩
      exact tables vma member user va lower upper

theorem WritableTables.added (writable : WritableTables dir machine)
    (added : TablesAdded flags dir machine machine') : WritableTables dir machine' := by
  intro index user present
  rcases added index user with same | ⟨_, new⟩
  · rw [same] at present ⊢
    exact writable index user present
  · rcases x86VmFlagsToPde_cases flags with flags_eq | flags_eq <;> omega

/-- The directory entry of a mapped page stays as it is. -/
theorem TablesAdded.word_eq (added : TablesAdded flags dir machine machine') (user : va < vmUserEnd)
    (mapped : EntryPresent (pteWord machine dir va)) :
    machine'.mem.word dir (va / 2 ^ 22) = machine.mem.word dir (va / 2 ^ 22) := by
  unfold vmUserEnd at user
  rcases added (va / 2 ^ 22) (by omega) with same | ⟨absent, _⟩
  · exact same
  · exact absurd (table_present_of_pteWord mapped) absent

/-- After a call, the page tables of its range are open exactly when they were so before. -/
theorem UserRange.iff_tablesOpen (added : TablesAdded flags dir machine machine')
    (arch_eq : vm.arch = ⟨dir * 4096⟩) (user : virt + size ≤ vmUserEnd)
    (mapped : ∀ va, virt ≤ va → va < virt + size → EntryPresent (pteWord machine' dir va)) :
    UserRange dir machine' virt (virt + size) flags ↔ TablesOpen vm machine virt size flags := by
  refine forall_congr' fun user_flag => forall₃_congr fun va lower upper => ?_
  rw [arch_eq, archVmPde_eq, and_user, ne_eq, and_present, not_not]
  unfold vmUserEnd at user
  rcases added (va / 2 ^ 22) (by omega) with same | ⟨absent, new⟩
  · have present := table_present_of_pteWord (mapped va lower upper)
    rw [same] at present ⊢
    exact ⟨fun tables_user _ => tables_user, fun tables_user => tables_user present⟩
  · have flags_eq : x86VmFlagsToPde flags = 7 := by
      rw [x86VmFlagsToPde, if_pos user_flag]
      rfl
    rw [flags_eq] at new
    exact iff_of_true (by omega) fun present => absurd present absent

/-- The page tables of areas that a call leaves alone stay open. -/
theorem UserRange.kept {vma : Vma}
    (open_before : UserRange dir machine vma.start vma.stop vma.flags)
    (added : TablesAdded flags dir machine machine')
    (shown : AreasShown FlagsShown dir vmas machine) (member : vma ∈ vmas) :
    UserRange dir machine' vma.start vma.stop vma.flags := by
  intro user va lower upper
  have bounds := shown.ok.bounds vma member
  rw [added.word_eq (by omega) (shown.area_mapped member lower upper)]
  exact open_before user va lower upper

/-- When the other areas have open page tables, one area decides. -/
theorem UserTables.insert_iff {before after : List Vma} {vma : Vma}
    (others : UserTables dir (before ++ after) machine) :
    UserTables dir (before ++ vma :: after) machine ↔
      UserRange dir machine vma.start vma.stop vma.flags := by
  constructor
  · exact fun tables => tables vma (by simp)
  · intro range other member
    rcases List.mem_append.mp member with member | member
    · exact others other (List.mem_append_left _ member)
    rcases List.mem_cons.mp member with rfl | member
    · exact range
    · exact others other (List.mem_append_right _ member)

end Tables

/-! ## Calls -/

/-- What a successful call does to the areas, their entries and the page tables under them. -/
structure VmOpenSpec (kernelDir dir : ℕ) (dirs : List ℕ) (op : VmOp) (vm vm' : VmSpace)
    (kernel kernel' : Kernel Heap) : Prop where
  inv : KernelTables kernelDir dirs kernel'
  arch_eq : vm'.arch = vm.arch
  shown : AreasShown FlagsShown dir vm'.vmas kernel'.machine
  added : TablesAdded op.newFlags dir kernel.machine kernel'.machine
  user : UserTables dir vm.vmas kernel.machine →
    (UserTables dir vm'.vmas kernel'.machine ↔ op.Open vm kernel.machine)

/-- A successful `vm_map`. -/
theorem vmMap_openSpec (inv : KernelTables kernelDir dirs kernel) (member : dir ∈ dirs)
    (arch_eq : vm.arch = ⟨dir * 4096⟩) (shown : AreasShown FlagsShown dir vm.vmas kernel.machine)
    (fits : virt + size < 2 ^ 32)
    (call : vmMap (x86Env ops) vm virt phys size flags kernel = (.ok (), vm', kernel')) :
    VmOpenSpec kernelDir dir dirs (.map virt phys size flags) vm vm' kernel kernel' := by
  have end_eq : (virt + size) % 2 ^ 32 = virt + size := Nat.mod_eq_of_lt fits
  obtain ⟨args, before, after, ptr, middle, position, allocated, _, mapped, rfl⟩ :=
    vmMap_eq_ok call
  obtain ⟨_, rfl⟩ := Prod.mk.inj allocated
  obtain ⟨status_eq, rfl⟩ := Prod.mk.inj mapped
  obtain ⟨split, ok⟩ := vmasOk_insert shown.ok args fits flags ptr position
  rw [end_eq] at ok
  have range_user := vmUserRangeValid_iff.mp args.user
  have range : PageRange virt size := ⟨args.virt_mod, args.size_mod, range_user.1, by omega⟩
  have added := archVmMap_added inv.tables inv.ready member virt phys size flags
  obtain ⟨done, machine', rewritten, _, _, ⟨passed, done_eq⟩ | ⟨_, failed, _⟩⟩ :=
    archVmMap_cases inv.tables inv.ready (Or.inl member) range args.phys_mod flags
  · rw [← arch_eq] at passed
    rw [← arch_eq, passed] at added
    simp only [passed, end_eq]
    obtain rfl := done_eq
    have shown' : AreasShown FlagsShown dir (before ++ ⟨virt, virt + size, flags, ptr⟩ :: after)
        machine' := by
      refine (split ▸ shown).insert (List.mem_cons_of_mem _ member) ok args.size_mod rewritten
        (fun _ _ _ _ _ word_shown => word_shown) fun va => ⟨_, rfl⟩
    refine ⟨⟨rewritten.tables, rewritten.ready, inv.kernelVm_eq⟩, rfl, shown', added, ?_⟩
    intro tables
    refine (UserTables.insert_iff fun vma vma_mem => ?_).trans
      (UserRange.iff_tablesOpen added arch_eq ?_ fun va lower upper => ?_)
    · exact (tables vma (split ▸ vma_mem)).kept added shown (split ▸ vma_mem)
    · exact range_user.2.2.resolve_right (Nat.ne_of_lt fits)
    · have new_mem : (⟨virt, virt + size, flags, ptr⟩ : Vma) ∈
          before ++ ⟨virt, virt + size, flags, ptr⟩ :: after := by simp
      exact shown'.area_mapped new_mem lower upper
  · rw [← arch_eq] at failed
    simp only [failed] at status_eq
    cases status_eq

/-- A successful `vm_unmap`. -/
theorem vmUnmap_openSpec (inv : KernelTables kernelDir dirs kernel) (member : dir ∈ dirs)
    (arch_eq : vm.arch = ⟨dir * 4096⟩) (shown : AreasShown FlagsShown dir vm.vmas kernel.machine)
    (fits : virt + size < 2 ^ 32)
    (call : vmUnmap (x86Env ops) vm virt size kernel = (.ok (), vm', kernel')) :
    VmOpenSpec kernelDir dir dirs (.unmap virt size) vm vm' kernel kernel' := by
  have dir_mem : dir ∈ kernelDir :: dirs := List.mem_cons_of_mem _ member
  obtain ⟨vma, _, whole, _⟩ := vmUnmap_eq_ok call
  obtain ⟨vma_mem, rfl, stop_eq⟩ := (vmWholeVma_eq_ok_iff shown.ok fits).mp whole
  obtain ⟨machine', result, passed, rewritten⟩ := vmUnmap_area inv member arch_eq shown.ok vma_mem
    stop_eq fun va lower upper => shown.area_mapped vma_mem lower upper
  have added := archVmUnmap_added inv.tables inv.ready dir_mem vma.start size 0
  rw [← arch_eq, passed] at added
  rw [result] at call
  cases call
  obtain ⟨before, after, split, erased, _⟩ := shown.ok.split vma_mem
  have shown' : AreasShown FlagsShown dir (before ++ after) machine' :=
    (split ▸ shown).erase dir_mem rewritten
  simp only [erased]
  refine ⟨⟨rewritten.tables, rewritten.ready, inv.kernelVm_eq⟩, rfl, shown', added, ?_⟩
  refine fun tables => iff_of_true (fun other other_mem => ?_) trivial
  have old_mem : other ∈ vm.vmas := by
    rw [split]
    exact List.perm_middle.mem_iff.mpr (List.mem_cons_of_mem _ other_mem)
  exact (tables other old_mem).kept added shown old_mem

/-- A successful `vm_protect`. -/
theorem vmProtect_openSpec (inv : KernelTables kernelDir dirs kernel) (member : dir ∈ dirs)
    (arch_eq : vm.arch = ⟨dir * 4096⟩) (shown : AreasShown FlagsShown dir vm.vmas kernel.machine)
    (fits : virt + size < 2 ^ 32)
    (call : vmProtect (x86Env ops) vm virt size flags kernel = (.ok (), vm', kernel')) :
    VmOpenSpec kernelDir dir dirs (.protect virt size flags) vm vm' kernel kernel' := by
  have dir_mem : dir ∈ kernelDir :: dirs := List.mem_cons_of_mem _ member
  obtain ⟨vma, whole, _⟩ := vmProtect_eq_ok call
  obtain ⟨vma_mem, rfl, stop_eq⟩ := (vmWholeVma_eq_ok_iff shown.ok fits).mp whole
  have bounds := shown.ok.bounds vma vma_mem
  obtain ⟨machine', result, passed, rewritten⟩ := vmProtect_area inv member arch_eq shown.ok vma_mem
    stop_eq (fun va lower upper => shown.area_mapped vma_mem lower upper) flags
  have added := archVmProtect_added inv.tables inv.ready dir_mem vma.start size flags
  rw [← arch_eq, passed] at added
  rw [result] at call
  cases call
  obtain ⟨before, after, split, _, replaced⟩ := shown.ok.split vma_mem
  have shown' : AreasShown FlagsShown dir (before ++ { vma with flags := flags } :: after)
      machine' :=
    (split ▸ shown).protect dir_mem rewritten fun _ word _ => ⟨word, rfl⟩
  simp only [replaced]
  refine ⟨⟨rewritten.tables, rewritten.ready, inv.kernelVm_eq⟩, rfl, shown', added, ?_⟩
  intro tables
  have old_mem {other : Vma} (other_mem : other ∈ before ++ after) : other ∈ vm.vmas := by
    rw [split]
    exact List.perm_middle.mem_iff.mpr (List.mem_cons_of_mem _ other_mem)
  refine (UserTables.insert_iff fun other other_mem => ?_).trans ?_
  · exact (tables other (old_mem other_mem)).kept added shown (old_mem other_mem)
  · simp only [stop_eq]
    refine UserRange.iff_tablesOpen added arch_eq (stop_eq ▸ bounds.2.2.2)
      fun va lower upper => ?_
    have new_mem : { vma with flags := flags } ∈
        before ++ { vma with flags := flags } :: after := by simp
    exact shown'.area_mapped new_mem lower (by rw [stop_eq]; exact upper)

/-- Every successful call. -/
theorem vmCall_openSpec {op : VmOp} (inv : KernelTables kernelDir dirs kernel) (member : dir ∈ dirs)
    (arch_eq : vm.arch = ⟨dir * 4096⟩) (shown : AreasShown FlagsShown dir vm.vmas kernel.machine)
    (fits : op.rangeEnd < 2 ^ 32)
    (call : vmCall (x86Env ops) op vm kernel = (.ok (), vm', kernel')) :
    VmOpenSpec kernelDir dir dirs op vm vm' kernel kernel' := by
  cases op with
  | map virt phys size flags => exact vmMap_openSpec inv member arch_eq shown fits call
  | unmap virt size => exact vmUnmap_openSpec inv member arch_eq shown fits call
  | protect virt size flags => exact vmProtect_openSpec inv member arch_eq shown fits call

/-! ## Runs -/

/-- All entries of an address space are as its areas say, and its page tables are open to them. -/
structure VmOpenInv (kernelDir dir : ℕ) (dirs : List ℕ) (vm : VmSpace) (kernel : Kernel Heap) :
    Prop where
  inv : KernelTables kernelDir dirs kernel
  arch_eq : vm.arch = ⟨dir * 4096⟩
  shown : AreasShown FlagsShown dir vm.vmas kernel.machine
  writable : WritableTables dir kernel.machine
  user : UserTables dir vm.vmas kernel.machine

/-- A fresh address space has no areas and no page tables. -/
theorem vmSpaceInit_openInv (tables : KernelTables kernelDir dirs kernel)
    (create : vmSpaceInit (x86Env ops) kernel = (.ok vm, kernel')) :
    ∃ frame, VmOpenInv kernelDir frame (frame :: dirs) vm kernel' ∧
      ∀ index < 768, ¬ EntryPresent (kernel'.machine.mem.word frame index) := by
  rcases vmSpaceInit_cases tables with ⟨failed, _⟩ | ⟨frame, fresh, created⟩
  · rw [failed] at create
    cases (Prod.mk.inj create).1
  · rw [created] at create
    obtain ⟨vm_eq, rfl⟩ := Prod.mk.inj create
    obtain rfl := Except.ok.inj vm_eq
    obtain ⟨ready, _, _, _, new_view⟩ := attachedFrame_spec tables.tables fresh
    have empty : ∀ index < 768, ¬ EntryPresent
        ((attachedFrame kernel.machine kernelDir frame).mem.word frame index) := by
      intro index user
      rw [word_attachedFrame tables.tables fresh user]
      decide
    refine ⟨frame, ⟨⟨pageTables_attachedFrame tables.tables fresh, ready tables.ready,
      tables.kernelVm_eq⟩, rfl, ⟨VmasOk.nil, by simp, ?_⟩,
      fun index user present => absurd present (empty index user), by simp [UserTables]⟩, empty⟩
    intro va user _
    unfold kernelVirtOffset at user
    rw [new_view va (by omega), if_neg (by unfold kernelVirtOffset; omega)]
    decide

/-- A successful call keeps the permissions right exactly when the page tables of its range are
open. -/
theorem VmOpenInv.call {op : VmOp} (start : VmOpenInv kernelDir dir dirs vm kernel)
    (member : dir ∈ dirs) (fits : op.rangeEnd < 2 ^ 32)
    (call : vmCall (x86Env ops) op vm kernel = (.ok (), vm', kernel')) :
    (PermissionsMatch vm' kernel'.machine ↔ op.Open vm kernel.machine) ∧
      (op.Open vm kernel.machine → VmOpenInv kernelDir dir dirs vm' kernel') := by
  obtain ⟨inv, arch_eq, shown, added, user⟩ :=
    vmCall_openSpec start.inv member start.arch_eq start.shown fits call
  have writable := start.writable.added added
  have arch_eq' := arch_eq.trans start.arch_eq
  exact ⟨(permissionsMatch_iff shown writable arch_eq').trans (user start.user),
    fun tablesOpen => ⟨inv, arch_eq', shown, writable, (user start.user).mpr tablesOpen⟩⟩

/-- Runs on open page tables keep the invariant. -/
theorem VmOpenInv.steps {state : VmSpace × Kernel Heap}
    (start : VmOpenInv kernelDir dir dirs vm kernel) (member : dir ∈ dirs)
    (steps : Relation.ReflTransGen (VmOpenStep ops) (vm, kernel) state) :
    VmOpenInv kernelDir dir dirs state.1 state.2 := by
  induction steps with
  | refl => exact start
  | tail _ step induction =>
      cases step with
      | call fits tablesOpen call => exact (induction.call member fits call).2 tablesOpen

/-- In every run of successful calls on open page tables, the processor grants exactly the flags of
the areas. The next successful call keeps this so exactly when its page tables are open, too. -/
theorem permissionsMatch_of_run {boot booted : Kernel Heap} {sections : KernelSections}
    {system : VmSystem Heap} (total_lt : boot.machine.pmm.totalFrames < 2 ^ 32)
    (init : vmKernInit sections boot = (.ok (), booted))
    (run : Relation.ReflTransGen (VmStep ops) ⟨booted, [], ∅⟩ system)
    (create : vmSpaceInit (x86Env ops) system.kernel = (.ok vm, kernel))
    (calls : Relation.ReflTransGen (VmOpenStep ops) (vm, kernel) (vm', kernel')) :
    PermissionsMatch vm' kernel'.machine ∧
      ∀ op vm'' kernel'', op.rangeEnd < 2 ^ 32 →
        vmCall (x86Env ops) op vm' kernel' = (.ok (), vm'', kernel'') →
          (PermissionsMatch vm'' kernel''.machine ↔ op.Open vm' kernel'.machine) := by
  obtain ⟨kernelDir, booted_inv⟩ := vmKernInit_inv total_lt init
  obtain ⟨frame, start, _⟩ := vmSpaceInit_openInv (booted_inv.steps run).tables create
  have reached : VmOpenInv kernelDir frame _ vm' kernel' :=
    start.steps List.mem_cons_self calls
  refine ⟨(permissionsMatch_iff reached.shown reached.writable reached.arch_eq).mpr reached.user,
    fun op vm'' kernel'' fits call => (reached.call List.mem_cons_self fits call).1⟩

theorem permissionsMatch_of_run_small :
    ∃ kernel vm kernel' vm' kernel'', vmKernInit smallSections smallKernel = (.ok (), kernel) ∧
      vmSpaceInit (x86Env bumpHeap) kernel = (.ok vm, kernel') ∧
      vmMap (x86Env bumpHeap) vm 0x1000 0x200000 0x1000 (vmRead ||| vmUser) kernel' =
        (.ok (), vm', kernel'') ∧
      PermissionsMatch vm' kernel''.machine := by
  obtain ⟨kernel, vm, kernel', vm', kernel'', booted, created, mapped, _⟩ :=
    smallKernel_map (by decide : 0x200000 % 4096 = 0) (by decide) (vmRead ||| vmUser)
  obtain ⟨_, inv⟩ := vmKernInit_inv (by decide) booted
  obtain ⟨frame, start, empty⟩ := vmSpaceInit_openInv inv.tables created
  have step : VmOpenStep bumpHeap (vm, kernel') (vm', kernel'') := by
    refine .call
      (by decide : (VmOp.map 0x1000 0x200000 0x1000 (vmRead ||| vmUser)).rangeEnd < 2 ^ 32)
      ?_ mapped
    intro _ va lower upper present
    rw [start.arch_eq, archVmPde_eq, ne_eq, and_present, not_not] at present
    exact absurd present (empty _ (by omega))
  have matching := permissionsMatch_of_run (by decide) booted .refl created (.single step)
  exact ⟨kernel, vm, kernel', vm', kernel'', booted, created, mapped, matching.1⟩

/-- A successful `vm_map` adds its area. -/
theorem vmMap_mem (fits : virt + size < 2 ^ 32)
    (call : vmMap (x86Env ops) vm virt phys size flags kernel = (.ok (), vm', kernel')) :
    ∃ ptr, ⟨virt, virt + size, flags, ptr⟩ ∈ vm'.vmas := by
  obtain ⟨_, _, _, ptr, _, _, _, _, _, rfl⟩ := vmMap_eq_ok call
  rw [Nat.mod_eq_of_lt fits]
  exact ⟨ptr, by simp⟩

/-- A page that is mapped for the kernel and then protected for user mode stays closed to it. -/
theorem permissions_mismatch :
    ∃ kernel vm kernel' vm' middle vm'' kernel'',
      vmKernInit smallSections smallKernel = (.ok (), kernel) ∧
      vmSpaceInit (x86Env bumpHeap) kernel = (.ok vm, kernel') ∧
      vmMap (x86Env bumpHeap) vm 0x1000 0x200000 0x1000 vmRead kernel' = (.ok (), vm', middle) ∧
      vmProtect (x86Env bumpHeap) vm' 0x1000 0x1000 (vmRead ||| vmUser) middle =
        (.ok (), vm'', kernel'') ∧
      ¬ PermissionsMatch vm'' kernel''.machine := by
  obtain ⟨kernel, vm, kernel', vm', middle, booted, created, mapped, _⟩ :=
    smallKernel_map (by decide : 0x200000 % 4096 = 0) (by decide) vmRead
  obtain ⟨_, inv⟩ := vmKernInit_inv (by decide) booted
  obtain ⟨frame, start, empty⟩ := vmSpaceInit_openInv inv.tables created
  have spec := vmMap_openSpec start.inv List.mem_cons_self start.arch_eq start.shown (by decide)
    mapped
  have kernel_only : vmRead &&& vmUser = 0 := by decide
  have first : _ ∧ (VmOp.Open (.map 0x1000 0x200000 0x1000 vmRead) vm kernel'.machine → _) :=
    start.call List.mem_cons_self (by decide) mapped
  have reached := first.2 fun user => absurd kernel_only user
  obtain ⟨ptr, vma_mem⟩ := vmMap_mem (by decide) mapped
  obtain ⟨vm'', kernel'', changed⟩ : ∃ vm'' kernel'', vmProtect (x86Env bumpHeap) vm' 0x1000 0x1000
      (vmRead ||| vmUser) middle = (.ok (), vm'', kernel'') := by
    obtain ⟨_, result, _⟩ := vmProtect_area reached.inv List.mem_cons_self reached.arch_eq
      reached.shown.ok vma_mem rfl (fun va lower upper => reached.shown.area_mapped vma_mem lower
        upper) (vmRead ||| vmUser)
    exact ⟨_, _, result⟩
  have second : (_ ↔ VmOp.Open (.protect 0x1000 0x1000 (vmRead ||| vmUser)) vm' middle.machine)
      ∧ _ :=
    reached.call List.mem_cons_self (by decide) changed
  refine ⟨kernel, vm, kernel', vm', middle, vm'', kernel'', booted, created, mapped, changed, ?_⟩
  rw [second.1]
  intro tablesOpen
  have present := table_present_of_pteWord
    (reached.shown.area_mapped vma_mem (Nat.le_refl 0x1000) (by simp only; omega))
  have user := tablesOpen (by decide) 0x1000 (Nat.le_refl _) (by decide) (by
    rw [reached.arch_eq, archVmPde_eq, ne_eq, and_present, not_not]
    exact present)
  rw [reached.arch_eq, archVmPde_eq, and_user] at user
  rw [show 0x1000 / 2 ^ 22 = 0 by decide] at present user
  rcases spec.added 0 (by decide) with same | ⟨_, added⟩
  · exact empty 0 (by decide) (same ▸ present)
  · have flags_eq : x86VmFlagsToPde vmRead = 3 := by decide
    rw [VmOp.newFlags, flags_eq] at added
    omega

end ItWorksOS
