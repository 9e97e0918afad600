import ItWorksOS.Mm.KernelIsolation

/-!
# Failing calls of `vm_map`

When `arch_vm_map` fails, `vm_map` removes the new area from the list, but the pages that were
mapped before the failing one stay mapped. A failing call changes nothing only if it fails before
the architecture layer, or at the first page.
-/

namespace ItWorksOS

variable {Heap : Type*} {ops : HeapOps Heap} {kernel kernel' : Kernel Heap}
  {kernelDir dir virt phys size flags : ℕ} {dirs : List ℕ} {vm vm' : VmSpace} {error : KError}

/-- The areas, and the translation of every user address, are as they were. -/
structure VmUnchanged (vm vm' : VmSpace) (kernel kernel' : Kernel Heap) : Prop where
  vmas : vm'.vmas = vm.vmas
  translations : ∀ va < vmUserEnd,
    archVmTranslate kernel'.machine vm'.arch va = archVmTranslate kernel.machine vm.arch va

/-- `vm_map` calls the architecture layer: its arguments are valid, the range overlaps no area, and
`kmalloc` succeeds. -/
def VmMapReaches (ops : HeapOps Heap) (kernel : Kernel Heap) (vm : VmSpace) (virt phys size : ℕ) :
    Prop :=
  VmMapArgs virt phys size ∧ vmAddPosition virt ((virt + size) % 2 ^ 32) vm.vmas ≠ none ∧
    kerrPtrIsErr (ops.kmalloc kernel.heap vmaSize).1 = false

/-- The page of an address can be mapped: it is not mapped yet, and has a table or can get one. -/
def PageFree (machine : Machine) (dir va : ℕ) : Prop :=
  ¬ EntryPresent (pteWord machine dir va) ∧
    (EntryPresent (machine.mem.word dir (va / 2 ^ 22)) ∨ ∃ frame, FreshFrame machine frame)

/-- No area that ends before an address and precedes its place in the list starts after it: such an
area is left by a range that ended at `2 ^ 32`. -/
def AreasBefore (vm : VmSpace) (virt : ℕ) : Prop :=
  ∀ vma ∈ vm.vmas.takeWhile (·.stop ≤ virt), vma.start ≤ virt

/-- A failing `vm_map` has nothing to undo but the area it inserted, and finds this area again. -/
def VmMapUndone (ops : HeapOps Heap) (kernel : Kernel Heap) (vm : VmSpace) (virt phys size : ℕ) :
    Prop :=
  VmMapReaches ops kernel vm virt phys size →
    virt + size ≠ 2 ^ 32 ∧ AreasBefore vm virt ∧ ¬ PageFree kernel.machine vm.dir virt

/-! ## The list of areas -/

section Areas

variable {vma : Vma} {vmas before after : List Vma} {newEnd : ℕ}

/-- The insertion point follows the areas that end before the range. -/
theorem vmAddPosition_takeWhile (position : vmAddPosition virt newEnd vmas = some (before, after)) :
    vmas = before ++ after ∧ vmas.takeWhile (·.stop ≤ virt) = before := by
  induction vmas generalizing before with
  | nil =>
      cases position
      exact ⟨rfl, rfl⟩
  | cons first vmas induction =>
      rw [vmAddPosition] at position
      split_ifs at position with ends starts
      · obtain ⟨⟨front, back⟩, found, pair_eq⟩ := Option.map_eq_some_iff.mp position
        obtain ⟨rfl, rfl⟩ := Prod.mk.inj pair_eq
        obtain ⟨split, taken⟩ := induction found
        exact ⟨by rw [split]; rfl, by rw [List.takeWhile_cons_of_pos (by simpa using ends), taken]⟩
      · cases position
        exact ⟨rfl, List.takeWhile_cons_of_neg (by simpa using ends)⟩

/-- The search passes the areas that end before the address, unless one of them starts after it. -/
theorem vmSearch_append (ends : ∀ vma ∈ before, vma.stop ≤ virt)
    (starts : ∀ vma ∈ before, vma.start ≤ virt) :
    vmSearch virt (fun vma => virt < vma.stop) (before ++ after) =
      vmSearch virt (fun vma => virt < vma.stop) after := by
  induction before with
  | nil => rfl
  | cons first before induction =>
      rw [List.forall_mem_cons] at ends starts
      rw [List.cons_append, vmSearch, if_neg (by omega), if_neg (by simp; omega)]
      exact induction ends.2 starts.2

theorem vmSearch_blocked (ends : ∀ vma ∈ before, vma.stop ≤ virt)
    (blocked : ∃ vma ∈ before, virt < vma.start) :
    vmSearch virt (fun vma => virt < vma.stop) (before ++ after) = none := by
  induction before with
  | nil =>
      obtain ⟨_, member, _⟩ := blocked
      cases member
  | cons first before induction =>
      rw [List.forall_mem_cons] at ends
      rw [List.cons_append, vmSearch]
      by_cases starts : virt < first.start
      · rw [if_pos starts]
      · rw [if_neg starts, if_neg (by simp; omega)]
        refine induction ends.2 ?_
        obtain ⟨vma, member, late⟩ := blocked
        rcases List.mem_cons.mp member with rfl | member
        · exact absurd late starts
        · exact ⟨vma, member, late⟩

/-- Inserting an area and removing another one does not restore the list. -/
theorem erase_insert_ne {other : Vma} (differ : other ≠ vma) :
    (before ++ vma :: after).erase other ≠ before ++ after := by
  intro same
  have count := congrArg (List.count vma) same
  rw [List.count_erase_of_ne differ.symm, List.count_append, List.count_cons_self,
    List.count_append] at count
  omega

/-- The rollback of `vm_map` restores the list exactly if it finds the new area again. -/
theorem vmRemoveVma_restores_iff {State : Type*} (env : VmEnv State) (vm : VmSpace) (vma : Vma)
    (after : List Vma) (state : State) (virt_lt : virt < vmUserEnd) (start_eq : vma.start = virt)
    (ends : ∀ left ∈ before, left.stop ≤ virt) :
    (vmRemoveVma env { vm with vmas := before ++ vma :: after } virt state).2.1.vmas =
        before ++ after ↔ virt < vma.stop ∧ ∀ left ∈ before, left.start ≤ virt := by
  have not_restored : before ++ vma :: after ≠ before ++ after := by
    intro same
    have := congrArg List.length same
    simp at this
  rw [vmRemoveVma, vmFindVma, if_neg (Nat.not_le.mpr virt_lt)]
  by_cases starts : ∀ left ∈ before, left.start ≤ virt
  · rw [vmSearch_append ends starts, vmSearch, if_neg (by omega)]
    by_cases found : virt < vma.stop
    · have not_before : vma ∉ before := by
        intro member
        have := ends vma member
        omega
      rw [if_pos (by simp [start_eq, found])]
      simp only [List.erase_append_right _ not_before, List.erase_cons_head]
      exact iff_of_true trivial ⟨found, starts⟩
    · rw [if_neg (by simp [found])]
      refine iff_of_false ?_ fun both => found both.1
      cases search : vmSearch virt (fun vma => virt < vma.stop) after with
      | none => exact not_restored
      | some other =>
          have other_found := (mem_of_vmSearch search).2.2
          refine erase_insert_ne ?_
          rintro rfl
          exact found (by simpa using other_found)
  · have blocked : ∃ left ∈ before, virt < left.start := by
      push Not at starts
      exact starts
    rw [vmSearch_blocked ends blocked]
    exact iff_of_false not_restored fun both => starts both.2

end Areas

/-! ## The pages of the range -/

section Pages

variable {machine machine' : Machine}

/-- A page can be mapped exactly if it is free. -/
theorem archVmMapPage_ok_iff (tables : PageTables kernelDir dirs machine)
    (ready : KernelReady kernelDir machine) {va : ℕ} (mappable : Mappable kernelDir dirs dir va)
    (va_lt : va < 2 ^ 32) (pa flags : ℕ) :
    (archVmMapPage ⟨dir * 4096⟩ va pa flags machine).1 = .ok () ↔ PageFree machine dir va := by
  rcases archVmMapPage_cases tables ready mappable va_lt pa flags with
    ⟨error, failed, ⟨rfl, -, exhausted⟩ | ⟨-, mapped⟩⟩ | ⟨machine', passed, unmapped, -⟩
  · refine iff_of_false (by rw [failed]; rintro ⟨⟩) ?_
    rintro ⟨-, present | ⟨frame, fresh⟩⟩
    · rw [archVmMapPage, archVmTable_of_present tables mappable.member va_lt present] at failed
      dsimp only at failed
      split_ifs at failed <;> cases failed
    · exact exhausted frame fresh
  · exact iff_of_false (by rw [failed]; rintro ⟨⟩) fun free => free.1 mapped
  · refine iff_of_true (by rw [passed]) ⟨unmapped, ?_⟩
    by_contra neither
    rw [not_or, not_exists] at neither
    obtain ⟨absent, exhausted⟩ := neither
    obtain ⟨failed, -⟩ | ⟨frame, fresh, -⟩ := archAllocTable_cases machine
    · have no_table : archVmTable machine ⟨dir * 4096⟩ va flags = (.error .nomem, machine) := by
        rw [archVmTable]
        dsimp only
        rw [if_pos ((and_present _).mpr (by rw [pdeIndex_eq]; exact absent)), failed]
      rw [archVmMapPage, no_table] at passed
      cases passed
    · exact exhausted frame fresh

/-- A range whose first page cannot be mapped is refused without effect. -/
theorem archVmMap_of_not_free (tables : PageTables kernelDir dirs machine)
    (ready : KernelReady kernelDir machine) (mappable : Mappable kernelDir dirs dir virt)
    (range : PageRange virt size) (phys_mod : phys % 4096 = 0) (flags : ℕ)
    (taken : ¬ PageFree machine dir virt) :
    ∃ error, archVmMap machine ⟨dir * 4096⟩ virt phys size flags = (.error error, machine) := by
  have size_pos := range.size_pos
  have fits := range.fits
  have va_lt : virt < 2 ^ 32 := by omega
  rw [← archVmMapPage_ok_iff tables ready mappable va_lt (phys % 2 ^ 64) flags] at taken
  rcases archVmMapPage_cases tables ready mappable va_lt (phys % 2 ^ 64) flags with
    ⟨error, stopped, -⟩ | ⟨_, passed, -⟩
  · exact ⟨error, archVmMap_of_first_error range phys_mod stopped⟩
  · rw [passed] at taken
    exact absurd rfl taken

/-- A failing `arch_vm_map` keeps the translations of a process exactly if it fails at the first
page. -/
theorem archVmMap_translations_iff (tables : PageTables kernelDir dirs machine)
    (ready : KernelReady kernelDir machine) (member : dir ∈ dirs) (range : PageRange virt size)
    (virt_lt : virt < vmUserEnd) (phys_mod : phys % 4096 = 0)
    (failed : archVmMap machine ⟨dir * 4096⟩ virt phys size flags = (.error error, machine')) :
    (∀ va < vmUserEnd, archVmTranslate machine' ⟨dir * 4096⟩ va =
        archVmTranslate machine ⟨dir * 4096⟩ va) ↔ ¬ PageFree machine dir virt := by
  have dir_mem : dir ∈ kernelDir :: dirs := List.mem_cons_of_mem _ member
  have mappable : Mappable kernelDir dirs dir virt := .inl member
  have va_lt : virt < 2 ^ 32 := virt_lt.trans (by decide)
  obtain ⟨done, stopped, rewritten, absent, start, ⟨passed, -⟩ | ⟨_, failed', -, page, reason⟩⟩ :=
    archVmMap_stops tables ready mappable range phys_mod flags
  · rw [failed] at passed
    cases passed
  rw [failed] at failed'
  obtain rfl := (Prod.mk.inj failed').2
  by_cases free : PageFree machine dir virt
  · refine iff_of_false (fun same => ?_) (not_not.mpr free)
    have passed := (archVmMapPage_ok_iff tables ready mappable va_lt
      ((phys + 4096 * done) % 2 ^ 64) flags).mpr free
    have some_done : 0 < done := by
      by_contra none
      obtain rfl : done = 0 := by omega
      obtain rfl := start rfl
      rw [Nat.mul_zero, Nat.add_zero, Nat.add_zero] at page
      rw [Nat.mul_zero, Nat.add_zero, page] at passed
      cases passed
    have inside : (dir, virt) ∈ rangeOf dir virt done := mem_rangeOf.mpr ⟨by omega, .inl rfl⟩
    have word_eq := rewritten.replaced dir dir_mem virt va_lt inside
    have changed := same virt virt_lt
    rw [archVmTranslate_eq rewritten.tables dir_mem va_lt, archVmTranslate_eq tables dir_mem va_lt,
      word_eq, mapWord, if_pos (pteValue_present ..), if_neg free.1] at changed
    cases changed
  · refine iff_of_true (fun va _ => ?_) free
    obtain ⟨_, refused⟩ := archVmMap_of_not_free tables ready mappable range phys_mod flags free
    rw [refused] at failed
    obtain rfl := (Prod.mk.inj failed).2
    rfl

end Pages

/-! ## Failing calls -/

/-- A failing `vm_map` changes nothing exactly if it has nothing to undo but its area, and finds
this area again. -/
theorem vmMap_unchanged_iff (inv : KernelTables kernelDir dirs kernel) (member : vm.dir ∈ dirs)
    (arch_eq : vm.arch = ⟨vm.dir * 4096⟩)
    (call : vmMap (x86Env ops) vm virt phys size flags kernel = (.error error, vm', kernel')) :
    VmUnchanged vm vm' kernel kernel' ↔ VmMapUndone ops kernel vm virt phys size := by
  have early {heap : Heap} (same : vm' = vm ∧ kernel' = { kernel with heap := heap })
      (stopped : ¬ VmMapReaches ops kernel vm virt phys size) :
      VmUnchanged vm vm' kernel kernel' ↔ VmMapUndone ops kernel vm virt phys size := by
    obtain ⟨rfl, rfl⟩ := same
    exact iff_of_true ⟨rfl, fun _ _ => rfl⟩ fun reaches => absurd reaches stopped
  rcases vmMap_cases (x86Env ops) vm virt phys size flags kernel with
    ⟨invalid, result⟩ | ⟨args, ⟨overlap, result⟩ | ⟨before, after, ptr, middle, position, allocated,
      outcome⟩⟩
  · rw [result] at call
    cases call
    exact early ⟨rfl, rfl⟩ fun reaches => invalid reaches.1
  · rw [result] at call
    cases call
    exact early ⟨rfl, rfl⟩ fun reaches => reaches.2.1 overlap
  obtain ⟨ptr_eq, rfl⟩ := Prod.mk.inj allocated
  rcases outcome with ⟨refused, result⟩ | ⟨pointer, state', ⟨_, result⟩ | ⟨_, failed, result⟩⟩
  · rw [result] at call
    cases call
    refine early ⟨rfl, rfl⟩ fun reaches => ?_
    have pointer := reaches.2.2
    rw [ptr_eq, refused] at pointer
    cases pointer
  · rw [result] at call
    cases call
  -- The architecture layer failed, and the area is searched for and removed.
  have reaches : VmMapReaches ops kernel vm virt phys size :=
    ⟨args, by rw [position]; nofun, by rw [ptr_eq]; exact pointer⟩
  obtain ⟨split, taken⟩ := vmAddPosition_takeWhile position
  obtain ⟨size_pos, virt_lt, end_le⟩ := vmUserRangeValid_iff.mp args.user
  have ends : ∀ left ∈ before, left.stop ≤ virt := by
    rw [← taken]
    intro left left_mem
    simpa using List.all_eq_true.mp List.all_takeWhile left left_mem
  have restores := vmRemoveVma_restores_iff (x86Env ops) vm
    ⟨virt, (virt + size) % 2 ^ 32, flags, ptr⟩ after state' virt_lt rfl ends
  have wraps : virt < (virt + size) % 2 ^ 32 ↔ virt + size ≠ 2 ^ 32 := by
    unfold vmUserEnd at virt_lt end_le
    omega
  obtain ⟨status, vmas, heap, removed⟩ := vmRemoveVma_heap ops
    { vm with vmas := before ++ ⟨virt, (virt + size) % 2 ^ 32, flags, ptr⟩ :: after } virt state'
  rw [removed] at result restores
  rw [result] at call
  obtain ⟨⟨status', machine⟩, mapped⟩ : ∃ result,
      archVmMap kernel.machine vm.arch virt phys size flags = result := ⟨_, rfl⟩
  simp only [x86Env, Kernel.lift, mapped, Prod.mk.injEq] at failed
  obtain ⟨rfl, rfl⟩ := failed
  cases call
  rw [arch_eq] at mapped
  have translations := archVmMap_translations_iff inv.tables inv.ready member
    ⟨args.virt_mod, args.size_mod, size_pos, userRange_fits args.user⟩ virt_lt args.phys_mod mapped
  rw [← arch_eq] at translations
  constructor
  · intro unchanged _
    obtain ⟨found, starts⟩ := restores.mp (unchanged.vmas.trans split)
    rw [AreasBefore, taken]
    exact ⟨wraps.mp found, starts, translations.mp unchanged.translations⟩
  · intro undone
    obtain ⟨no_wrap, starts, not_free⟩ := undone reaches
    rw [AreasBefore, taken] at starts
    exact ⟨(restores.mpr ⟨wraps.mpr no_wrap, starts⟩).trans split.symm, translations.mpr not_free⟩

/-- In every state that memory management reaches after `vm_kern_init`, a failing `vm_map` on an
address space changes its areas or its translations unless it fails before the architecture layer,
or at the first page of a range that does not end at `2 ^ 32` in a list without leftovers of such
ranges. -/
theorem vmMap_unchanged_of_run {boot booted : Kernel Heap} {sections : KernelSections}
    {system : VmSystem Heap} (total_lt : boot.machine.pmm.totalFrames < 2 ^ 32)
    (init : vmKernInit sections boot = (.ok (), booted))
    (run : Relation.ReflTransGen (VmStep ops) ⟨booted, [], ∅⟩ system) :
    ∀ vm ∈ system.spaces, ∀ virt phys size flags error vm' kernel',
      vmMap (x86Env ops) vm virt phys size flags system.kernel = (.error error, vm', kernel') →
        (VmUnchanged vm vm' system.kernel kernel' ↔
          VmMapUndone ops system.kernel vm virt phys size) := by
  intro vm member virt phys size flags error vm' kernel' call
  obtain ⟨kernelDir, start⟩ := vmKernInit_inv total_lt init
  have inv := start.steps run
  exact vmMap_unchanged_iff inv.tables (VmSystem.dir_mem member) (inv.arch_eq vm member) call

/-- Without a frame for a table, no user page of a fresh address space can be mapped. -/
theorem FreshSpace.not_pageFree {sections : KernelSections} {boot : Kernel Heap} {frame va : ℕ}
    (space : FreshSpace ops sections boot kernelDir frame kernel kernel')
    (user : va < kernelVirtOffset) {pmm : Pmm} (exhausted : pmm.lowSet = ∅) :
    ¬ PageFree { kernel'.machine with pmm := pmm } frame va := by
  rintro ⟨-, present | ⟨other, fresh⟩⟩
  · rw [space.empty _ (by unfold kernelVirtOffset at user; omega)] at present
    exact absurd present (by decide)
  · have member := freshFrame_iff.mp fresh
    rw [exhausted] at member
    cases member

/-- With the last frame taken by its directory, an address space cannot map its first page. -/
theorem vmMap_unchanged_of_run_full :
    ∃ kernel vm kernel' error vm' kernel'',
      vmKernInit smallSections (limitedKernel (fun _ => 0) 514) = (.ok (), kernel) ∧
      vmSpaceInit (x86Env bumpHeap) kernel = (.ok vm, kernel') ∧
      VmMapReaches bumpHeap kernel' vm 0x1000 0x200000 0x2000 ∧
      vmMap (x86Env bumpHeap) vm 0x1000 0x200000 0x2000 (vmWrite ||| vmUser) kernel' =
        (.error error, vm', kernel'') ∧ VmUnchanged vm vm' kernel' kernel'' := by
  have full : (limitedKernel (fun _ => 0) 514).machine.pmm.lowSet.card = 258 := by decide +kernel
  obtain ⟨kernelDir, frame, kernel, kernel', space⟩ := exists_freshSpace bumpHeap
    (by decide : (limitedKernel (fun _ => 0) 514).machine.pmm.totalFrames < 2 ^ 32) full.ge
    smallSections_text smallSections_rodata
  have step : VmStep bumpHeap ⟨kernel, [], ∅⟩ _ := .spaceInit space.created
  have args : VmMapArgs 0x1000 0x200000 0x2000 :=
    ⟨by decide, by decide, by decide, by decide, by decide⟩
  have pointer : kerrPtrIsErr kernel'.heap = false := by
    rw [space.heap_eq]
    decide
  have exhausted : kernel'.machine.pmm.lowSet.card = 0 := by
    have lowmem := space.lowmem
    omega
  have taken : ¬ PageFree kernel'.machine frame 0x1000 :=
    space.not_pageFree (by decide) (Finset.card_eq_zero.mp exhausted)
  have range : PageRange 0x1000 0x2000 := ⟨by decide, by decide, by decide, by decide⟩
  obtain ⟨error, refused⟩ := archVmMap_of_not_free space.tables.tables space.tables.ready
    (.inl (List.mem_singleton_self _)) range args.phys_mod (vmWrite ||| vmUser) taken
  have refused' : (x86Env bumpHeap).archVmMap { kernel' with heap := kernel'.heap + vmaSize }
      ⟨frame * 4096⟩ 0x1000 0x200000 0x2000 (vmWrite ||| vmUser) =
        (.error error, { kernel' with heap := kernel'.heap + vmaSize }) := by
    simp only [x86Env, Kernel.lift, refused]
  have failed := (vmMap_eq args (rfl : vmAddPosition 0x1000 ((0x1000 + 0x2000) % 2 ^ 32)
    (⟨[], ⟨frame * 4096⟩⟩ : VmSpace).vmas = some ([], [])) rfl pointer).2 error refused'
  have unchanged := (vmMap_unchanged_of_run (by decide) space.booted (.single step) _
    (List.mem_singleton_self _) _ _ _ _ _ _ _ failed).mpr fun _ => by
      refine ⟨by decide, List.forall_mem_nil _, ?_⟩
      rw [vmSpace_dir_eq]
      exact taken
  exact ⟨kernel, _, kernel', error, _, _, space.booted, space.created,
    ⟨args, Option.some_ne_none _, pointer⟩, failed, unchanged⟩

/-- A slot of each frame that an address space needs whose user half is mapped throughout. -/
private def userSlot (kernelDir dir k : ℕ) : TableSlot :=
  if k < 768 then .table dir k else if k < 1024 then .table kernelDir k else .directory kernelDir

/-- Mapping the whole user half needs more frames than 4 MiB of memory have. -/
theorem totalFrames_of_userHalf {machine : Machine} (tables : PageTables kernelDir dirs machine)
    (ready : KernelReady kernelDir machine) (member : dir ∈ dirs)
    (mapped : ∀ va < vmUserEnd, EntryPresent (pteWord machine dir va)) :
    1024 < machine.pmm.totalFrames := by
  have owned (k : ℕ) : Owned kernelDir dirs machine (userSlot kernelDir dir k) := by
    rw [userSlot]
    split_ifs with user kernel
    · have present := table_present_of_pteWord (mapped (k * 2 ^ 22) (by unfold vmUserEnd; omega))
      rw [Nat.mul_div_cancel _ (by decide)] at present
      exact ⟨present, .inl ⟨member, user⟩⟩
    · exact ⟨ready k (by omega) kernel, .inr ⟨rfl, by omega, kernel⟩⟩
    · exact List.mem_cons_self ..
  by_contra few
  have card_lt : (Finset.range machine.pmm.totalFrames).card < (Finset.range 1025).card := by
    rw [Finset.card_range, Finset.card_range]
    omega
  obtain ⟨k, k_mem, k', k'_mem, differ, same⟩ := Finset.exists_ne_map_eq_of_card_lt_of_maps_to
    card_lt fun k _ => Finset.mem_coe.mpr (Finset.mem_range.mpr (tables.placed _ (owned k)).2.1)
  have slot_eq := tables.injective _ _ (owned k) (owned k') same
  have dirs_ne : dir ≠ kernelDir := by
    rintro rfl
    exact (List.nodup_cons.mp tables.nodup).1 member
  rw [Finset.mem_range] at k_mem k'_mem
  simp only [userSlot] at slot_eq
  split_ifs at slot_eq <;> simp_all
  omega

/-- Mapping the whole user half of a process on a machine with 4 MiB of memory fails, and leaves
pages mapped without an area. -/
theorem vmMap_leaves_pages :
    ∃ kernel vm kernel' error vm' kernel'',
      vmKernInit smallSections smallKernel = (.ok (), kernel) ∧
      vmSpaceInit (x86Env bumpHeap) kernel = (.ok vm, kernel') ∧
      vmMap (x86Env bumpHeap) vm 0 0 0xC0000000 (vmWrite ||| vmUser) kernel' =
        (.error error, vm', kernel'') ∧ ¬ VmUnchanged vm vm' kernel' kernel'' := by
  obtain ⟨kernelDir, frame, other, kernel, kernel', space, fresh⟩ := smallKernel_attached
  have inv := space.tables
  have args : VmMapArgs 0 0 0xC0000000 := ⟨rfl, rfl, by decide, by decide, by decide⟩
  have member : frame ∈ [frame] := List.mem_singleton_self _
  have dir_eq := vmSpace_dir_eq [] frame
  have reaches : VmMapReaches bumpHeap kernel' ⟨[], ⟨frame * 4096⟩⟩ 0 0 0xC0000000 := by
    refine ⟨args, nofun, ?_⟩
    show kerrPtrIsErr kernel'.heap = false
    rw [space.heap_eq]
    decide
  obtain ⟨⟨status, vm', kernel''⟩, call⟩ : ∃ result, vmMap (x86Env bumpHeap) ⟨[], ⟨frame * 4096⟩⟩
      0 0 0xC0000000 (vmWrite ||| vmUser) kernel' = result := ⟨_, rfl⟩
  cases status with
  | error error =>
      refine ⟨kernel, _, kernel', error, vm', kernel'', space.booted, space.created, call,
        fun unchanged => ?_⟩
      rw [vmMap_unchanged_iff inv (by rw [dir_eq]; exact member) (by rw [dir_eq]) call] at unchanged
      refine (unchanged reaches).2.2 ?_
      rw [dir_eq]
      exact ⟨space.unmapped (by decide), .inr ⟨other, fresh⟩⟩
  | ok =>
      exfalso
      rcases vmMap_cases (x86Env bumpHeap) ⟨[], ⟨frame * 4096⟩⟩ 0 0 0xC0000000
          (vmWrite ||| vmUser) kernel' with
        ⟨invalid, _⟩ | ⟨_, ⟨overlap, _⟩ | ⟨_, _, ptr, _, _, allocated, outcome⟩⟩
      · exact invalid args
      · exact reaches.2.1 overlap
      · obtain ⟨_, rfl⟩ := Prod.mk.inj allocated
        rcases outcome with ⟨_, result⟩ | ⟨_, state', ⟨mapped, _⟩ | ⟨_, _, result⟩⟩
        · rw [result] at call
          cases call
        · have range : PageRange 0 0xC0000000 := ⟨rfl, by decide, by decide, by decide⟩
          obtain ⟨done, machine, rewritten, _, _, ⟨_, done_eq⟩ | ⟨_, failed, _⟩⟩ :=
            archVmMap_cases inv.tables inv.ready (Or.inl member) range
              (rfl : 0 % 4096 = 0) (vmWrite ||| vmUser)
          · have many := totalFrames_of_userHalf rewritten.tables rewritten.ready member
              fun va user => by
                unfold vmUserEnd at user
                rw [rewritten.replaced frame (List.mem_cons_of_mem _ member) va
                  (user.trans (by decide)) (mem_rangeOf.mpr ⟨by omega, .inl rfl⟩)]
                exact pteValue_present ..
            have total : kernel'.machine.pmm.totalFrames = 1024 := space.total
            rw [rewritten.total] at many
            omega
          · simp only [x86Env, Kernel.lift, failed] at mapped
            cases mapped
        · rw [result] at call
          cases call

end ItWorksOS
