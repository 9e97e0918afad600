import ItWorksOS.Mm.KernelStack

/-!
# Runs of the kernel stack allocator

The slot bitmap, the kernel page tables, the frame allocator and the descriptors of the callers
record the same stacks. A run allocates and releases stacks in any order, and the rest of the kernel
may work in between as long as it leaves the region of the stacks and their frames alone.
-/

namespace ItWorksOS

/-- First address of a slot. -/
def kstackSlot (pos : ℕ) : ℕ := kernelStackBase + 16384 * pos

/-- End of the region of the stacks. -/
abbrev kernelStackEnd : ℕ := 0xF0100000

/-- The descriptor describes a stack. -/
def KernelStack.Live (stack : KernelStack) : Prop := stack.base ≠ 0 ∧ stack.size ≠ 0

/-- The descriptor is empty. -/
def KernelStack.Zeroed (stack : KernelStack) : Prop := stack.base = 0 ∧ stack.size = 0

/-- The allocator, the descriptors by their addresses, and the frames that the last allocation for
each descriptor took. -/
structure KstackRun (Heap : Type*) where
  state : KstackState Heap
  descriptors : ℕ → KernelStack
  owned : ℕ → Set ℕ

variable {Heap : Type*}

/-- The frame is reserved or allocated. -/
def KstackState.Marked (state : KstackState Heap) (frame : ℕ) : Prop :=
  state.kernel.machine.pmm.Marked frame

/-- What the rest of the kernel may do: it keeps the structure of the page tables, maps and unmaps
nothing in the region of the stacks, and does not use their frames. -/
structure StackRely (before after : Kernel Heap) : Prop where
  kernelVm_eq : after.kernelVm = before.kernelVm
  total : after.machine.pmm.totalFrames = before.machine.pmm.totalFrames
  kept : ∀ kernelDir dirs, KernelTables kernelDir dirs before →
    ∃ dirs', KernelTables kernelDir dirs' after ∧
      ∀ va, kernelStackBase ≤ va → va < kernelStackEnd →
        pteWord after.machine kernelDir va = pteWord before.machine kernelDir va ∧
        (EntryPresent (pteWord before.machine kernelDir va) →
          Residue kernelDir dirs' after.machine (pteWord before.machine kernelDir va / 4096))

/-- Steps of a run in which no frame allocation fails and every frame lies below 4 GiB. -/
inductive KstackStep : KstackRun Heap → KstackRun Heap → Prop
  | alloc {run : KstackRun Heap} {id : ℕ} {status : Status} {stack : KernelStack}
      {state : KstackState Heap} (zeroed : (run.descriptors id).Zeroed)
      (call : kstackAlloc run.state (run.descriptors id) = (status, stack, state))
      (served : status ≠ .error .nomem)
      (below : ∀ frame, ¬ run.state.Marked frame → state.Marked frame → frame < 2 ^ 20) :
      KstackStep run
        { state := state
          descriptors := Function.update run.descriptors id stack
          owned := Function.update run.owned id
            {frame | ¬ run.state.Marked frame ∧ state.Marked frame} }
  | free {run : KstackRun Heap} {id : ℕ} {status : Status} {stack : KernelStack}
      {state : KstackState Heap} (live : (run.descriptors id).Live)
      (call : kstackFree run.state (run.descriptors id) = (status, stack, state)) :
      KstackStep run
        { run with state := state, descriptors := Function.update run.descriptors id stack }
  | other {run : KstackRun Heap} {kernel : Kernel Heap}
      (rely : StackRely run.state.kernel kernel) :
      KstackStep run { run with state := { run.state with kernel := kernel } }

/-- The entry of a page of a slot. -/
def kstackWord (kernelDir : ℕ) (kernel : Kernel Heap) (pos i : ℕ) : ℕ :=
  pteWord kernel.machine kernelDir (kstackSlot pos + 4096 * i)

/-- Bitmap, page tables and frame allocator agree: the pages of the slots in use are mapped to
different allocated frames, and the others are not mapped. -/
structure KstackSlots (kernelDir : ℕ) (dirs : List ℕ) (kernel : Kernel Heap) (bm : Bitmap) : Prop
    where
  tables : KernelTables kernelDir dirs kernel
  nbits : bm.nbits = kernelStackMax
  mapped : ∀ pos < kernelStackMax, ∀ i < kernelStackPages,
    EntryPresent (kstackWord kernelDir kernel pos i) ↔ bitmapTest bm pos = true
  placed : ∀ pos < kernelStackMax, bitmapTest bm pos = true → ∀ i < kernelStackPages,
    Residue kernelDir dirs kernel.machine (kstackWord kernelDir kernel pos i / 4096) ∧
      kstackWord kernelDir kernel pos i / 4096 < kernel.machine.pmm.totalFrames
  distinct : ∀ pos < kernelStackMax, ∀ pos' < kernelStackMax, ∀ i < kernelStackPages,
    ∀ i' < kernelStackPages, bitmapTest bm pos = true → bitmapTest bm pos' = true →
    kstackWord kernelDir kernel pos i / 4096 = kstackWord kernelDir kernel pos' i' / 4096 →
    pos = pos' ∧ i = i'

/-- Bitmap and descriptors agree: each slot in use has one live descriptor. -/
structure KstackDescriptors (bm : Bitmap) (descriptors : ℕ → KernelStack) : Prop where
  zeroed : ∀ id, ¬ (descriptors id).Live → (descriptors id).Zeroed
  live : ∀ id, (descriptors id).Live → ∃ pos < kernelStackMax,
    (descriptors id).base = kstackSlot pos ∧ (descriptors id).size = 16384 ∧
      bitmapTest bm pos = true
  used : ∀ pos < kernelStackMax, bitmapTest bm pos = true →
    ∃ id, (descriptors id).Live ∧ (descriptors id).base = kstackSlot pos
  unique : ∀ id id', (descriptors id).Live → (descriptors id').Live →
    (descriptors id).base = (descriptors id').base → id = id'

/-- All records agree, and each live descriptor still has the frames of its allocation. -/
structure KstackRun.Inv (kernelDir : ℕ) (dirs : List ℕ) (run : KstackRun Heap) : Prop where
  slots : KstackSlots kernelDir dirs run.state.kernel run.state.bm
  descriptors : KstackDescriptors run.state.bm run.descriptors
  owned : ∀ id, (run.descriptors id).Live → ∀ pos < kernelStackMax,
    (run.descriptors id).base = kstackSlot pos → ∀ frame, frame ∈ run.owned id ↔
      ∃ i < kernelStackPages, frame = kstackWord kernelDir run.state.kernel pos i / 4096

/-! ## Slots -/

theorem kstackSlot_injective {pos pos' : ℕ} (same : kstackSlot pos = kstackSlot pos') :
    pos = pos' := by
  unfold kstackSlot at same
  omega

theorem kstackSlot_bounds {pos : ℕ} (bounded : pos < kernelStackMax) :
    kstackSlot pos % 4096 = 0 ∧ 0xF0000000 ≤ kstackSlot pos ∧
      kstackSlot pos + 16384 ≤ 0xF0100000 := by
  unfold kstackSlot kernelStackBase
  unfold kernelStackMax at bounded
  omega

/-- The arithmetic of `kstack_alloc` yields the address of the slot. -/
theorem kstackSlot_eq {pos : ℕ} (bounded : pos < kernelStackMax) :
    (kernelStackBase + kernelStackPages * pos * archVmPageSize) % 2 ^ 32 = kstackSlot pos := by
  unfold kstackSlot kernelStackBase kernelStackPages archVmPageSize x86PageSize
  unfold kernelStackMax at bounded
  omega

/-- The inverse arithmetic of `kstack_free` yields the slot of the address. -/
theorem kstackSlot_index {pos : ℕ} (bounded : pos < kernelStackMax) :
    (kstackSlot pos + 2 ^ 32 - kernelStackBase) % 2 ^ 32 / (kernelStackPages * archVmPageSize) =
      pos := by
  unfold kstackSlot kernelStackBase kernelStackPages archVmPageSize x86PageSize
  unfold kernelStackMax at bounded
  omega

theorem kstackPage_outside {pos pos' i : ℕ} (differ : pos' ≠ pos) (bounded : i < kernelStackPages) :
    kstackSlot pos' + 4096 * i < kstackSlot pos ∨
      kstackSlot pos + 4096 * 4 ≤ kstackSlot pos' + 4096 * i := by
  unfold kstackSlot
  unfold kernelStackPages at bounded
  omega

theorem kstackPage_lt {pos i : ℕ} (pos_lt : pos < kernelStackMax) (i_lt : i < kernelStackPages) :
    kstackSlot pos + 4096 * i < 2 ^ 32 := by
  unfold kstackSlot kernelStackBase
  unfold kernelStackMax at pos_lt
  unfold kernelStackPages at i_lt
  omega

section Slots

variable {kernelDir : ℕ} {dirs : List ℕ} {kernel kernel' : Kernel Heap} {bm : Bitmap} {pos : ℕ}
  {frames : List ℕ}

theorem StackMapped.word_of_ne
    (fresh : StackMapped kernelDir dirs kernel kernel' (kstackSlot pos) frames)
    (length : frames.length = kernelStackPages) {pos' i : ℕ} (pos_lt : pos' < kernelStackMax)
    (differ : pos' ≠ pos) (i_lt : i < kernelStackPages) :
    kstackWord kernelDir kernel' pos' i = kstackWord kernelDir kernel pos' i :=
  fresh.kept _ (kstackPage_lt pos_lt i_lt) (by rw [length]; exact kstackPage_outside differ i_lt)

theorem StackMapped.frame_eq
    (fresh : StackMapped kernelDir dirs kernel kernel' (kstackSlot pos) frames)
    (below : ∀ frame ∈ frames, frame < 2 ^ 20) {i frame : ℕ} (at_i : frames[i]? = some frame) :
    EntryPresent (kstackWord kernelDir kernel' pos i) ∧
      kstackWord kernelDir kernel' pos i / 4096 = frame := by
  have small := below frame (List.mem_of_getElem? at_i)
  have flags_lt := x86VmFlagsToPte_lt kstackFlags
  rw [kstackWord, fresh.words i frame at_i]
  refine ⟨pteValue_present _ _, ?_⟩
  rw [pteValue]
  omega

/-- Mapping a free slot to fresh frames puts it in use. -/
theorem KstackSlots.alloc (slots : KstackSlots kernelDir dirs kernel bm)
    (pos_lt : pos < kernelStackMax)
    (fresh : StackMapped kernelDir dirs kernel kernel' (kstackSlot pos) frames)
    (length : frames.length = kernelStackPages) (below : ∀ frame ∈ frames, frame < 2 ^ 20) :
    KstackSlots kernelDir dirs kernel' (bitmapSet bm pos) := by
  have at_page (i : ℕ) (i_lt : i < kernelStackPages) : ∃ frame, frames[i]? = some frame :=
    ⟨_, List.getElem?_eq_getElem (by rw [length]; exact i_lt)⟩
  have test (pos' : ℕ) : bitmapTest (bitmapSet bm pos) pos' = true ↔
      pos' = pos ∨ bitmapTest bm pos' = true := by
    simp
  have new_frame (i : ℕ) (i_lt : i < kernelStackPages) :
      EntryPresent (kstackWord kernelDir kernel' pos i) ∧
        frames[i]? = some (kstackWord kernelDir kernel' pos i / 4096) := by
    obtain ⟨frame, at_i⟩ := at_page i i_lt
    obtain ⟨present, frame_eq⟩ := fresh.frame_eq below at_i
    exact ⟨present, frame_eq ▸ at_i⟩
  have new_mem (i : ℕ) (i_lt : i < kernelStackPages) :
      kstackWord kernelDir kernel' pos i / 4096 ∈ frames :=
    List.mem_of_getElem? (new_frame i i_lt).2
  have apart {i pos' i' : ℕ} (i_lt : i < kernelStackPages) (pos_lt' : pos' < kernelStackMax)
      (i_lt' : i' < kernelStackPages) (differ : pos' ≠ pos) (set : bitmapTest bm pos' = true) :
      kstackWord kernelDir kernel' pos i / 4096 ≠ kstackWord kernelDir kernel' pos' i' / 4096 := by
    intro same
    rw [fresh.word_of_ne length pos_lt' differ i_lt'] at same
    exact (fresh.fresh _ (new_mem i i_lt)).1 (same ▸ (slots.placed pos' pos_lt' set i' i_lt').1.1)
  refine ⟨fresh.tables, slots.nbits, fun pos' pos_lt' i i_lt => ?_,
    fun pos' pos_lt' set i i_lt => ?_,
    fun left left_lt right right_lt i i_lt i' i_lt' set set' same => ?_⟩
  · rw [test]
    by_cases same : pos' = pos
    · subst same
      exact iff_of_true (new_frame i i_lt).1 (.inl rfl)
    · rw [fresh.word_of_ne length pos_lt' same i_lt, slots.mapped pos' pos_lt' i i_lt]
      exact (or_iff_right same).symm
  · rw [fresh.residue, fresh.total]
    by_cases same : pos' = pos
    · subst same
      exact ⟨.inl (new_mem i i_lt), (fresh.fresh _ (new_mem i i_lt)).2⟩
    · rw [fresh.word_of_ne length pos_lt' same i_lt]
      obtain ⟨residue, bounded⟩ :=
        slots.placed pos' pos_lt' (((test pos').mp set).resolve_left same) i i_lt
      exact ⟨.inr residue, bounded⟩
  · rw [test] at set set'
    by_cases left_eq : left = pos <;> by_cases right_eq : right = pos
    · subst left_eq right_eq
      refine ⟨rfl, ?_⟩
      have at_left := (new_frame i i_lt).2
      have at_right := (new_frame i' i_lt').2
      rw [← same] at at_right
      exact (List.getElem?_inj (by rw [length]; exact i_lt) fresh.nodup).mp
        (at_left.trans at_right.symm)
    · subst left_eq
      exact absurd same (apart i_lt right_lt i_lt' right_eq (set'.resolve_left right_eq))
    · subst right_eq
      exact absurd same.symm (apart i_lt' left_lt i_lt left_eq (set.resolve_left left_eq))
    · rw [fresh.word_of_ne length left_lt left_eq i_lt,
        fresh.word_of_ne length right_lt right_eq i_lt'] at same
      exact slots.distinct left left_lt right right_lt i i_lt i' i_lt' (set.resolve_left left_eq)
        (set'.resolve_left right_eq) same

/-- The frames of a slot, in page order. -/
def kstackFrames (kernelDir : ℕ) (kernel : Kernel Heap) (pos : ℕ) : List ℕ :=
  (List.range kernelStackPages).map fun i => kstackWord kernelDir kernel pos i / 4096

theorem mem_kstackFrames {frame : ℕ} : frame ∈ kstackFrames kernelDir kernel pos ↔
    ∃ i < kernelStackPages, frame = kstackWord kernelDir kernel pos i / 4096 := by
  simp only [kstackFrames, List.mem_map, List.mem_range, eq_comm]

theorem StackMapped.frames_eq
    (fresh : StackMapped kernelDir dirs kernel kernel' (kstackSlot pos) frames)
    (length : frames.length = kernelStackPages) (below : ∀ frame ∈ frames, frame < 2 ^ 20) :
    kstackFrames kernelDir kernel' pos = frames := by
  refine List.ext_getElem (by rw [kstackFrames, List.length_map, List.length_range, length])
    fun i left right => ?_
  have at_i := List.getElem?_eq_getElem right
  simp only [kstackFrames, List.getElem_map, List.getElem_range]
  exact (fresh.frame_eq below at_i).2

theorem KstackSlots.frames_nodup (slots : KstackSlots kernelDir dirs kernel bm)
    (pos_lt : pos < kernelStackMax) (set : bitmapTest bm pos = true) :
    (kstackFrames kernelDir kernel pos).Nodup := by
  refine List.Nodup.map_on (fun i left i' right same => ?_) List.nodup_range
  exact (slots.distinct pos pos_lt pos pos_lt i (List.mem_range.mp left) i'
    (List.mem_range.mp right) set set same).2

theorem StackUnmapped.word_of_ne
    (gone : StackUnmapped kernelDir dirs kernel kernel' (kstackSlot pos)
      (kstackFrames kernelDir kernel pos)) {pos' i : ℕ} (pos_lt : pos' < kernelStackMax)
    (differ : pos' ≠ pos) (i_lt : i < kernelStackPages) :
    kstackWord kernelDir kernel' pos' i = kstackWord kernelDir kernel pos' i := by
  refine gone.kept _ (kstackPage_lt pos_lt i_lt) ?_
  rw [kstackFrames, List.length_map, List.length_range]
  exact kstackPage_outside differ i_lt

/-- Unmapping a slot and releasing its frames takes it out of use. -/
theorem KstackSlots.free (slots : KstackSlots kernelDir dirs kernel bm)
    (pos_lt : pos < kernelStackMax) (set : bitmapTest bm pos = true)
    (gone : StackUnmapped kernelDir dirs kernel kernel' (kstackSlot pos)
      (kstackFrames kernelDir kernel pos)) :
    KstackSlots kernelDir dirs kernel' (bitmapClear bm pos) := by
  have test (pos' : ℕ) : bitmapTest (bitmapClear bm pos) pos' = true ↔
      pos' ≠ pos ∧ bitmapTest bm pos' = true := by
    simp
  refine ⟨gone.tables, slots.nbits, fun pos' pos_lt' i i_lt => ?_,
    fun pos' pos_lt' set' i i_lt => ?_, fun left left_lt right right_lt i i_lt i' i_lt' left_set
      right_set same => ?_⟩
  · rw [test]
    by_cases same : pos' = pos
    · subst same
      have empty : kstackWord kernelDir kernel' pos' i = 0 := gone.words i (by
        rw [kstackFrames, List.length_map, List.length_range]
        exact i_lt)
      rw [empty]
      exact iff_of_false (by decide) fun both => both.1 rfl
    · rw [gone.word_of_ne pos_lt' same i_lt, slots.mapped pos' pos_lt' i i_lt]
      exact (and_iff_right same).symm
  · obtain ⟨differ, old⟩ := (test pos').mp set'
    obtain ⟨residue, bounded⟩ := slots.placed pos' pos_lt' old i i_lt
    rw [gone.word_of_ne pos_lt' differ i_lt, gone.residue, gone.total]
    refine ⟨⟨fun member => ?_, residue⟩, bounded⟩
    obtain ⟨i', i_lt', same⟩ := mem_kstackFrames.mp member
    exact differ (slots.distinct pos' pos_lt' pos pos_lt i i_lt i' i_lt' old set same).1
  · obtain ⟨left_ne, left_old⟩ := (test left).mp left_set
    obtain ⟨right_ne, right_old⟩ := (test right).mp right_set
    rw [gone.word_of_ne left_lt left_ne i_lt, gone.word_of_ne right_lt right_ne i_lt'] at same
    exact slots.distinct left left_lt right right_lt i i_lt i' i_lt' left_old right_old same

end Slots

/-! ## Descriptors -/

section Descriptors

variable {bm : Bitmap} {descriptors : ℕ → KernelStack} {id pos : ℕ}

theorem KernelStack.not_live_of_zeroed {stack : KernelStack} (zeroed : stack.Zeroed) :
    ¬ stack.Live := fun live => live.1 zeroed.1

/-- A new live descriptor for a free slot. -/
theorem KstackDescriptors.alloc (table : KstackDescriptors bm descriptors)
    (pos_lt : pos < kernelStackMax) (clear : bitmapTest bm pos = false)
    (zeroed : (descriptors id).Zeroed) {stack : KernelStack} (live : stack.Live)
    (base : stack.base = kstackSlot pos) (size : stack.size = 16384) :
    KstackDescriptors (bitmapSet bm pos) (Function.update descriptors id stack) := by
  have test (pos' : ℕ) : bitmapTest (bitmapSet bm pos) pos' = true ↔
      pos' = pos ∨ bitmapTest bm pos' = true := by
    simp
  have other_base (id' : ℕ) (live' : (descriptors id').Live) :
      (descriptors id').base ≠ kstackSlot pos := by
    intro same
    obtain ⟨pos', -, base', -, set⟩ := table.live id' live'
    rw [kstackSlot_injective (base'.symm.trans same), clear] at set
    cases set
  refine ⟨fun id' => ?_, fun id' live' => ?_, fun pos' pos_lt' set => ?_,
    fun left right left_live right_live same => ?_⟩
  · by_cases same : id' = id
    · subst same
      rw [Function.update_self]
      exact fun dead => absurd live dead
    · rw [Function.update_of_ne same]
      exact table.zeroed id'
  · by_cases same : id' = id
    · subst same
      rw [Function.update_self]
      exact ⟨pos, pos_lt, base, size, (test pos).mpr (.inl rfl)⟩
    · rw [Function.update_of_ne same] at live' ⊢
      obtain ⟨pos', pos_lt', base', size', set⟩ := table.live id' live'
      exact ⟨pos', pos_lt', base', size', (test pos').mpr (.inr set)⟩
  · by_cases same : pos' = pos
    · subst same
      refine ⟨id, ?_⟩
      rw [Function.update_self]
      exact ⟨live, base⟩
    · obtain ⟨id', live', base'⟩ := table.used pos' pos_lt' (((test pos').mp set).resolve_left same)
      refine ⟨id', ?_⟩
      rw [Function.update_of_ne]
      · exact ⟨live', base'⟩
      · rintro rfl
        exact KernelStack.not_live_of_zeroed zeroed live'
  · by_cases left_eq : left = id <;> by_cases right_eq : right = id
    · rw [left_eq, right_eq]
    · subst left_eq
      rw [Function.update_of_ne right_eq] at right_live same
      rw [Function.update_self, base] at same
      exact absurd same.symm (other_base right right_live)
    · subst right_eq
      rw [Function.update_of_ne left_eq] at left_live same
      rw [Function.update_self, base] at same
      exact absurd same (other_base left left_live)
    · rw [Function.update_of_ne left_eq] at left_live same
      rw [Function.update_of_ne right_eq] at right_live same
      exact table.unique left right left_live right_live same

/-- Clearing the descriptor of a slot frees the slot. -/
theorem KstackDescriptors.free (table : KstackDescriptors bm descriptors)
    (live : (descriptors id).Live) (base : (descriptors id).base = kstackSlot pos)
    {stack : KernelStack} (zeroed : stack.Zeroed) :
    KstackDescriptors (bitmapClear bm pos) (Function.update descriptors id stack) := by
  have test (pos' : ℕ) : bitmapTest (bitmapClear bm pos) pos' = true ↔
      pos' ≠ pos ∧ bitmapTest bm pos' = true := by
    simp
  have dead (id' : ℕ) (live' : (Function.update descriptors id stack id').Live) : id' ≠ id := by
    rintro rfl
    rw [Function.update_self] at live'
    exact KernelStack.not_live_of_zeroed zeroed live'
  refine ⟨fun id' => ?_, fun id' live' => ?_, fun pos' pos_lt' set => ?_,
    fun left right left_live right_live same => ?_⟩
  · by_cases same : id' = id
    · subst same
      rw [Function.update_self]
      exact fun _ => zeroed
    · rw [Function.update_of_ne same]
      exact table.zeroed id'
  · have differ := dead id' live'
    rw [Function.update_of_ne differ] at live' ⊢
    obtain ⟨pos', pos_lt', base', size', set⟩ := table.live id' live'
    refine ⟨pos', pos_lt', base', size', (test pos').mpr ⟨?_, set⟩⟩
    rintro rfl
    exact differ (table.unique id' id live' live (base'.trans base.symm))
  · obtain ⟨differ, old⟩ := (test pos').mp set
    obtain ⟨id', live', base'⟩ := table.used pos' pos_lt' old
    refine ⟨id', ?_⟩
    rw [Function.update_of_ne]
    · exact ⟨live', base'⟩
    · rintro rfl
      exact differ (kstackSlot_injective (base'.symm.trans base))
  · have left_ne := dead left left_live
    have right_ne := dead right right_live
    rw [Function.update_of_ne left_ne] at left_live same
    rw [Function.update_of_ne right_ne] at right_live same
    exact table.unique left right left_live right_live same

end Descriptors

/-! ## Calls -/

section Calls

variable {kernelDir : ℕ} {dirs : List ℕ} {state : KstackState Heap} {stack : KernelStack}

/-- `kstack_alloc` on an empty descriptor: no slot, no frame, or a new stack in a free slot. -/
theorem kstackAlloc_cases (slots : KstackSlots kernelDir dirs state.kernel state.bm)
    (zeroed : stack.Zeroed) :
    (kstackAlloc state stack = (.error .nospc, stack, state) ∧
        ∀ pos < kernelStackMax, bitmapTest state.bm pos = true) ∨
      (∃ kernel, kstackAlloc state stack =
          (.error .nomem, stack, { state with kernel := kernel }) ∧
        (∃ pos < kernelStackMax, bitmapTest state.bm pos = false) ∧
        ∀ free : Finset ℕ, (∀ frame ∈ free, ¬ state.Marked frame ∧
          frame < state.kernel.machine.pmm.totalFrames) → free.card < kernelStackPages) ∨
      ∃ pos kernel frames, pos < kernelStackMax ∧ bitmapTest state.bm pos = false ∧
        kstackAlloc state stack = (.ok (), { stack with base := kstackSlot pos, size := 16384 },
          { kernel := kernel, bm := bitmapSet state.bm pos }) ∧
        frames.length = kernelStackPages ∧
        StackMapped kernelDir dirs state.kernel kernel (kstackSlot pos) frames := by
  rw [kstackAlloc, if_neg (by simp [zeroed.1, zeroed.2])]
  rcases bitmapFindZero_cases state.bm with ⟨full, all⟩ | ⟨pos, found, pos_lt, clear, -⟩
  · rw [full]
    exact .inl ⟨rfl, fun pos pos_lt => all pos (by rw [slots.nbits]; exact pos_lt)⟩
  · rw [slots.nbits] at pos_lt
    obtain ⟨aligned, lower, upper⟩ := kstackSlot_bounds pos_lt
    have unmapped : ∀ k < kernelStackPages, ¬ EntryPresent
        (pteWord state.kernel.machine kernelDir (kstackSlot pos + 4096 * 0 + 4096 * k)) := by
      intro k k_lt present
      have := (slots.mapped pos pos_lt k k_lt).mp present
      rw [clear] at this
      cases this
    right
    rw [found]
    simp only [kstackSlot_eq pos_lt]
    rcases kstackMapPages_cases slots.tables aligned (le_trans (by decide) lower)
        (show kstackSlot pos + 4096 * 0 + 4096 * 4 ≤ 2 ^ 32 by omega) unmapped with
      ⟨kernel, failed, few⟩ | ⟨kernel, frames, ran, length, fresh⟩
    · rw [failed]
      exact .inl ⟨kernel, rfl, ⟨pos, pos_lt, clear⟩, few⟩
    · rw [ran]
      exact .inr ⟨pos, kernel, frames, pos_lt, clear, rfl, length, fresh⟩

/-- `kstack_free` on the descriptor of a slot in use. -/
theorem kstackFree_eq (slots : KstackSlots kernelDir dirs state.kernel state.bm) {pos : ℕ}
    (live : stack.Live) (pos_lt : pos < kernelStackMax) (base : stack.base = kstackSlot pos)
    (set : bitmapTest state.bm pos = true) :
    ∃ kernel, kstackFree state stack = (.ok (), { base := 0, stackPointer := 0, size := 0 },
        { kernel := kernel, bm := bitmapClear state.bm pos }) ∧
      StackUnmapped kernelDir dirs state.kernel kernel (kstackSlot pos)
        (kstackFrames kernelDir state.kernel pos) := by
  obtain ⟨aligned, lower, upper⟩ := kstackSlot_bounds pos_lt
  have length : (kstackFrames kernelDir state.kernel pos).length = 4 := by
    rw [kstackFrames, List.length_map, List.length_range]
  have mapped : ∀ k frame, (kstackFrames kernelDir state.kernel pos)[k]? = some frame →
      EntryPresent (pteWord state.kernel.machine kernelDir (kstackSlot pos + 4096 * 0 + 4096 * k)) ∧
        pteWord state.kernel.machine kernelDir (kstackSlot pos + 4096 * 0 + 4096 * k) / 4096 =
          frame := by
    intro k frame at_k
    have k_lt : k < kernelStackPages := (List.getElem?_eq_some_iff.mp at_k).1.trans_eq length
    rw [kstackFrames, List.getElem?_map, List.getElem?_range k_lt, Option.map_some] at at_k
    exact ⟨(slots.mapped pos pos_lt k k_lt).mpr set, Option.some.inj at_k⟩
  obtain ⟨kernel, ran, gone⟩ := kstackUnmapPages_eq slots.tables aligned
    (le_trans (by decide) lower)
    (show kstackSlot pos + 4096 * 0 + 4096 * (kstackFrames kernelDir state.kernel pos).length ≤
      2 ^ 32 by rw [length]; omega)
    (slots.frames_nodup pos_lt set) mapped fun frame member => by
      obtain ⟨i, i_lt, rfl⟩ := mem_kstackFrames.mp member
      exact slots.placed pos pos_lt set i i_lt
  rw [length] at ran
  refine ⟨kernel, ?_, gone⟩
  rw [kstackFree, if_neg (by rw [not_or]; exact live), base, kstackSlot_index pos_lt]
  simp only [ran]

end Calls

/-! ## Runs -/

section Runs

variable {kernelDir : ℕ} {dirs : List ℕ} {run run' : KstackRun Heap}

theorem KstackRun.Inv.alloc (inv : run.Inv kernelDir dirs) {id : ℕ} {status : Status}
    {stack : KernelStack} {state : KstackState Heap} (zeroed : (run.descriptors id).Zeroed)
    (call : kstackAlloc run.state (run.descriptors id) = (status, stack, state))
    (served : status ≠ .error .nomem)
    (below : ∀ frame, ¬ run.state.Marked frame → state.Marked frame → frame < 2 ^ 20) :
    KstackRun.Inv kernelDir dirs
      { state := state
        descriptors := Function.update run.descriptors id stack
        owned := Function.update run.owned id
          {frame | ¬ run.state.Marked frame ∧ state.Marked frame} } := by
  have dead := KernelStack.not_live_of_zeroed zeroed
  rcases kstackAlloc_cases inv.slots zeroed with
    ⟨result, -⟩ | ⟨kernel, result, -⟩ | ⟨pos, kernel, frames, pos_lt, clear, result, length, fresh⟩
  · obtain ⟨rfl, rest⟩ := Prod.mk.inj (result.symm.trans call)
    obtain ⟨rfl, rfl⟩ := Prod.mk.inj rest
    rw [Function.update_eq_self]
    refine ⟨inv.slots, inv.descriptors, fun id' live pos pos_lt base frame => ?_⟩
    have differ : id' ≠ id := by
      rintro rfl
      exact dead live
    simp only [Function.update_of_ne differ]
    exact inv.owned id' live pos pos_lt base frame
  · obtain ⟨rfl, -⟩ := Prod.mk.inj (result.symm.trans call)
    exact absurd rfl served
  · obtain ⟨rfl, rest⟩ := Prod.mk.inj (result.symm.trans call)
    obtain ⟨rfl, rfl⟩ := Prod.mk.inj rest
    have small : ∀ frame ∈ frames, frame < 2 ^ 20 := fun frame member =>
      below frame (fresh.fresh frame member).1 ((fresh.marked frame).mpr (.inl member))
    have nonzero : kstackSlot pos ≠ 0 := by
      have := (kstackSlot_bounds pos_lt).2.1
      omega
    refine ⟨inv.slots.alloc pos_lt fresh length small, inv.descriptors.alloc pos_lt clear zeroed
      ⟨nonzero, show 16384 ≠ 0 by decide⟩ rfl rfl, fun id' live pos' pos_lt' base frame => ?_⟩
    by_cases same : id' = id
    · subst same
      simp only [Function.update_self] at base ⊢
      obtain rfl := kstackSlot_injective base
      rw [← mem_kstackFrames, fresh.frames_eq length small, Set.mem_ofPred_eq]
      simp only [KstackState.Marked, fresh.marked]
      constructor
      · rintro ⟨free, member | marked⟩
        · exact member
        · exact absurd marked free
      · exact fun member => ⟨(fresh.fresh frame member).1, .inl member⟩
    · simp only [Function.update_of_ne same] at live base ⊢
      obtain ⟨old, -, old_base, -, set⟩ := inv.descriptors.live id' live
      have differ : pos' ≠ pos := by
        rintro rfl
        rw [kstackSlot_injective (old_base.symm.trans base), clear] at set
        cases set
      rw [inv.owned id' live pos' pos_lt' base]
      refine exists_congr fun i => and_congr_right fun i_lt => ?_
      rw [fresh.word_of_ne length pos_lt' differ i_lt]

theorem KstackRun.Inv.free (inv : run.Inv kernelDir dirs) {id : ℕ} {status : Status}
    {stack : KernelStack} {state : KstackState Heap} (live : (run.descriptors id).Live)
    (call : kstackFree run.state (run.descriptors id) = (status, stack, state)) :
    status = .ok () ∧
    (∀ frame, state.Marked frame ↔ frame ∉ run.owned id ∧ run.state.Marked frame) ∧
    KstackRun.Inv kernelDir dirs
      { run with state := state, descriptors := Function.update run.descriptors id stack } := by
  obtain ⟨pos, pos_lt, base, -, set⟩ := inv.descriptors.live id live
  obtain ⟨kernel, result, gone⟩ := kstackFree_eq inv.slots live pos_lt base set
  obtain ⟨rfl, rest⟩ := Prod.mk.inj (result.symm.trans call)
  obtain ⟨rfl, rfl⟩ := Prod.mk.inj rest
  refine ⟨rfl, fun frame => ?_, inv.slots.free pos_lt set gone,
    inv.descriptors.free live base ⟨rfl, rfl⟩, fun id' live' pos' pos_lt' base' frame => ?_⟩
  · rw [inv.owned id live pos pos_lt base, ← mem_kstackFrames]
    exact gone.marked frame
  · have differ : id' ≠ id := by
      rintro rfl
      simp only [Function.update_self] at live'
      exact live'.1 rfl
    simp only [Function.update_of_ne differ] at live' base' ⊢
    have other : pos' ≠ pos := by
      rintro rfl
      exact differ (inv.descriptors.unique id' id live' live (base'.trans base.symm))
    rw [inv.owned id' live' pos' pos_lt' base']
    refine exists_congr fun i => and_congr_right fun i_lt => ?_
    rw [gone.word_of_ne pos_lt' other i_lt]

/-- The rest of the kernel keeps the records. -/
theorem KstackRun.Inv.other (inv : run.Inv kernelDir dirs) {kernel : Kernel Heap}
    (rely : StackRely run.state.kernel kernel) :
    ∃ dirs', KstackRun.Inv kernelDir dirs'
      { run with state := { run.state with kernel := kernel } } := by
  obtain ⟨dirs', tables, kept⟩ := rely.kept kernelDir dirs inv.slots.tables
  have word_eq {pos i : ℕ} (pos_lt : pos < kernelStackMax) (i_lt : i < kernelStackPages) :
      kstackWord kernelDir kernel pos i = kstackWord kernelDir run.state.kernel pos i ∧
      (EntryPresent (kstackWord kernelDir run.state.kernel pos i) →
        Residue kernelDir dirs' kernel.machine
          (kstackWord kernelDir run.state.kernel pos i / 4096)) := by
    obtain ⟨-, lower, upper⟩ := kstackSlot_bounds pos_lt
    have page_lt : 4096 * i < 16384 := Nat.mul_lt_mul_of_pos_left i_lt (by decide)
    exact kept _ (show 0xF0000000 ≤ _ by omega) (show _ < 0xF0100000 by omega)
  refine ⟨dirs', ⟨tables, inv.slots.nbits, fun pos pos_lt i i_lt => ?_,
    fun pos pos_lt set i i_lt => ?_,
    fun left left_lt right right_lt i i_lt i' i_lt' set set' same => ?_⟩, inv.descriptors,
    fun id live pos pos_lt base frame => ?_⟩
  · rw [(word_eq pos_lt i_lt).1]
    exact inv.slots.mapped pos pos_lt i i_lt
  · rw [(word_eq pos_lt i_lt).1, rely.total]
    exact ⟨(word_eq pos_lt i_lt).2 ((inv.slots.mapped pos pos_lt i i_lt).mpr set),
      (inv.slots.placed pos pos_lt set i i_lt).2⟩
  · rw [(word_eq left_lt i_lt).1, (word_eq right_lt i_lt').1] at same
    exact inv.slots.distinct left left_lt right right_lt i i_lt i' i_lt' set set' same
  · rw [inv.owned id live pos pos_lt base]
    refine exists_congr fun i => and_congr_right fun i_lt => ?_
    rw [(word_eq pos_lt i_lt).1]

theorem KstackRun.Inv.step (inv : run.Inv kernelDir dirs) (step : KstackStep run run') :
    ∃ dirs', run'.Inv kernelDir dirs' := by
  cases step with
  | alloc zeroed call served below => exact ⟨dirs, inv.alloc zeroed call served below⟩
  | free live call => exact ⟨dirs, (inv.free live call).2.2⟩
  | other rely => exact inv.other rely

theorem KstackRun.Inv.steps (inv : run.Inv kernelDir dirs)
    (steps : Relation.ReflTransGen KstackStep run run') : ∃ dirs', run'.Inv kernelDir dirs' := by
  induction steps with
  | refl => exact ⟨dirs, inv⟩
  | tail _ step induction =>
      obtain ⟨dirs', inv⟩ := induction
      exact inv.step step

/-- The allocator after boot: no slot is in use, and all descriptors are empty. -/
def kstackBoot (kernel : Kernel Heap) : KstackRun Heap where
  state := { kernel := kernel, bm := { data := fun _ => 0#32, nbits := kernelStackMax } }
  descriptors := fun _ => { base := 0, stackPointer := 0, size := 0 }
  owned := fun _ => ∅

theorem kstackBoot_inv {kernel : Kernel Heap} (tables : KernelTables kernelDir dirs kernel)
    (unmapped : ∀ va, kernelVirtOffset + kernelDirectMapSize ≤ va → va < 2 ^ 32 →
      ¬ EntryPresent (pteWord kernel.machine kernelDir va)) :
    (kstackBoot kernel).Inv kernelDir dirs := by
  have clear (pos : ℕ) : bitmapTest (kstackBoot kernel).state.bm pos = false := by
    simp [kstackBoot, bitmapTest]
  have empty {P : Prop} {pos : ℕ}
      (set : bitmapTest (kstackBoot kernel).state.bm pos = true) : P := by
    rw [clear] at set
    cases set
  have dead {P : Prop} {id : ℕ} (live : ((kstackBoot kernel).descriptors id).Live) : P :=
    absurd rfl live.1
  refine ⟨⟨tables, rfl, fun pos pos_lt i i_lt => ?_, fun pos _ set => empty set,
    fun pos _ _ _ _ _ _ _ set => empty set⟩,
    ⟨fun _ _ => ⟨rfl, rfl⟩, fun id live => dead live, fun pos _ set => empty set,
      fun _ _ live => dead live⟩, fun _ live => dead live⟩
  rw [clear]
  obtain ⟨-, lower, -⟩ := kstackSlot_bounds pos_lt
  exact iff_of_false (unmapped _ (show 0xF0000000 ≤ _ by omega) (kstackPage_lt pos_lt i_lt))
    Bool.false_ne_true

/-! ## The records of a run -/

/-- Pages of slots in use translate to their frames, and the others do not translate. -/
theorem KstackSlots.translate {kernel : Kernel Heap} {bm : Bitmap}
    (slots : KstackSlots kernelDir dirs kernel bm) {pos i : ℕ} (pos_lt : pos < kernelStackMax)
    (i_lt : i < kernelStackPages) :
    vmKernTranslate kernel (kstackSlot pos + 4096 * i) =
      if bitmapTest bm pos = true then .ok (kstackWord kernelDir kernel pos i / 4096 * 4096)
      else .error .noent := by
  obtain ⟨aligned, lower, upper⟩ := kstackSlot_bounds pos_lt
  have page : (kstackSlot pos + 4096 * i) % 4096 = 0 := by omega
  rw [vmKernTranslate_eq slots.tables (show 0xC0000000 ≤ _ by omega) (kstackPage_lt pos_lt i_lt),
    page, Nat.add_zero]
  exact if_congr (slots.mapped pos pos_lt i i_lt) rfl rfl

/-- As many descriptors are live as slots are in use. -/
theorem KstackDescriptors.ncard_live {bm : Bitmap} {descriptors : ℕ → KernelStack}
    (table : KstackDescriptors bm descriptors) :
    {id | (descriptors id).Live}.ncard =
      ((Finset.range kernelStackMax).filter fun pos => bitmapTest bm pos = true).card := by
  have image : (fun id => (descriptors id).base) '' {id | (descriptors id).Live} =
      kstackSlot '' ((Finset.range kernelStackMax).filter fun pos => bitmapTest bm pos = true) := by
    ext base
    simp only [Set.mem_image, Set.mem_ofPred_eq, Finset.coe_filter, Finset.mem_range]
    constructor
    · rintro ⟨id, live, rfl⟩
      obtain ⟨pos, pos_lt, base, -, set⟩ := table.live id live
      exact ⟨pos, ⟨pos_lt, set⟩, base.symm⟩
    · rintro ⟨pos, ⟨pos_lt, set⟩, rfl⟩
      obtain ⟨id, live, base⟩ := table.used pos pos_lt set
      exact ⟨id, live, base⟩
  have injective : Set.InjOn (fun id => (descriptors id).base) {id | (descriptors id).Live} :=
    fun id live id' live' same => table.unique id id' live live' same
  rw [← injective.ncard_image, image,
    Set.ncard_image_of_injective _ fun _ _ => kstackSlot_injective, Set.ncard_coe_finset]

theorem KstackDescriptors.ncard_live_eq_iff {bm : Bitmap} {descriptors : ℕ → KernelStack}
    (table : KstackDescriptors bm descriptors) :
    {id | (descriptors id).Live}.ncard = kernelStackMax ↔
      ∀ pos < kernelStackMax, bitmapTest bm pos = true := by
  rw [table.ncard_live]
  constructor
  · intro full pos pos_lt
    have all := Finset.eq_of_subset_of_card_le (Finset.filter_subset
      (fun pos => bitmapTest bm pos = true) (Finset.range kernelStackMax))
      (by rw [full, Finset.card_range])
    have member :
        pos ∈ (Finset.range kernelStackMax).filter fun pos => bitmapTest bm pos = true := by
      rw [all]
      exact Finset.mem_range.mpr pos_lt
    exact (Finset.mem_filter.mp member).2
  · intro all
    rw [Finset.filter_true_of_mem fun pos member => all pos (Finset.mem_range.mp member),
      Finset.card_range]

/-- What the four records of the stacks say about each other. -/
structure KstackRun.Agree (run : KstackRun Heap) : Prop where
  descriptor : ∀ pos < kernelStackMax, bitmapTest run.state.bm pos = true ↔
    ∃! id, (run.descriptors id).Live ∧ (run.descriptors id).base = kstackSlot pos
  mapped : ∀ pos < kernelStackMax, bitmapTest run.state.bm pos = true ↔
    ∀ i < kernelStackPages, ∃ phys,
      vmKernTranslate run.state.kernel (kstackSlot pos + 4096 * i) = .ok phys
  unmapped : ∀ pos < kernelStackMax, bitmapTest run.state.bm pos = false →
    ∀ i < kernelStackPages,
      vmKernTranslate run.state.kernel (kstackSlot pos + 4096 * i) = .error .noent
  region : ∀ id, (run.descriptors id).Live → kernelStackBase ≤ (run.descriptors id).base ∧
    (run.descriptors id).base + (run.descriptors id).size ≤ kernelStackEnd
  disjoint : ∀ id id', (run.descriptors id).Live → (run.descriptors id').Live → id ≠ id' →
    (run.descriptors id).base + (run.descriptors id).size ≤ (run.descriptors id').base ∨
      (run.descriptors id').base + (run.descriptors id').size ≤ (run.descriptors id).base
  frames : ∀ id id', (run.descriptors id).Live → (run.descriptors id').Live →
    ∀ i < kernelStackPages, ∀ i' < kernelStackPages,
      vmKernTranslate run.state.kernel ((run.descriptors id).base + 4096 * i) =
        vmKernTranslate run.state.kernel ((run.descriptors id').base + 4096 * i') →
      id = id' ∧ i = i'
  full : ∀ id, (run.descriptors id).Zeroed →
    ((kstackAlloc run.state (run.descriptors id)).1 = .error .nospc ↔
      {id | (run.descriptors id).Live}.ncard = kernelStackMax)
  returned : ∀ id, (run.descriptors id).Live → ∃ stack state,
    kstackFree run.state (run.descriptors id) = (.ok (), stack, state) ∧
      {frame | run.state.Marked frame ∧ ¬ state.Marked frame} = run.owned id ∧
      (∀ frame, state.Marked frame → run.state.Marked frame) ∧
      (run.owned id).ncard = kernelStackPages

theorem KstackRun.Inv.slot (inv : run.Inv kernelDir dirs) {id : ℕ}
    (live : (run.descriptors id).Live) : ∃ pos < kernelStackMax,
      (run.descriptors id).base = kstackSlot pos ∧ (run.descriptors id).size = 16384 ∧
      bitmapTest run.state.bm pos = true ∧
      run.owned id = {frame | frame ∈ kstackFrames kernelDir run.state.kernel pos} := by
  obtain ⟨pos, pos_lt, base, size, set⟩ := inv.descriptors.live id live
  refine ⟨pos, pos_lt, base, size, set, Set.ext fun frame => ?_⟩
  rw [inv.owned id live pos pos_lt base, Set.mem_ofPred_eq, mem_kstackFrames]

theorem KstackRun.Inv.full (inv : run.Inv kernelDir dirs) {id : ℕ}
    (zeroed : (run.descriptors id).Zeroed) :
    (kstackAlloc run.state (run.descriptors id)).1 = .error .nospc ↔
      {id | (run.descriptors id).Live}.ncard = kernelStackMax := by
  rw [inv.descriptors.ncard_live_eq_iff]
  rcases kstackAlloc_cases inv.slots zeroed with
    ⟨result, all⟩ | ⟨kernel, result, ⟨pos, pos_lt, clear⟩, -⟩ |
      ⟨pos, kernel, frames, pos_lt, clear, result, -, -⟩
  · rw [result]
    exact iff_of_true rfl all
  · rw [result]
    exact iff_of_false (by simp) fun all => Bool.false_ne_true (clear.symm.trans (all pos pos_lt))
  · rw [result]
    exact iff_of_false (by simp) fun all => Bool.false_ne_true (clear.symm.trans (all pos pos_lt))

theorem KstackRun.Inv.returned (inv : run.Inv kernelDir dirs) {id : ℕ}
    (live : (run.descriptors id).Live) : ∃ stack state,
      kstackFree run.state (run.descriptors id) = (.ok (), stack, state) ∧
      {frame | run.state.Marked frame ∧ ¬ state.Marked frame} = run.owned id ∧
      (∀ frame, state.Marked frame → run.state.Marked frame) ∧
      (run.owned id).ncard = kernelStackPages := by
  obtain ⟨pos, pos_lt, base, -, set, owned_eq⟩ := inv.slot live
  obtain ⟨status, stack, state, call⟩ : ∃ status stack state,
      kstackFree run.state (run.descriptors id) = (status, stack, state) := ⟨_, _, _, rfl⟩
  obtain ⟨rfl, marked, -⟩ := inv.free live call
  refine ⟨stack, state, call, Set.ext fun frame => ?_, fun frame kept => ((marked frame).mp kept).2,
    ?_⟩
  · rw [Set.mem_ofPred_eq, marked]
    constructor
    · rintro ⟨before, gone⟩
      by_contra outside
      exact gone ⟨outside, before⟩
    · intro member
      refine ⟨?_, fun kept => kept.1 member⟩
      rw [owned_eq] at member
      obtain ⟨i, i_lt, rfl⟩ := mem_kstackFrames.mp member
      exact (inv.slots.placed pos pos_lt set i i_lt).1.1
  · rw [owned_eq, ← List.coe_toFinset, Set.ncard_coe_finset,
      List.toFinset_card_of_nodup (inv.slots.frames_nodup pos_lt set), kstackFrames,
      List.length_map, List.length_range]

theorem KstackRun.Inv.agree (inv : run.Inv kernelDir dirs) : run.Agree := by
  refine ⟨fun pos pos_lt => ?_, fun pos pos_lt => ?_, fun pos pos_lt clear i i_lt => ?_,
    fun id live => ?_, fun id id' live live' differ => ?_,
    fun id id' live live' i i_lt i' i_lt' same => ?_, fun id => inv.full, fun id => inv.returned⟩
  · constructor
    · intro set
      obtain ⟨id, live, base⟩ := inv.descriptors.used pos pos_lt set
      refine ⟨id, ⟨live, base⟩, fun id' ⟨live', base'⟩ => ?_⟩
      exact inv.descriptors.unique id' id live' live (base'.trans base.symm)
    · rintro ⟨id, ⟨live, base⟩, -⟩
      obtain ⟨pos', -, base', -, set⟩ := inv.descriptors.live id live
      rw [kstackSlot_injective (base.symm.trans base')]
      exact set
  · constructor
    · intro set i i_lt
      rw [inv.slots.translate pos_lt i_lt, if_pos set]
      exact ⟨_, rfl⟩
    · intro mapped
      obtain ⟨phys, translated⟩ := mapped 0 (by decide)
      rw [inv.slots.translate pos_lt (by decide)] at translated
      by_contra clear
      rw [if_neg clear] at translated
      cases translated
  · rw [inv.slots.translate pos_lt i_lt, if_neg (by rw [clear]; exact Bool.false_ne_true)]
  · obtain ⟨pos, pos_lt, base, size, -⟩ := inv.slot live
    rw [base, size]
    exact (kstackSlot_bounds pos_lt).2
  · obtain ⟨pos, -, base, size, -⟩ := inv.slot live
    obtain ⟨pos', -, base', size', -⟩ := inv.slot live'
    have apart : pos ≠ pos' := by
      rintro rfl
      exact differ (inv.descriptors.unique id id' live live' (base.trans base'.symm))
    rw [base, size, base', size', kstackSlot, kstackSlot]
    omega
  · obtain ⟨pos, pos_lt, base, -, set, -⟩ := inv.slot live
    obtain ⟨pos', pos_lt', base', -, set', -⟩ := inv.slot live'
    rw [base, base', inv.slots.translate pos_lt i_lt, inv.slots.translate pos_lt' i_lt',
      if_pos set, if_pos set'] at same
    have frame_eq := Nat.eq_of_mul_eq_mul_right (by decide) (Except.ok.inj same)
    obtain ⟨rfl, rfl⟩ :=
      inv.slots.distinct pos pos_lt pos' pos_lt' i i_lt i' i_lt' set set' frame_eq
    exact ⟨inv.descriptors.unique id id' live live' (base.trans base'.symm), rfl⟩

/-- In every run after boot, the slot bitmap, the page tables, the frame allocator and the
descriptors agree on the stacks. -/
theorem kstackRun_agree {kernel kernel' : Kernel Heap} {sections : KernelSections}
    {run : KstackRun Heap} (total_lt : kernel.machine.pmm.totalFrames < 2 ^ 32)
    (init : vmKernInit sections kernel = (.ok (), kernel'))
    (steps : Relation.ReflTransGen KstackStep (kstackBoot kernel') run) : run.Agree := by
  obtain ⟨kernelDir, tables, -, unmapped⟩ := vmKernInit_eq_ok total_lt init
  obtain ⟨dirs, inv⟩ := (kstackBoot_inv tables unmapped).steps steps
  exact inv.agree

/-- On the small machine, a first stack can be allocated after `vm_kern_init`. -/
theorem smallKernel_kstack : ∃ kernel run,
    vmKernInit smallSections smallKernel = (.ok (), kernel) ∧
      Relation.ReflTransGen KstackStep (kstackBoot kernel) run ∧ (run.descriptors 0).Live := by
  have total_lt : smallKernel.machine.pmm.totalFrames < 2 ^ 32 := by decide
  obtain ⟨-, kernel, booted, -, -, -, lowmem⟩ := smallKernel_init
  obtain ⟨-, -, -, total, -⟩ := vmKernInit_kept total_lt booted
  obtain ⟨kernelDir, tables, -, unmapped⟩ := vmKernInit_eq_ok total_lt booted
  have inv := kstackBoot_inv tables unmapped
  have zeroed : ((kstackBoot kernel).descriptors 0).Zeroed := ⟨rfl, rfl⟩
  rcases kstackAlloc_cases inv.slots zeroed with
    ⟨_, all⟩ | ⟨_, _, _, few⟩ | ⟨pos, kernel', frames, pos_lt, _, call, _, fresh⟩
  · have := all 0 (by decide)
    simp [kstackBoot, bitmapTest] at this
  · have := few kernel.machine.pmm.lowSet fun frame member => by
      obtain ⟨bounded, free⟩ := Finset.mem_filter.mp member
      exact ⟨free, (Nat.lt_min.mp (Finset.mem_range.mp bounded)).2⟩
    unfold kernelStackPages at this
    omega
  · have total_eq : (kstackBoot kernel).state.kernel.machine.pmm.totalFrames = 1024 := total
    have step := KstackStep.alloc zeroed call (fun same => by cases same)
      fun frame free marked => by
        have member := ((fresh.marked frame).mp marked).resolve_right free
        have bounded := (fresh.fresh frame member).2
        rw [total_eq] at bounded
        omega
    refine ⟨kernel, _, booted, Relation.ReflTransGen.single step, ?_⟩
    simp only [Function.update_self]
    have lower := (kstackSlot_bounds pos_lt).2.1
    exact ⟨show kstackSlot pos ≠ 0 by omega, show 16384 ≠ 0 by decide⟩

theorem kstackRun_agree_small : ∃ kernel run,
    vmKernInit smallSections smallKernel = (.ok (), kernel) ∧
      Relation.ReflTransGen KstackStep (kstackBoot kernel) run ∧
      (run.descriptors 0).Live ∧ run.Agree := by
  obtain ⟨kernel, run, booted, steps, live⟩ := smallKernel_kstack
  exact ⟨kernel, run, booted, steps, live, kstackRun_agree (by decide) booted steps⟩

end Runs

end ItWorksOS
