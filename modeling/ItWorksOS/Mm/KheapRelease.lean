import ItWorksOS.Mm.KheapRun

/-!
# Releasing every live pointer

`kfree` rejects a pointer that lies within `KHEAP_MIN_BLOCK_SIZE` bytes of the end of the heap. The
payload of a small last block lies there, so such a block can never be released.
-/

namespace ItWorksOS

/-- `kfree` on each pointer in turn. -/
def kfreeAll (heap : Kheap) (ptrs : List ℕ) : Kheap :=
  ptrs.foldl (fun heap ptr => (kfree heap ptr).2) heap

/-- The dump walk reports one free block that spans the heap, and it is the whole free list. -/
def OneFreeBlock (heap : Kheap) : Prop :=
  kheapWalk heap (2 ^ 32) heap.start =
      some ([⟨heap.start, heap.stop - heap.start, true⟩], heap.stop) ∧
    wordNodes.Cycle heap.mem heap.freeList [heap.start + 8]

namespace KheapRun

variable {run run' : KheapRun} {blocks : List KheapBlock} {free : List ℕ}

theorem kmalloc_bounds {heap heap' : Kheap} {size ptr : ℕ}
    (call : kmalloc heap size = some (ptr, heap')) :
    heap'.start = heap.start ∧ heap'.stop = heap.stop := by
  unfold kmalloc at call
  split at call
  · cases call
    exact ⟨rfl, rfl⟩
  · split at call
    · cases call
    · cases call
      exact ⟨rfl, rfl⟩
    · cases call
      exact ⟨rfl, rfl⟩

theorem kfree_bounds (heap : Kheap) (ptr : ℕ) :
    (kfree heap ptr).2.start = heap.start ∧ (kfree heap ptr).2.stop = heap.stop := by
  unfold kfree
  split_ifs
  all_goals exact ⟨rfl, rfl⟩

theorem step_bounds (step : KheapStep run run') :
    run'.heap.start = run.heap.start ∧ run'.heap.stop = run.heap.stop := by
  cases step with
  | kmalloc fits call valid => exact kmalloc_bounds call
  | kmallocError fits call invalid => exact kmalloc_bounds call
  | @kfree allocation heap' live call =>
      have bounds := kfree_bounds run.heap allocation.ptr
      rwa [call] at bounds
  | @kfreeError allocation error heap' live call =>
      have bounds := kfree_bounds run.heap allocation.ptr
      rwa [call] at bounds
  | store live lower upper => exact ⟨rfl, rfl⟩

theorem steps_bounds (steps : Relation.ReflTransGen KheapStep run run') :
    run'.heap.start = run.heap.start ∧ run'.heap.stop = run.heap.stop := by
  induction steps with
  | refl => exact ⟨rfl, rfl⟩
  | tail _ step induction =>
      obtain ⟨start_eq, stop_eq⟩ := step_bounds step
      exact ⟨start_eq.trans induction.1, stop_eq.trans induction.2⟩

/-- A run of `kfree` calls on live pointers releases exactly those below the bound. -/
theorem Inv.kfreeAll (inv : run.Inv blocks free) {ptrs : List ℕ} (distinct : ptrs.Nodup)
    (owned : ∀ ptr ∈ ptrs, ∃ allocation ∈ run.live, allocation.ptr = ptr) :
    ∃ run' blocks' free', run'.heap = kfreeAll run.heap ptrs ∧ run'.Inv blocks' free' ∧
      Relation.ReflTransGen KheapStep run run' ∧
      ∀ allocation, allocation ∈ run'.live ↔ allocation ∈ run.live ∧
        ¬ (allocation.ptr ∈ ptrs ∧ BelowLastBlock run.heap allocation.ptr) := by
  induction ptrs generalizing run blocks free with
  | nil => exact ⟨run, blocks, free, rfl, inv, .refl, by simp⟩
  | cons ptr ptrs induction =>
      obtain ⟨fresh, rest_distinct⟩ := List.nodup_cons.mp distinct
      obtain ⟨allocation, live, rfl⟩ := owned ptr List.mem_cons_self
      obtain ⟨block, block_mem, allocated, ptr_eq, _⟩ := inv.owned allocation live
      have same {other : KheapAllocation} (member : other ∈ run.live)
          (equal : other.ptr = allocation.ptr) : other = allocation := by
        by_contra differ
        have : Std.Symm fun left right : KheapAllocation => left.ptr ≠ right.ptr :=
          ⟨fun _ _ differ => differ.symm⟩
        exact inv.distinct.forall member live differ equal
      have result := kfree_of_allocated inv.heap block_mem allocated
      rw [← ptr_eq] at result
      rcases result with ⟨below, call⟩ | ⟨high, call⟩
      · have step : KheapStep run _ := .kfree live call
        obtain ⟨blocks', free', inv'⟩ := inv.step step
        have nodup : run.live.Nodup := inv.distinct.imp fun differ same => differ (by rw [same])
        obtain ⟨run', blocks'', free'', heap_eq, inv'', steps, live_iff⟩ :=
          induction inv' rest_distinct fun ptr member => by
            obtain ⟨other, other_live, rfl⟩ := owned ptr (List.mem_cons_of_mem _ member)
            refine ⟨other, nodup.mem_erase_iff.mpr ⟨?_, other_live⟩, rfl⟩
            rintro rfl
            exact fresh member
        refine ⟨run', blocks'', free'', ?_, inv'', steps.head step, fun other => ?_⟩
        · rw [heap_eq, ItWorksOS.kfreeAll, ItWorksOS.kfreeAll, List.foldl_cons, call]
        · have bound : BelowLastBlock { run.heap with mem := kfreeBlock run.heap block.addr }
              other.ptr ↔ BelowLastBlock run.heap other.ptr := Iff.rfl
          rw [live_iff, nodup.mem_erase_iff, bound, List.mem_cons]
          constructor
          · rintro ⟨⟨differ, member⟩, kept⟩
            refine ⟨member, fun ⟨listed, below⟩ => ?_⟩
            rcases listed with equal | listed
            · exact differ (same member equal)
            · exact kept ⟨listed, below⟩
          · rintro ⟨member, kept⟩
            refine ⟨⟨?_, member⟩, fun ⟨listed, below⟩ => kept ⟨.inr listed, below⟩⟩
            rintro rfl
            exact kept ⟨.inl rfl, below⟩
      · obtain ⟨run', blocks'', free'', heap_eq, inv'', steps, live_iff⟩ :=
          induction inv rest_distinct fun ptr member => owned ptr (List.mem_cons_of_mem _ member)
        refine ⟨run', blocks'', free'', ?_, inv'', steps, fun other => ?_⟩
        · rw [heap_eq, ItWorksOS.kfreeAll, ItWorksOS.kfreeAll, List.foldl_cons, call]
        · rw [live_iff, List.mem_cons]
          constructor
          · rintro ⟨member, kept⟩
            refine ⟨member, fun ⟨listed, below⟩ => ?_⟩
            rcases listed with equal | listed
            · exact high (equal ▸ below)
            · exact kept ⟨listed, below⟩
          · rintro ⟨member, kept⟩
            exact ⟨member, fun ⟨listed, below⟩ => kept ⟨.inr listed, below⟩⟩

/-- The heap is one free block exactly when nothing is live. -/
theorem Inv.oneFreeBlock_iff (inv : run.Inv blocks free)
    (nonempty : run.heap.start < run.heap.stop) :
    OneFreeBlock run.heap ↔ run.live = [] := by
  have stop_le := inv.heap.stop_le
  have length_le := inv.heap.tags.tiles.length_le fun block member =>
    (inv.heap.tags.tagged block member).size_ge
  have walk := kheapWalk_eq inv.heap.tags (by omega) (by omega : blocks.length < 2 ^ 32)
  constructor
  · rintro ⟨single, _⟩
    rw [walk, Option.some.injEq, Prod.mk.injEq] at single
    obtain ⟨rfl, _⟩ := single
    apply List.eq_nil_iff_forall_not_mem.mpr
    intro allocation live
    obtain ⟨block, member, allocated, _⟩ := inv.owned allocation live
    rw [List.mem_singleton] at member
    subst member
    cases allocated
  · intro empty
    have all_free (block : KheapBlock) (member : block ∈ blocks) : block.free = true := by
      cases unfreed : block.free with
      | true => rfl
      | false =>
          obtain ⟨allocation, live, _⟩ := inv.covered block member unfreed
          rw [empty] at live
          cases live
    match blocks, inv, walk, all_free with
    | [], inv, _, _ =>
        have : run.heap.start = run.heap.stop := inv.heap.tags.tiles
        omega
    | first :: second :: rest, inv, _, all_free =>
        have apart := (List.isChain_cons_cons.mp inv.heap.separated).1
        exact absurd ⟨all_free first (by simp), all_free second (by simp)⟩ apart
    | [block], inv, walk, all_free =>
        have block_free := all_free block (by simp)
        obtain ⟨addr_eq, stop_eq⟩ := inv.heap.tags.tiles
        have total : run.heap.start + block.size = run.heap.stop := stop_eq
        have shape : block = ⟨run.heap.start, run.heap.stop - run.heap.start, true⟩ := by
          obtain ⟨addr, size, block_flag⟩ := block
          simp only at addr_eq total block_free
          rw [addr_eq, block_free, KheapBlock.mk.injEq]
          exact ⟨rfl, by omega, rfl⟩
        refine ⟨by rw [walk, shape], ?_⟩
        have nodes := inv.heap.nodes
        rw [freeNodes_cons_free block_free, show freeNodes [] = [] from rfl, shape,
          List.perm_singleton] at nodes
        rw [← nodes]
        exact inv.heap.cycle

end KheapRun

/-- In every state of every run, `kfree` accepts a live pointer exactly when it lies more than
`KHEAP_MIN_BLOCK_SIZE` bytes below the end of the heap; and releasing all live pointers, in any
order, leaves one free block exactly when all of them do. -/
theorem kfree_live_iff_of_run {mem : ByteMemory} {freeList : ℕ} {pmm pmm' : Pmm} {heap : Kheap}
    {run : KheapRun} (reserved : ReservedData pmm freeList 8)
    (init : kheapInit mem freeList pmm = (.ok heap, pmm'))
    (steps : Relation.ReflTransGen KheapStep (KheapRun.initial heap) run) :
    (∀ allocation ∈ run.live, (kfree run.heap allocation.ptr).1 = .ok () ↔
      allocation.ptr + kheapMinBlockSize < run.heap.stop) ∧
    ∀ order, order.Perm (run.live.map KheapAllocation.ptr) →
      (OneFreeBlock (kfreeAll run.heap order) ↔
        ∀ allocation ∈ run.live, allocation.ptr + kheapMinBlockSize < run.heap.stop) := by
  have started := kheapInit_inv init reserved
  obtain ⟨blocks, free, inv⟩ := (KheapRun.initial_inv started (by simp)).steps steps
  refine ⟨fun allocation live => ?_, fun order permuted => ?_⟩
  · obtain ⟨block, member, allocated, ptr_eq, _⟩ := inv.owned allocation live
    have result := kfree_of_allocated inv.heap member allocated
    rw [← ptr_eq] at result
    rcases result with ⟨below, call⟩ | ⟨high, call⟩
    · rw [call]
      exact ⟨fun _ => below, fun _ => rfl⟩
    · rw [call]
      exact ⟨nofun, fun below => absurd below high⟩
  · have distinct : order.Nodup := by
      rw [permuted.nodup_iff]
      exact List.pairwise_map.mpr inv.distinct
    obtain ⟨run', blocks', free', heap_eq, inv', more, live_iff⟩ :=
      inv.kfreeAll distinct fun ptr member => by
        simpa using permuted.mem_iff.mp member
    have bounds := KheapRun.steps_bounds (steps.trans more)
    have nonempty : run'.heap.start < run'.heap.stop := by
      have total : heap.start + 0x100000 = heap.stop := started.tags.tiles.2
      rw [bounds.1, bounds.2]
      change heap.start < heap.stop
      omega
    rw [← heap_eq, inv'.oneFreeBlock_iff nonempty, List.eq_nil_iff_forall_not_mem]
    constructor
    · intro empty allocation live
      by_contra high
      exact empty allocation ((live_iff allocation).mpr ⟨live, fun freed => high freed.2⟩)
    · intro below allocation live
      obtain ⟨old, kept⟩ := (live_iff allocation).mp live
      refine kept ⟨?_, below allocation old⟩
      exact permuted.mem_iff.mpr (List.mem_map_of_mem old)

/-- Three allocations can be released one by one in any order, which leaves one free block. -/
theorem kfree_live_iff_of_run_three :
    ∃ heap run, kheapInit (fun _ => 0) 0xC0008000 smallPmm =
        (.ok heap, pmmMark smallPmm 256 256) ∧
      Relation.ReflTransGen KheapStep (KheapRun.initial heap) run ∧
      run.live = [⟨0xC01000A4, 40⟩, ⟨0xC010002C, 100⟩, ⟨0xC0100010, 8⟩] ∧
      (kfree run.heap 0xC010002C).1 = .ok () ∧
      OneFreeBlock (kfreeAll run.heap [0xC010002C, 0xC01000A4, 0xC0100010]) ∧
      OneFreeBlock (kfreeAll run.heap [0xC0100010, 0xC01000A4, 0xC010002C]) := by
  obtain ⟨heap, init⟩ := smallPmm_kheapInit
  have returned : (kheapInit (fun _ => 0) 0xC0008000 smallPmm).1.toOption.bind
      (fun heap => (kmalloc heap 8).bind fun first => (kmalloc first.2 100).bind fun second =>
        (kmalloc second.2 40).map fun third => (first.1, second.1, third.1, third.2.stop)) =
          some (0xC0100010, 0xC010002C, 0xC01000A4, 0xC0200000) := by
    decide +kernel
  simp only [init, Except.toOption, Option.bind_some, Option.bind_eq_some_iff,
    Option.map_eq_some_iff, Prod.mk.injEq] at returned
  obtain ⟨⟨first, one⟩, firstCall, ⟨second, two⟩, secondCall, ⟨third, last⟩, thirdCall, rfl, rfl,
    rfl, stop_eq⟩ := returned
  obtain ⟨oneRun, oneStep, rfl, oneLive⟩ : ∃ run, KheapStep (.initial heap) run ∧
      run.heap = one ∧ run.live = [⟨0xC0100010, 8⟩] :=
    ⟨_, .kmalloc (by unfold KmallocFits; decide) firstCall (by decide), rfl, rfl⟩
  obtain ⟨twoRun, twoStep, rfl, twoLive⟩ : ∃ run, KheapStep oneRun run ∧ run.heap = two ∧
      run.live = ⟨0xC010002C, 100⟩ :: oneRun.live :=
    ⟨_, .kmalloc (by unfold KmallocFits; decide) secondCall (by decide), rfl, rfl⟩
  obtain ⟨run, lastStep, rfl, lastLive⟩ : ∃ run, KheapStep twoRun run ∧ run.heap = last ∧
      run.live = ⟨0xC01000A4, 40⟩ :: twoRun.live :=
    ⟨_, .kmalloc (by unfold KmallocFits; decide) thirdCall (by decide), rfl, rfl⟩
  have steps := ((Relation.ReflTransGen.single oneStep).tail twoStep).tail lastStep
  have live : run.live = [⟨0xC01000A4, 40⟩, ⟨0xC010002C, 100⟩, ⟨0xC0100010, 8⟩] := by
    rw [lastLive, twoLive, oneLive]
  simp only at stop_eq
  have below : ∀ allocation ∈ run.live, allocation.ptr + kheapMinBlockSize < run.heap.stop := by
    rw [live, stop_eq]
    decide
  obtain ⟨accepted, released⟩ := kfree_live_iff_of_run smallPmm_reserved init steps
  rw [live] at released accepted below
  refine ⟨heap, run, init, steps, live, ?_, ?_, ?_⟩
  · exact (accepted ⟨0xC010002C, 100⟩ (by simp)).mpr (below _ (by simp))
  · exact (released [0xC010002C, 0xC01000A4, 0xC0100010] (by decide)).mpr below
  · exact (released [0xC0100010, 0xC01000A4, 0xC010002C] (by decide)).mpr below

/-- After a request that leaves a minimal last block, a request that takes it returns a pointer
that `kfree` rejects. -/
theorem kfree_rejects_last_block :
    ∃ heap run, kheapInit (fun _ => 0) 0xC0008000 smallPmm =
        (.ok heap, pmmMark smallPmm 256 256) ∧
      Relation.ReflTransGen KheapStep (KheapRun.initial heap) run ∧
      ⟨0xC01FFFF8, 4⟩ ∈ run.live ∧ kfree run.heap 0xC01FFFF8 = (.error .inval, run.heap) := by
  obtain ⟨heap, init⟩ := smallPmm_kheapInit
  have returned : (kheapInit (fun _ => 0) 0xC0008000 smallPmm).1.toOption.bind
      (fun heap => (kmalloc heap 1048532).bind fun first => (kmalloc first.2 4).map fun second =>
        (first.1, second.1, second.2.stop)) = some (0xC0100010, 0xC01FFFF8, 0xC0200000) := by
    decide +kernel
  simp only [init, Except.toOption, Option.bind_some, Option.bind_eq_some_iff,
    Option.map_eq_some_iff, Prod.mk.injEq] at returned
  obtain ⟨⟨first, middle⟩, firstCall, ⟨second, last⟩, secondCall, rfl, rfl, stop_eq⟩ := returned
  obtain ⟨before, beforeStep, rfl⟩ : ∃ run, KheapStep (.initial heap) run ∧ run.heap = middle :=
    ⟨_, .kmalloc (by unfold KmallocFits; decide) firstCall (by decide), rfl⟩
  obtain ⟨run, step, rfl, live⟩ : ∃ run, KheapStep before run ∧ run.heap = last ∧
      run.live = ⟨0xC01FFFF8, 4⟩ :: before.live :=
    ⟨_, .kmalloc (by unfold KmallocFits; decide) secondCall (by decide), rfl, rfl⟩
  refine ⟨heap, run, init, (Relation.ReflTransGen.single beforeStep).tail step, by simp [live], ?_⟩
  have bound : run.heap.stop - kheapMinBlockSize ≤ 0xC01FFFF8 := by
    simp only at stop_eq
    rw [stop_eq]
    decide
  rw [kfree, if_neg (by decide), if_pos (.inr bound)]

end ItWorksOS
