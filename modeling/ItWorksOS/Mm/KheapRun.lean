import ItWorksOS.Mm.KheapInvariant
import ItWorksOS.Mm.PmmOwnership

/-!
# Runs of the kernel heap

A run starts from `kheap_init` and interleaves `kmalloc`, `kfree` of live pointers and byte stores
of the clients into their own payloads. Ghost state records the live allocations and the bytes
their owners have stored, which the heap itself knows nothing about.
-/

namespace ItWorksOS

/-- Static kernel data in the direct map, in frames that the PMM does not hand out because
`pmm_init` reserved the kernel image. -/
def ReservedData (pmm : Pmm) (addr size : ℕ) : Prop :=
  kernelVirtOffset ≤ addr ∧ addr + size ≤ kernelVirtOffset + kernelDirectMapSize ∧
    ∀ byte, addr ≤ byte → byte < addr + size →
      (byte - kernelVirtOffset) / 4096 < pmm.totalFrames →
        pmm.Marked ((byte - kernelVirtOffset) / 4096)

/-- Data of the kernel image stays reserved along every run of the PMM. -/
theorem reservedData_of_run {data : ℕ → BitVec 32} {kernelStart kernelEnd addr size : ℕ}
    {map : List BootMemMapEntry} {initial : Pmm} {run : PmmRun}
    (init : pmmInit data kernelStart kernelEnd map = .ok initial)
    (image : KernelImage kernelStart kernelEnd)
    (steps : Relation.ReflTransGen PmmStep { pmm := initial, live := [] } run)
    (mapped : kernelEnd ≤ kernelVirtOffset + kernelDirectMapSize) (lower : kernelStart ≤ addr)
    (upper : addr + size ≤ kernelEnd) : ReservedData run.pmm addr size := by
  have inv := (PmmRun.initial_inv (counted_of_pmmInit init)).steps steps
  have start_ge := image.start_ge
  refine ⟨by omega, by omega, ?_⟩
  intro byte byte_ge byte_lt below
  rw [inv.total] at below
  refine (inv.marked _).mpr (Or.inl ((marked_pmmInit init image below).mpr (Or.inr (Or.inl ?_))))
  unfold FrameMeets
  omega

/-! ## Initialisation -/

section Initial

variable {mem : ByteMemory} {start size freeList : ℕ}

/-- The tags of a heap that consists of one free block. -/
private def initialTags (mem : ByteMemory) (start size : ℕ) : ByteMemory :=
  ((mem.write32 start size).write32 (start + 4) 0).write32 (start + size - 4) size

private theorem initialTags_tagged (mem : ByteMemory) (start : ℕ) (size_ge : 24 ≤ size)
    (size_mod : size % 4 = 0)
    (size_lt : size < 2 ^ 32) :
    Tagged (initialTags mem start size) start [⟨start, size, true⟩] (start + size) := by
  refine ⟨⟨rfl, rfl⟩, ?_⟩
  intro block member
  obtain rfl := List.mem_singleton.mp member
  refine ⟨size_ge, size_mod, ?_, ?_, ?_⟩
  · simp only [initialTags]
    rw [ByteMemory.read32_write32_of_disjoint (by omega),
      ByteMemory.read32_write32_of_disjoint (by omega),
      ByteMemory.read32_write32_of_lt _ _ size_lt]
  · simp only [initialTags, kheapAllocated]
    rw [ByteMemory.read32_write32_of_disjoint (by omega), ByteMemory.read32_write32]
    rfl
  · exact ByteMemory.read32_write32_of_lt _ _ size_lt

private theorem initial_inv (size_ge : 24 ≤ size) (size_mod : size % 4 = 0)
    (size_lt : size < 2 ^ 32) (start_mod : start % 4 = 0) (stop_le : start + size ≤ 0xF0000000)
    (head_lt : freeList < 2 ^ 32)
    (outside : freeList + 8 ≤ start ∨ start + size ≤ freeList) :
    KheapInv
      { mem := listInsertFront wordNodes
          (listInit wordNodes (initialTags mem start size) freeList) freeList (start + 8)
        start := start
        stop := start + size
        freeList := freeList } [⟨start, size, true⟩] [start + 8] := by
  have apart (other : ℕ) (member : other ∈ [freeList]) : wordNodes.Apart (start + 8) other := by
    obtain rfl := List.mem_singleton.mp member
    change _ ∨ _
    omega
  have tags := initialTags_tagged mem start size_ge size_mod size_lt
  have cleared : wordNodes.Cycle (listInit wordNodes (initialTags mem start size) freeList)
      freeList [] := listInit_cycle head_lt
  have origin (node : ℕ) (touched : node ∈ {other | other = start + 8 ∨ other ∈ [freeList]}) :
      node = freeList ∨
        ∃ owner ∈ [(⟨start, size, true⟩ : KheapBlock)], node = owner.addr + 8 := by
    rcases touched with rfl | member
    · exact Or.inr ⟨⟨start, size, true⟩, by simp, rfl⟩
    · exact Or.inl (List.mem_singleton.mp member)
  have tags_init : Tagged (listInit wordNodes (initialTags mem start size) freeList) start _ _ :=
    tags.rewrites listInit_rewrites fun node touched _ =>
      tags.node_avoids outside (origin node (Or.inr (List.mem_singleton.mpr touched)))
  refine ⟨start_mod, stop_le, outside, ?_, by simp, ?_, ?_⟩
  · exact tags_init.rewrites (listInsertFront_rewrites cleared apart) fun node touched _ =>
      tags_init.node_avoids outside (origin node touched)
  · exact listInsertFront_cycle cleared apart (by change _ < _; omega)
  · simp [freeNodes]

/-- `kheap_init` establishes the invariant with one free block. -/
theorem kheapInit_inv {pmm pmm' : Pmm} {heap : Kheap}
    (init : kheapInit mem freeList pmm = (.ok heap, pmm'))
    (reserved : ReservedData pmm freeList 8) :
    KheapInv heap [⟨heap.start, 0x100000, true⟩] [heap.start + 8] := by
  obtain ⟨head_low, head_high, head_marked⟩ := reserved
  unfold kernelVirtOffset kernelDirectMapSize at *
  rcases pmmAllocLowmem_cases pmm (by decide : 0 < 256) with
    ⟨failed, _⟩ | ⟨firstFrame, allocated, lowmem, total, free⟩
  · simp [kheapInit, failed] at init
  have start_eq : physToVirt (firstFrame * 4096) = firstFrame * 4096 + 0xC0000000 :=
    physToVirt_of_lowmem (by unfold kernelLowmemLimit; omega)
  obtain ⟨start, start_def⟩ : ∃ start, start = firstFrame * 4096 + 0xC0000000 := ⟨_, rfl⟩
  obtain ⟨size, size_def⟩ : ∃ size, size = pmmFrameSize * 256 := ⟨_, rfl⟩
  have size_eq : size = 0x100000 := size_def
  have stop_eq : (start + size) % 2 ^ 32 = start + size := by omega
  -- The head lies in marked frames and the heap in frames that were free.
  have outside : freeList + 8 ≤ start ∨ start + size ≤ freeList := by
    by_contra overlap
    by_cases lower : freeList < start
    · have first_eq : (start - 0xC0000000) / 4096 = firstFrame := by omega
      have marked := head_marked start (by omega) (by omega) (by omega)
      rw [first_eq] at marked
      exact free firstFrame (by omega) (by omega) marked
    · exact free ((freeList - 0xC0000000) / 4096) (by omega) (by omega)
        (head_marked freeList (by omega) (by omega) (by omega))
  simp only [kheapInit, allocated, start_eq, ← start_def, ← size_def, stop_eq, kheapFooterSize,
    Prod.mk.injEq, Except.ok.injEq] at init
  obtain ⟨rfl, _⟩ := init
  rw [← size_eq]
  exact initial_inv (by omega) (by omega) (by omega) (by omega) (by omega) (by omega) outside

end Initial

/-! ## Walk -/

/-- The dump walk reports exactly the tagged blocks. -/
theorem kheapWalk_eq {heap : Kheap} {blocks : List KheapBlock} {addr fuel : ℕ}
    (tags : Tagged heap.mem addr blocks heap.stop) (stop_lt : heap.stop < 2 ^ 32)
    (enough : blocks.length < fuel) : kheapWalk heap fuel addr = some (blocks, heap.stop) := by
  induction blocks generalizing addr fuel with
  | nil =>
      obtain ⟨fuel, rfl⟩ := Nat.exists_eq_succ_of_ne_zero (Nat.ne_of_gt enough)
      obtain rfl : addr = heap.stop := tags.tiles
      rw [kheapWalk, if_neg (Nat.lt_irrefl _)]
  | cons block blocks induction =>
      obtain ⟨fuel, rfl⟩ :=
        Nat.exists_eq_succ_of_ne_zero (Nat.ne_of_gt (Nat.zero_lt_of_lt enough))
      obtain ⟨rfl, rest⟩ := tags.tiles
      have tagged := tags.tagged block (by simp)
      have size_ge := tagged.size_ge
      have rest_le := rest.le
      have remaining : kheapWalk heap fuel (block.addr + block.size) = some (blocks, heap.stop) :=
        induction ⟨rest, fun other member => tags.tagged other (by simp [member])⟩
          (by simp only [List.length_cons] at enough; omega)
      rw [kheapWalk, if_pos (by omega)]
      simp only [tagged.header, tagged.flags, Bool.not_not]
      rw [Nat.mod_eq_of_lt (by omega), remaining]
      rfl

/-- The blocks of a well-formed heap are determined by its memory. -/
theorem KheapInv.blocks_unique {heap : Kheap} {blocks blocks' : List KheapBlock}
    {free free' : List ℕ} (inv : KheapInv heap blocks free) (inv' : KheapInv heap blocks' free') :
    blocks = blocks' := by
  have stop_le := inv.stop_le
  have length_le := inv.tags.tiles.length_le fun block member =>
    (inv.tags.tagged block member).size_ge
  have length_le' := inv'.tags.tiles.length_le fun block member =>
    (inv'.tags.tagged block member).size_ge
  have walk : kheapWalk heap (2 ^ 32) heap.start = some (blocks, heap.stop) :=
    kheapWalk_eq inv.tags (by omega) (by omega)
  rw [kheapWalk_eq inv'.tags (by omega) (by omega), Option.some.injEq, Prod.mk.injEq] at walk
  exact walk.1.symm

/-! ## Runs -/

/-- A pointer returned by `kmalloc` with the size that was requested. -/
structure KheapAllocation where
  /-- Returned pointer. -/
  ptr : ℕ
  /-- Requested size. -/
  size : ℕ
  deriving DecidableEq, Repr

/-- The heap together with what its clients know about it. -/
structure KheapRun where
  /-- The heap itself. -/
  heap : Kheap
  /-- Allocations that have not been released. -/
  live : List KheapAllocation
  /-- Last byte a client stored at an address of its current payload. -/
  written : ℕ → Option UInt8

/-- End of the payload of the block behind a pointer, from its header. -/
def KheapRun.payloadEnd (run : KheapRun) (ptr : ℕ) : ℕ :=
  ptr - kheapHeaderSize + run.heap.mem.read32 (ptr - kheapHeaderSize) - kheapFooterSize

/-- The state of a run right after `kheap_init`. -/
def KheapRun.initial (heap : Kheap) : KheapRun where
  heap := heap
  live := []
  written _ := none

/-- One call into the heap, or one client store into a live payload. -/
inductive KheapStep : KheapRun → KheapRun → Prop
  | kmalloc {run : KheapRun} {size ptr : ℕ} {heap' : Kheap} (fits : KmallocFits size)
      (call : kmalloc run.heap size = some (ptr, heap')) (valid : kerrPtrIsErr ptr = false) :
      KheapStep run
        { heap := heap'
          live := ⟨ptr, size⟩ :: run.live
          written := fun addr =>
            if ptr ≤ addr ∧ addr < KheapRun.payloadEnd { run with heap := heap' } ptr then none
            else run.written addr }
  | kmallocError {run : KheapRun} {size ptr : ℕ} {heap' : Kheap} (fits : KmallocFits size)
      (call : kmalloc run.heap size = some (ptr, heap')) (invalid : kerrPtrIsErr ptr = true) :
      KheapStep run { run with heap := heap' }
  | kfree {run : KheapRun} {allocation : KheapAllocation} {heap' : Kheap}
      (live : allocation ∈ run.live) (call : kfree run.heap allocation.ptr = (.ok (), heap')) :
      KheapStep run { run with heap := heap', live := run.live.erase allocation }
  | kfreeError {run : KheapRun} {allocation : KheapAllocation} {error : KError} {heap' : Kheap}
      (live : allocation ∈ run.live)
      (call : kfree run.heap allocation.ptr = (.error error, heap')) :
      KheapStep run { run with heap := heap' }
  | store {run : KheapRun} {allocation : KheapAllocation} {addr : ℕ} {byte : UInt8}
      (live : allocation ∈ run.live) (lower : allocation.ptr ≤ addr)
      (upper : addr < run.payloadEnd allocation.ptr) :
      KheapStep run
        { run with
          heap := { run.heap with mem := run.heap.mem.write8 addr byte }
          written := Function.update run.written addr (some byte) }

/-! ## Invariant of a run -/

/-- The pointer passes the upper bound check of `kfree`. -/
def BelowLastBlock (heap : Kheap) (ptr : ℕ) : Prop := ptr + kheapMinBlockSize < heap.stop

/-- An allocated block is released exactly when its payload starts below the checked bound. -/
theorem kfree_of_allocated {heap : Kheap} {blocks : List KheapBlock} {free : List ℕ}
    {block : KheapBlock} (inv : KheapInv heap blocks free) (member : block ∈ blocks)
    (allocated : block.free = false) :
    (BelowLastBlock heap (block.addr + 16) ∧
        kfree heap (block.addr + 16) = (.ok (), { heap with mem := kfreeBlock heap block.addr })) ∨
      (¬ BelowLastBlock heap (block.addr + 16) ∧
        kfree heap (block.addr + 16) = (.error .inval, heap)) := by
  have addr_mod := inv.tags.addr_mod inv.start_mod member
  have bounds := inv.tags.tiles.bounds member
  have flags := (inv.tags.tagged block member).flags
  rw [allocated] at flags
  unfold kfree BelowLastBlock kheapHeaderSize kheapMinBlockSize
  rw [if_neg (by omega)]
  by_cases below : block.addr + 16 + 24 < heap.stop
  · left
    rw [if_neg (by omega), if_neg (by omega), Nat.add_sub_cancel, flags]
    exact ⟨below, rfl⟩
  · right
    rw [if_pos (by omega)]
    exact ⟨below, rfl⟩

/-- Releasing an allocated block reaches the coalescing code or is rejected without effect. -/
theorem kfree_cases {heap : Kheap} {blocks : List KheapBlock} {free : List ℕ}
    {block : KheapBlock} (inv : KheapInv heap blocks free) (member : block ∈ blocks)
    (allocated : block.free = false) :
    kfree heap (block.addr + 16) = (.error .inval, heap) ∨
      kfree heap (block.addr + 16) = (.ok (), { heap with mem := kfreeBlock heap block.addr }) := by
  rcases kfree_of_allocated inv member allocated with ⟨_, released⟩ | ⟨_, rejected⟩
  · exact .inr released
  · exact .inl rejected

/-- A store into the payload of an allocated block keeps the representation. -/
theorem KheapInv.store {heap : Kheap} {blocks : List KheapBlock} {free : List ℕ}
    {block : KheapBlock} {addr : ℕ} {byte : UInt8} (inv : KheapInv heap blocks free)
    (member : block ∈ blocks) (lower : block.addr + 16 ≤ addr)
    (upper : addr < block.addr + block.size - 4) :
    KheapInv { heap with mem := heap.mem.write8 addr byte } blocks free := by
  have untouched {other : ℕ} (distinct : other ≠ addr) :
      heap.mem.write8 addr byte other = heap.mem other := Function.update_of_ne distinct _ _
  have link_agree (node offset : ℕ) (node_mem : node ∈ heap.freeList :: free)
      (offset_le : offset ≤ 4) :
      (heap.mem.write8 addr byte).read32 (node + offset) = heap.mem.read32 (node + offset) := by
    have apart := inv.tags.node_avoids_payload inv.sentinel (inv.origin node_mem) member lower upper
    exact ByteMemory.read32_congr fun other lower upper => untouched (by omega)
  refine ⟨inv.start_mod, inv.stop_le, inv.sentinel, ?_, inv.separated, ?_, inv.nodes⟩
  · refine inv.tags.congr ?_ ?_
    all_goals
      intro other other_mem target target_lower target_upper
      have other_ge := (inv.tags.tagged other other_mem).size_ge
      apply untouched
      rcases inv.tags.tiles.eq_or_disjoint other_mem member with rfl | disjoint
      · omega
      · omega
  · exact inv.cycle.congr (fun node node_mem => link_agree node 0 node_mem (by omega))
      fun node node_mem => link_agree node 4 node_mem (by omega)

/-- The heap is well formed, and every live allocation owns an allocated block whose payload still
holds what its client stored there. -/
structure KheapRun.Inv (run : KheapRun) (blocks : List KheapBlock) (free : List ℕ) : Prop where
  heap : KheapInv run.heap blocks free
  distinct : run.live.Pairwise fun left right => left.ptr ≠ right.ptr
  owned : ∀ allocation ∈ run.live, ∃ block ∈ blocks, block.free = false ∧
    allocation.ptr = block.addr + 16 ∧ allocation.size + 20 ≤ block.size
  covered : ∀ block ∈ blocks, block.free = false →
    ∃ allocation ∈ run.live, allocation.ptr = block.addr + 16
  contents : ∀ allocation ∈ run.live, ∀ addr byte, allocation.ptr ≤ addr →
    addr < run.payloadEnd allocation.ptr → run.written addr = some byte →
      run.heap.mem addr = byte

namespace KheapRun

variable {run run' : KheapRun} {blocks : List KheapBlock} {free : List ℕ}

/-- The header of an owned block gives the end of its payload. -/
theorem payloadEnd_eq (run : KheapRun) {block : KheapBlock} (inv : KheapInv run.heap blocks free)
    (member : block ∈ blocks) :
    run.payloadEnd (block.addr + 16) = block.addr + block.size - 4 := by
  have header := (inv.tags.tagged block member).header
  simp only [payloadEnd, kheapHeaderSize, kheapFooterSize, Nat.add_sub_cancel, header]

private theorem owned_of_keeps {heap' : Kheap} {written' : ℕ → Option UInt8}
    {live' : List KheapAllocation} {kept blocks' : List KheapBlock} {free' : List ℕ}
    (inv : run.Inv blocks free) (heap_inv : KheapInv heap' blocks' free')
    (keeps : KeepsAllocated run.heap heap' kept blocks')
    (sub : live'.Sublist run.live)
    (still : ∀ allocation ∈ live', ∀ block ∈ blocks, block.free = false →
      allocation.ptr = block.addr + 16 → block ∈ kept)
    (written_le : ∀ addr byte, written' addr = some byte → run.written addr = some byte) :
    (∀ allocation ∈ live', ∃ block ∈ blocks', block.free = false ∧
      allocation.ptr = block.addr + 16 ∧ allocation.size + 20 ≤ block.size) ∧
    ∀ allocation ∈ live', ∀ addr byte, allocation.ptr ≤ addr →
      addr < payloadEnd ⟨heap', live', written'⟩ allocation.ptr → written' addr = some byte →
        heap'.mem addr = byte := by
  refine ⟨?_, ?_⟩
  · intro allocation member
    obtain ⟨block, block_mem, allocated, ptr_eq, large⟩ := inv.owned allocation (sub.subset member)
    have block_kept := still allocation member block block_mem allocated ptr_eq
    exact ⟨block, (keeps block block_kept allocated).1, allocated, ptr_eq, large⟩
  · intro allocation member addr byte lower upper stored
    obtain ⟨block, block_mem, allocated, ptr_eq, _⟩ := inv.owned allocation (sub.subset member)
    have block_kept := still allocation member block block_mem allocated ptr_eq
    obtain ⟨block_mem', payload⟩ := keeps block block_kept allocated
    simp only [ptr_eq] at lower upper
    rw [payloadEnd_eq ⟨heap', live', written'⟩ heap_inv block_mem'] at upper
    rw [payload addr lower upper]
    refine inv.contents allocation (sub.subset member) addr byte (ptr_eq ▸ lower) ?_
      (written_le addr byte stored)
    rw [ptr_eq, payloadEnd_eq _ inv.heap block_mem]
    exact upper

theorem initial_inv {heap : Kheap} (inv : KheapInv heap blocks free)
    (all_free : ∀ block ∈ blocks, block.free = true) : (initial heap).Inv blocks free := by
  refine ⟨inv, List.Pairwise.nil, by simp [initial], ?_, by simp [initial]⟩
  intro block member allocated
  simp [all_free block member] at allocated

/-- A new allocation owns the block that `kmalloc` takes, and the others keep theirs. -/
theorem Inv.of_kmalloc (inv : run.Inv blocks free) {size ptr : ℕ} {heap' : Kheap}
    (fits : KmallocFits size) (call : kmalloc run.heap size = some (ptr, heap'))
    (valid : kerrPtrIsErr ptr = false) :
    ∃ blocks' free', Inv
      { heap := heap'
        live := ⟨ptr, size⟩ :: run.live
        written := fun addr =>
          if ptr ≤ addr ∧ addr < payloadEnd { run with heap := heap' } ptr then none
          else run.written addr } blocks' free' := by
  rcases kmalloc_cases inv.heap fits with
    ⟨error, failed⟩ | ⟨mem', blocks', free', taken, result, heap_inv, keeps, taken_mem,
      allocated, large, _, fresh, only⟩
  · rw [failed, Option.some.injEq, Prod.mk.injEq] at call
    rw [← call.1, kerrPtrIsErr_kerrPtr] at valid
    contradiction
  · rw [result, Option.some.injEq, Prod.mk.injEq] at call
    obtain ⟨rfl, rfl⟩ := call
    have covered (block : KheapBlock) (member : block ∈ blocks')
        (allocated : block.free = false) :
        ∃ allocation ∈ (⟨taken.addr + 16, size⟩ : KheapAllocation) :: run.live,
          allocation.ptr = block.addr + 16 := by
      rcases only block member allocated with rfl | old
      · exact ⟨_, List.mem_cons_self, rfl⟩
      · obtain ⟨owner, live, ptr_eq⟩ := inv.covered block old allocated
        exact ⟨owner, List.mem_cons_of_mem _ live, ptr_eq⟩
    have older := owned_of_keeps inv heap_inv keeps (List.Sublist.refl _)
      (fun _ _ block member _ _ => member)
      fun addr byte (stored : (if taken.addr + 16 ≤ addr ∧
          addr < payloadEnd { run with heap := { run.heap with mem := mem' } }
            (taken.addr + 16) then none else run.written addr) = some byte) => by
        split at stored
        · contradiction
        · exact stored
    refine ⟨blocks', free', heap_inv, ?_, ?_, covered, ?_⟩
    · refine List.pairwise_cons.mpr ⟨?_, inv.distinct⟩
      intro other member
      obtain ⟨block, block_mem, block_allocated, ptr_eq, _⟩ := inv.owned other member
      have := fresh block block_mem block_allocated
      simp only
      omega
    · intro allocation member
      rcases List.mem_cons.mp member with rfl | member
      · exact ⟨taken, taken_mem, allocated, rfl, large⟩
      · exact older.1 allocation member
    · intro allocation member addr byte lower upper stored
      rcases List.mem_cons.mp member with rfl | member
      · simp only at stored lower upper
        rw [if_pos ⟨lower, upper⟩] at stored
        contradiction
      · exact older.2 allocation member addr byte lower upper stored

/-- A request that fails leaves the heap as it is. -/
theorem Inv.of_kmallocError (inv : run.Inv blocks free) {size ptr : ℕ} {heap' : Kheap}
    (fits : KmallocFits size) (call : kmalloc run.heap size = some (ptr, heap'))
    (invalid : kerrPtrIsErr ptr = true) :
    ∃ blocks' free', Inv { run with heap := heap' } blocks' free' := by
  rcases kmalloc_cases inv.heap fits with
    ⟨error, failed⟩ | ⟨mem', blocks', free', taken, result, heap_inv, _, taken_mem, _⟩
  · rw [failed, Option.some.injEq, Prod.mk.injEq] at call
    obtain ⟨-, rfl⟩ := call
    exact ⟨blocks, free, inv⟩
  · rw [result, Option.some.injEq, Prod.mk.injEq] at call
    have bounds := heap_inv.tags.tiles.bounds taken_mem
    have taken_ge := (heap_inv.tags.tagged taken taken_mem).size_ge
    have stop_le := heap_inv.stop_le
    rw [← call.1, kerrPtrIsErr, decide_eq_true_iff] at invalid
    simp only at bounds stop_le
    omega

/-- A release gives up the block of one allocation. -/
theorem Inv.of_kfree (inv : run.Inv blocks free) {allocation : KheapAllocation} {heap' : Kheap}
    (live : allocation ∈ run.live) (call : kfree run.heap allocation.ptr = (.ok (), heap')) :
    ∃ blocks' free', Inv { run with heap := heap', live := run.live.erase allocation } blocks'
      free' := by
  obtain ⟨block, block_mem, allocated, ptr_eq, _⟩ := inv.owned allocation live
  rw [ptr_eq] at call
  rcases kfree_cases inv.heap block_mem allocated with rejected | released
  · simp [rejected] at call
  · rw [released, Prod.mk.injEq] at call
    obtain ⟨-, rfl⟩ := call
    obtain ⟨before, after, rfl⟩ := List.append_of_mem block_mem
    obtain ⟨blocks', free', heap_inv, keeps, only⟩ := kfreeBlock_inv inv.heap allocated
    have nodup : run.live.Nodup := inv.distinct.imp fun differ same => differ (by rw [same])
    have : Std.Symm fun left right : KheapAllocation => left.ptr ≠ right.ptr :=
      ⟨fun _ _ differ => differ.symm⟩
    obtain ⟨owned, contents⟩ := owned_of_keeps inv heap_inv keeps List.erase_sublist
      (fun other member owner owner_mem _ owner_eq => by
        obtain ⟨other_ne, other_mem⟩ := nodup.mem_erase_iff.mp member
        have differ := inv.distinct.forall other_mem live other_ne
        simp only [List.mem_append, List.mem_cons] at owner_mem ⊢
        rcases owner_mem with owner_mem | rfl | owner_mem
        · exact Or.inl owner_mem
        · exact absurd (owner_eq.trans ptr_eq.symm) differ
        · exact Or.inr owner_mem)
      fun _ _ stored => stored
    refine ⟨blocks', free', heap_inv, inv.distinct.sublist List.erase_sublist, owned, ?_,
      contents⟩
    intro other other_mem unfreed
    have kept := only other other_mem unfreed
    have apart := inv.heap.tags.apart kept
    have other_ge := (heap_inv.tags.tagged other other_mem).size_ge
    have block_ge := (inv.heap.tags.tagged block block_mem).size_ge
    have old : other ∈ before ++ block :: after :=
      List.perm_middle.mem_iff.mpr (List.mem_cons_of_mem _ kept)
    obtain ⟨owner, owner_live, owner_eq⟩ := inv.covered other old unfreed
    refine ⟨owner, nodup.mem_erase_iff.mpr ⟨?_, owner_live⟩, owner_eq⟩
    rintro rfl
    omega

/-- A store into a payload changes the contents of this allocation only. -/
theorem Inv.of_store (inv : run.Inv blocks free) {allocation : KheapAllocation} {addr : ℕ}
    (byte : UInt8) (live : allocation ∈ run.live) (lower : allocation.ptr ≤ addr)
    (upper : addr < run.payloadEnd allocation.ptr) :
    ∃ blocks' free', Inv
      { run with
        heap := { run.heap with mem := run.heap.mem.write8 addr byte }
        written := Function.update run.written addr (some byte) } blocks' free' := by
  obtain ⟨block, block_mem, allocated, ptr_eq, _⟩ := inv.owned allocation live
  rw [ptr_eq] at lower upper
  rw [payloadEnd_eq _ inv.heap block_mem] at upper
  have heap_inv : KheapInv { run.heap with mem := run.heap.mem.write8 addr byte } blocks free :=
    inv.heap.store block_mem lower upper
  refine ⟨blocks, free, heap_inv, inv.distinct, inv.owned, inv.covered, ?_⟩
  intro other member target target_byte target_lower target_upper stored
  obtain ⟨owner, owner_mem, _, owner_eq, _⟩ := inv.owned other member
  by_cases same : target = addr
  · subst same
    simp only [Function.update_self, Option.some.injEq] at stored
    simp [ByteMemory.write8, stored]
  · simp only [Function.update_of_ne same] at stored
    simp only [ByteMemory.write8, Function.update_of_ne same]
    refine inv.contents other member target target_byte target_lower ?_ stored
    simp only [owner_eq] at target_upper ⊢
    rw [payloadEnd_eq _ inv.heap owner_mem]
    rwa [payloadEnd_eq _ heap_inv owner_mem] at target_upper

/-- Every step of a run keeps the invariant. -/
theorem Inv.step (inv : run.Inv blocks free) (step : KheapStep run run') :
    ∃ blocks' free', run'.Inv blocks' free' := by
  cases step with
  | kmalloc fits call valid => exact inv.of_kmalloc fits call valid
  | kmallocError fits call invalid => exact inv.of_kmallocError fits call invalid
  | kfree live call => exact inv.of_kfree live call
  | @kfreeError allocation error heap' live call =>
      obtain ⟨block, block_mem, allocated, ptr_eq, _⟩ := inv.owned allocation live
      rw [ptr_eq] at call
      rcases kfree_cases inv.heap block_mem allocated with rejected | released
      · rw [rejected, Prod.mk.injEq] at call
        obtain ⟨-, rfl⟩ := call
        exact ⟨blocks, free, inv⟩
      · simp [released] at call
  | store live lower upper => exact inv.of_store _ live lower upper

/-- The invariant holds along every run. -/
theorem Inv.steps (inv : run.Inv blocks free)
    (steps : Relation.ReflTransGen KheapStep run run') :
    ∃ blocks' free', run'.Inv blocks' free' := by
  induction steps with
  | refl => exact ⟨blocks, free, inv⟩
  | tail _ step induction =>
      obtain ⟨blocks', free', inv'⟩ := induction
      exact inv'.step step

/-- Payloads of distinct live allocations do not overlap. -/
theorem Inv.payloads_disjoint (inv : run.Inv blocks free) :
    run.live.Pairwise fun left right =>
      run.payloadEnd left.ptr ≤ right.ptr ∨ run.payloadEnd right.ptr ≤ left.ptr := by
  refine List.Pairwise.imp_of_mem ?_ inv.distinct
  intro left right left_mem right_mem differ
  obtain ⟨first, first_mem, _, first_eq, _⟩ := inv.owned left left_mem
  obtain ⟨second, second_mem, _, second_eq, _⟩ := inv.owned right right_mem
  rw [first_eq, second_eq] at differ ⊢
  rw [payloadEnd_eq _ inv.heap first_mem, payloadEnd_eq _ inv.heap second_mem]
  rcases inv.heap.tags.tiles.eq_or_disjoint first_mem second_mem with rfl | disjoint
  · exact absurd rfl differ
  · omega

end KheapRun

/-- In every state of every run that starts from `kheap_init`, the dump walk tiles the heap with
well-formed blocks, free blocks are not adjacent and are exactly the nodes of the circular free
list, live payloads are disjoint, aligned, large enough and intact, and `kmalloc` returns. -/
theorem kheap_wellFormed_of_run {mem : ByteMemory} {freeList : ℕ} {pmm pmm' : Pmm} {heap : Kheap}
    {run : KheapRun} (reserved : ReservedData pmm freeList 8)
    (init : kheapInit mem freeList pmm = (.ok heap, pmm'))
    (steps : Relation.ReflTransGen KheapStep (KheapRun.initial heap) run) :
    ∃ blocks, kheapWalk run.heap (2 ^ 32) run.heap.start = some (blocks, run.heap.stop) ∧
      (∀ block ∈ blocks, kheapMinBlockSize ≤ block.size ∧ block.size % 4 = 0 ∧
        run.heap.mem.read32 block.addr = block.size ∧
        run.heap.mem.read32 (block.addr + block.size - 4) = block.size) ∧
      blocks.IsChain Separated ∧
      (∃ free, wordNodes.Cycle run.heap.mem run.heap.freeList free ∧ free.Nodup ∧
        ∀ node, node ∈ free ↔ ∃ block ∈ blocks, block.free = true ∧ node = block.addr + 8) ∧
      (run.live.Pairwise fun left right =>
        run.payloadEnd left.ptr ≤ right.ptr ∨ run.payloadEnd right.ptr ≤ left.ptr) ∧
      (∀ allocation ∈ run.live, allocation.ptr % 4 = 0 ∧ run.heap.start ≤ allocation.ptr ∧
        allocation.ptr + allocation.size ≤ run.payloadEnd allocation.ptr ∧
        run.payloadEnd allocation.ptr ≤ run.heap.stop ∧
        ∀ addr byte, allocation.ptr ≤ addr → addr < run.payloadEnd allocation.ptr →
          run.written addr = some byte → run.heap.mem addr = byte) ∧
      ∀ size, KmallocFits size → (kmalloc run.heap size).isSome := by
  obtain ⟨blocks, free, inv⟩ :=
    (KheapRun.initial_inv (kheapInit_inv init reserved) (by simp)).steps steps
  have stop_le := inv.heap.stop_le
  have length_le := inv.heap.tags.tiles.length_le fun block member =>
    (inv.heap.tags.tagged block member).size_ge
  refine ⟨blocks, kheapWalk_eq inv.heap.tags (by omega) (by omega), ?_, inv.heap.separated,
    ⟨free, inv.heap.cycle, (List.nodup_cons.mp inv.heap.cycle.nodup).2, ?_⟩,
    inv.payloads_disjoint, ?_, ?_⟩
  · intro block member
    have tagged := inv.heap.tags.tagged block member
    exact ⟨tagged.size_ge, tagged.size_mod, tagged.header, tagged.footer⟩
  · intro node
    rw [inv.heap.nodes.mem_iff, mem_freeNodes]
  · intro allocation member
    obtain ⟨block, block_mem, _, ptr_eq, large⟩ := inv.owned allocation member
    have addr_mod := inv.heap.tags.addr_mod inv.heap.start_mod block_mem
    have bounds := inv.heap.tags.tiles.bounds block_mem
    have end_eq : run.payloadEnd allocation.ptr = block.addr + block.size - 4 := by
      rw [ptr_eq, KheapRun.payloadEnd_eq _ inv.heap block_mem]
    exact ⟨by omega, by omega, by omega, by omega, inv.contents allocation member⟩
  · intro size fits
    rcases kmalloc_cases inv.heap fits with ⟨error, failed⟩ | ⟨_, _, _, _, result, _⟩
    · rw [failed]
      rfl
    · rw [result]
      rfl

/-- A PMM with 4 MiB of memory whose first MiB is reserved. -/
def smallPmm : Pmm where
  bm := { data := fun word => if word < 8 then 0xFFFFFFFF else 0, nbits := 1024 }
  maxAddr := 0x400000
  totalFrames := 1024
  freeFrames := 768

theorem smallPmm_alloc :
    pmmAllocLowmem smallPmm 256 = (.ok 0x100000, pmmMark smallPmm 256 256) := by
  have search : pmmSearch smallPmm 0 kernelLowmemLimit 256 = some 256 := by decide +kernel
  rw [pmmAllocLowmem, pmmAlloc, if_neg (by decide), search]
  rfl

theorem smallPmm_reserved : ReservedData smallPmm 0xC0008000 8 := by
  refine ⟨by decide, by decide, ?_⟩
  intro byte lower upper _
  have frame : (byte - kernelVirtOffset) / 4096 = 8 := by
    unfold kernelVirtOffset
    omega
  rw [frame]
  decide

/-- The heap that `kheap_init` builds over the small PMM. -/
theorem smallPmm_kheapInit : ∃ heap, kheapInit (fun _ => 0) 0xC0008000 smallPmm =
    (.ok heap, pmmMark smallPmm 256 256) := by
  rw [kheapInit, smallPmm_alloc]
  exact ⟨_, rfl⟩

/-- A first request of 8 bytes takes the start of this heap. -/
theorem smallPmm_kmalloc :
    ∃ heap run, kheapInit (fun _ => 0) 0xC0008000 smallPmm =
        (.ok heap, pmmMark smallPmm 256 256) ∧
      KheapStep (.initial heap) run ∧ run.live = [⟨0xC0100010, 8⟩] ∧
      run.heap.mem.read32 0xC0100000 = 28 := by
  obtain ⟨heap, init⟩ := smallPmm_kheapInit
  have returned : (kheapInit (fun _ => 0) 0xC0008000 smallPmm).1.toOption.bind
      (fun heap => (kmalloc heap 8).map fun result =>
        (result.1, result.2.mem.read32 0xC0100000)) = some (0xC0100010, 28) := by
    decide +kernel
  simp only [init, Except.toOption, Option.bind_some, Option.map_eq_some_iff,
    Prod.mk.injEq] at returned
  obtain ⟨⟨ptr, heap'⟩, call, rfl, header⟩ := returned
  exact ⟨heap, _, init, .kmalloc (by unfold KmallocFits; decide) call (by decide), rfl, header⟩

/-- One allocation and one store on a freshly initialised heap. -/
theorem kheap_wellFormed_of_run_store :
    ∃ heap run, kheapInit (fun _ => 0) 0xC0008000 smallPmm =
        (.ok heap, pmmMark smallPmm 256 256) ∧
      Relation.ReflTransGen KheapStep (KheapRun.initial heap) run ∧
      run.live = [⟨0xC0100010, 8⟩] ∧ run.heap.mem 0xC0100010 = 7 ∧
      ∃ blocks, kheapWalk run.heap (2 ^ 32) run.heap.start = some (blocks, run.heap.stop) := by
  obtain ⟨heap, middle, init, allocated, live, header⟩ := smallPmm_kmalloc
  have upper : 0xC0100010 < middle.payloadEnd 0xC0100010 := by
    simp only [KheapRun.payloadEnd, kheapHeaderSize, kheapFooterSize]
    rw [header]
    decide
  have live_mem : (⟨0xC0100010, 8⟩ : KheapAllocation) ∈ middle.live := by simp [live]
  have stored : KheapStep middle
      { middle with
        heap := { middle.heap with mem := middle.heap.mem.write8 0xC0100010 7 }
        written := Function.update middle.written 0xC0100010 (some 7) } :=
    .store live_mem (Nat.le_refl _) upper
  have steps := (Relation.ReflTransGen.single allocated).tail stored
  obtain ⟨blocks, walk, _⟩ := kheap_wellFormed_of_run smallPmm_reserved init steps
  exact ⟨heap, _, init, steps, live, by simp [ByteMemory.write8], blocks, walk⟩

end ItWorksOS
