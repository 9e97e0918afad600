import ItWorksOS.Mm.KheapBlocks

/-!
# Heap representation invariant

The invariant ties three views of one memory: the boundary tags that tile the heap, the rule that
free blocks are never adjacent, and the circular free list through the headers of exactly the free
blocks. Each of `kheap_init`, `kmalloc` and `kfree` establishes or keeps it.
-/

namespace ItWorksOS

/-- List nodes embedded in the headers of the free blocks. -/
def freeNodes (blocks : List KheapBlock) : List ℕ :=
  (blocks.filter (·.free)).map (·.addr + 8)

@[simp] theorem freeNodes_append (left right : List KheapBlock) :
    freeNodes (left ++ right) = freeNodes left ++ freeNodes right := by
  simp [freeNodes]

theorem freeNodes_cons_free {block : KheapBlock} (free : block.free = true)
    (blocks : List KheapBlock) :
    freeNodes (block :: blocks) = (block.addr + 8) :: freeNodes blocks := by
  simp [freeNodes, free]

theorem freeNodes_cons_allocated {block : KheapBlock} (allocated : block.free = false)
    (blocks : List KheapBlock) : freeNodes (block :: blocks) = freeNodes blocks := by
  simp [freeNodes, allocated]

theorem mem_freeNodes {node : ℕ} {blocks : List KheapBlock} :
    node ∈ freeNodes blocks ↔ ∃ block ∈ blocks, block.free = true ∧ node = block.addr + 8 := by
  simp only [freeNodes, List.mem_map, List.mem_filter]
  constructor
  · rintro ⟨block, ⟨member, free⟩, rfl⟩
    exact ⟨block, member, free, rfl⟩
  · rintro ⟨block, member, free, rfl⟩
    exact ⟨block, ⟨member, free⟩, rfl⟩

/-- Not both blocks are free. -/
def Separated (left right : KheapBlock) : Prop := ¬ (left.free = true ∧ right.free = true)

/-- Representation invariant of the kernel heap. -/
structure KheapInv (heap : Kheap) (blocks : List KheapBlock) (free : List ℕ) : Prop where
  start_mod : heap.start % 4 = 0
  stop_le : heap.stop ≤ 0xF0000000
  sentinel : heap.freeList + 8 ≤ heap.start ∨ heap.stop ≤ heap.freeList
  tags : Tagged heap.mem heap.start blocks heap.stop
  separated : blocks.IsChain Separated
  cycle : wordNodes.Cycle heap.mem heap.freeList free
  nodes : free.Perm (freeNodes blocks)

namespace Tagged

variable {mem : ByteMemory} {start stop sentinel : ℕ} {blocks before after : List KheapBlock}
  {block other : KheapBlock}

/-- Blocks on either side of a block do not overlap it. -/
theorem apart (tags : Tagged mem start (before ++ block :: after) stop)
    (member : other ∈ before ++ after) :
    other.addr + other.size ≤ block.addr ∨ block.addr + block.size ≤ other.addr := by
  have tiles := tags.tiles
  rw [tiles_append] at tiles
  obtain ⟨middle, before_tiles, block_addr, after_tiles⟩ := tiles
  rcases List.mem_append.mp member with member | member
  · have := before_tiles.bounds member
    omega
  · have := after_tiles.bounds member
    omega

/-- A node is in the header of a block or outside of the block. -/
theorem node_cases (tags : Tagged mem start blocks stop)
    (sentinel_outside : sentinel + 8 ≤ start ∨ stop ≤ sentinel) {node : ℕ}
    (origin : node = sentinel ∨ ∃ owner ∈ blocks, node = owner.addr + 8) (member : block ∈ blocks) :
    node + 8 ≤ block.addr ∨ node = block.addr + 8 ∨ block.addr + block.size ≤ node := by
  have bounds := tags.tiles.bounds member
  rcases origin with rfl | ⟨owner, owner_mem, rfl⟩
  · omega
  · have owner_ge := (tags.tagged owner owner_mem).size_ge
    rcases tags.tiles.eq_or_disjoint owner_mem member with rfl | disjoint
    · exact .inr (.inl rfl)
    · omega

/-- The sentinel and the nodes inside block headers avoid all boundary tags. -/
theorem node_avoids (tags : Tagged mem start blocks stop)
    (sentinel_outside : sentinel + 8 ≤ start ∨ stop ≤ sentinel) {node : ℕ}
    (origin : node = sentinel ∨ ∃ owner ∈ blocks, node = owner.addr + 8) (member : block ∈ blocks) :
    (node + 8 ≤ block.addr ∨ block.addr + 8 ≤ node) ∧
      (node + 8 ≤ block.addr + block.size - 4 ∨ block.addr + block.size ≤ node) := by
  have size_ge := (tags.tagged block member).size_ge
  have cases := tags.node_cases sentinel_outside origin member
  omega

/-- The sentinel and the nodes inside block headers avoid all payloads. -/
theorem node_avoids_payload (tags : Tagged mem start blocks stop)
    (sentinel_outside : sentinel + 8 ≤ start ∨ stop ≤ sentinel) {node addr : ℕ}
    (origin : node = sentinel ∨ ∃ owner ∈ blocks, node = owner.addr + 8) (member : block ∈ blocks)
    (lower : block.addr + 16 ≤ addr) (upper : addr < block.addr + block.size - 4) :
    addr < node ∨ node + 8 ≤ addr := by
  have cases := tags.node_cases sentinel_outside origin member
  omega

end Tagged

namespace KheapInv

variable {heap : Kheap} {blocks : List KheapBlock} {free : List ℕ}

theorem origin (inv : KheapInv heap blocks free) {node : ℕ}
    (member : node ∈ heap.freeList :: free) :
    node = heap.freeList ∨ ∃ owner ∈ blocks, node = owner.addr + 8 := by
  rcases List.mem_cons.mp member with rfl | member
  · exact Or.inl rfl
  · obtain ⟨block, block_mem, _, rfl⟩ := mem_freeNodes.mp (inv.nodes.mem_iff.mp member)
    exact Or.inr ⟨block, block_mem, rfl⟩

theorem length_lt (inv : KheapInv heap blocks free) : free.length < 2 ^ 32 := by
  have blocks_le := inv.tags.tiles.length_le fun block member =>
    (inv.tags.tagged block member).size_ge
  have nodes_le : free.length ≤ blocks.length := by
    rw [inv.nodes.length_eq, freeNodes, List.length_map]
    exact List.length_filter_le _ _
  have := inv.stop_le
  omega

end KheapInv

theorem separated_iff {before after : List KheapBlock} {block : KheapBlock} :
    (before ++ block :: after).IsChain Separated ↔
      before.IsChain Separated ∧ after.IsChain Separated ∧
        (∀ left ∈ before.getLast?, Separated left block) ∧
        (∀ right ∈ after.head?, Separated block right) := by
  rw [List.isChain_append, List.isChain_cons]
  simp only [List.head?_cons, Option.mem_def, Option.some.injEq, forall_eq']
  tauto

/-! ## First fit -/

/-- On a cycle, the first-fit loop is a search of the free list. -/
theorem kmallocFind_eq {mem : ByteMemory} {head blockSize fuel first : ℕ} {nodes rest : List ℕ}
    (chain : (nodes ++ [head]).IsChain (wordNodes.Link mem)) (head_fresh : head ∉ nodes)
    (shape : nodes ++ [head] = first :: rest) (enough : nodes.length < fuel) :
    kmallocFind mem head blockSize fuel first =
      some ((nodes.find? fun node => blockSize ≤ mem.read32 (node - 8)).map (· - 8)) := by
  induction nodes generalizing fuel first rest with
  | nil =>
      obtain ⟨fuel, rfl⟩ := Nat.exists_eq_succ_of_ne_zero (Nat.ne_of_gt enough)
      simp only [List.nil_append, List.cons.injEq] at shape
      rw [kmallocFind, if_pos shape.1.symm]
      rfl
  | cons node nodes induction =>
      obtain ⟨fuel, rfl⟩ :=
        Nat.exists_eq_succ_of_ne_zero (Nat.ne_of_gt (Nat.zero_lt_of_lt enough))
      simp only [List.cons_append, List.cons.injEq] at shape
      obtain ⟨rfl, rfl⟩ := shape
      simp only [List.mem_cons, not_or] at head_fresh
      rw [kmallocFind, if_neg (Ne.symm head_fresh.1)]
      by_cases large : blockSize ≤ mem.read32 (node - 8)
      · rw [if_pos large, List.find?_cons_of_pos (by simpa using large)]
        rfl
      · rw [if_neg large, List.find?_cons_of_neg (by simpa using large)]
        obtain ⟨second, tail, second_eq⟩ : ∃ second tail, nodes ++ [head] = second :: tail := by
          cases nodes with
          | nil => exact ⟨head, [], rfl⟩
          | cons second tail => exact ⟨second, tail ++ [head], rfl⟩
        rw [List.cons_append, second_eq, List.isChain_cons_cons] at chain
        have next_eq : mem.read32 node = second := chain.1.1
        rw [next_eq]
        exact induction (second_eq ▸ chain.2) head_fresh.2 second_eq
          (by simp only [List.length_cons] at enough; omega)

/-- The first-fit loop of `kmalloc` searches the free list. -/
theorem KheapInv.kmallocFind_eq {heap : Kheap} {blocks : List KheapBlock} {free : List ℕ}
    (inv : KheapInv heap blocks free) (blockSize : ℕ) :
    kmallocFind heap.mem heap.freeList blockSize (2 ^ 32) (heap.mem.read32 heap.freeList) =
      some ((free.find? fun node => blockSize ≤ heap.mem.read32 (node - 8)).map (· - 8)) := by
  obtain ⟨first, rest, shape⟩ : ∃ first rest, free ++ [heap.freeList] = first :: rest := by
    cases free with
    | nil => exact ⟨heap.freeList, [], rfl⟩
    | cons first rest => exact ⟨first, rest ++ [heap.freeList], rfl⟩
  have chain := inv.cycle.chain
  rw [shape, List.isChain_cons_cons] at chain
  have first_eq : heap.mem.read32 heap.freeList = first := chain.1.1
  rw [first_eq]
  exact ItWorksOS.kmallocFind_eq (shape ▸ chain.2) (List.nodup_cons.mp inv.cycle.nodup).1 shape
    inv.length_lt

/-- The requested size does not wrap once rounded and framed by the boundary tags. -/
def KmallocFits (size : ℕ) : Prop := (size + 3) / 4 * 4 + 20 < 2 ^ 32

theorem kmallocBlockSize_eq {size : ℕ} (fits : KmallocFits size) :
    kmallocBlockSize size = (size + 3) / 4 * 4 + 20 := by
  unfold KmallocFits at fits
  unfold kmallocBlockSize kheapHeaderSize kheapFooterSize alignUp alignDown
  omega

/-! ## Allocation -/

/-- Effect of an operation on the allocated blocks that it does not concern: they stay in place
with their payload bytes. -/
def KeepsAllocated (heap heap' : Kheap) (kept blocks' : List KheapBlock) : Prop :=
  ∀ block ∈ kept, block.free = false → block ∈ blocks' ∧
    ∀ addr, block.addr + 16 ≤ addr → addr < block.addr + block.size - 4 →
      heap'.mem addr = heap.mem addr

section Take

variable {heap : Kheap} {before after : List KheapBlock} {block : KheapBlock} {free : List ℕ}

private theorem exists_free_split (inv : KheapInv heap (before ++ block :: after) free)
    (block_free : block.free = true) :
    ∃ front back, free = front ++ (block.addr + 8) :: back ∧
      (front ++ back).Perm (freeNodes before ++ freeNodes after) := by
  have nodes := inv.nodes
  rw [freeNodes_append, freeNodes_cons_free block_free] at nodes
  have member : block.addr + 8 ∈ free := nodes.mem_iff.mpr (by simp)
  obtain ⟨front, back, rfl⟩ := List.append_of_mem member
  refine ⟨front, back, rfl, ?_⟩
  exact (List.perm_middle.symm.trans (nodes.trans List.perm_middle)).cons_inv

/-- Taking a whole free block keeps the invariant. -/
private theorem take_whole (inv : KheapInv heap (before ++ block :: after) free)
    (block_free : block.free = true) :
    ∃ free', KheapInv
        { heap with
          mem := kheapSetAlloc (listRemove wordNodes 0 heap.mem (block.addr + 8)) block.addr }
        (before ++ { block with free := false } :: after) free' ∧
      KeepsAllocated heap
        { heap with
          mem := kheapSetAlloc (listRemove wordNodes 0 heap.mem (block.addr + 8)) block.addr }
        (before ++ after) (before ++ { block with free := false } :: after) := by
  obtain ⟨front, back, rfl, rest_nodes⟩ := exists_free_split inv block_free
  have rewrites : wordNodes.Rewrites _ heap.mem
      (listRemove wordNodes 0 heap.mem (block.addr + 8)) := listRemove_rewrites inv.cycle
  have removed : wordNodes.Cycle (listRemove wordNodes 0 heap.mem (block.addr + 8))
      heap.freeList (front ++ back) := listRemove_cycle inv.cycle
  have tags := inv.tags.rewrites rewrites fun node touched other member =>
    inv.tags.node_avoids inv.sentinel (inv.origin touched) member
  have kept (node : ℕ) (member : node ∈ heap.freeList :: (front ++ back)) :
      node + 8 ≤ block.addr ∨ block.addr + 8 ≤ node := by
    have member' : node ∈ heap.freeList :: (front ++ (block.addr + 8) :: back) := by
      simp only [List.mem_cons, List.mem_append] at member ⊢
      tauto
    exact (inv.tags.node_avoids inv.sentinel (inv.origin member') (by simp)).1
  refine ⟨front ++ back, ⟨inv.start_mod, inv.stop_le, inv.sentinel, tags.setAlloc, ?_, ?_, ?_⟩, ?_⟩
  · obtain ⟨before_chain, after_chain, left_sep, right_sep⟩ := separated_iff.mp inv.separated
    refine separated_iff.mpr ⟨before_chain, after_chain, ?_, ?_⟩ <;> simp [Separated]
  · apply removed.congr
    · intro node member
      have := kept node member
      exact ByteMemory.read32_congr fun addr lower upper =>
        kheapSetAlloc_of_outside (by omega)
    · intro node member
      have := kept node member
      exact ByteMemory.read32_congr fun addr lower upper =>
        kheapSetAlloc_of_outside (by omega)
  · rw [freeNodes_append, freeNodes_cons_allocated rfl]
    exact rest_nodes
  · intro other member _
    refine ⟨?_, ?_⟩
    · exact List.perm_middle.mem_iff.mpr (List.mem_cons_of_mem _ member)
    · intro addr lower upper
      have other_mem : other ∈ before ++ block :: after :=
        List.perm_middle.mem_iff.mpr (List.mem_cons_of_mem _ member)
      have apart := inv.tags.apart member
      have block_ge := (inv.tags.tagged block (by simp)).size_ge
      have unflagged : kheapSetAlloc (listRemove wordNodes 0 heap.mem (block.addr + 8))
          block.addr addr = listRemove wordNodes 0 heap.mem (block.addr + 8) addr :=
        kheapSetAlloc_of_outside (by omega)
      refine unflagged.trans (byte_eq_of_rewrites rewrites fun node touched => ?_)
      exact inv.tags.node_avoids_payload inv.sentinel (inv.origin touched) other_mem lower upper

/-- Splitting a free block and linking the remainder in its place keeps the invariant. -/
private theorem take_split {blockSize remaining : ℕ}
    (inv : KheapInv heap (before ++ block :: after) free) (block_free : block.free = true)
    (size_eq : block.size = blockSize + remaining) (size_ge : 24 ≤ blockSize)
    (remaining_ge : 24 ≤ remaining) (size_mod : blockSize % 4 = 0) :
    ∃ free', KheapInv
        { heap with
          mem := listReplace wordNodes 0 (kheapSplit heap.mem block.addr blockSize remaining)
            (block.addr + 8) (block.addr + blockSize + 8) }
        (before ++ ⟨block.addr, blockSize, false⟩ ::
          ⟨block.addr + blockSize, remaining, true⟩ :: after) free' ∧
      KeepsAllocated heap
        { heap with
          mem := listReplace wordNodes 0 (kheapSplit heap.mem block.addr blockSize remaining)
            (block.addr + 8) (block.addr + blockSize + 8) }
        (before ++ after) (before ++ ⟨block.addr, blockSize, false⟩ ::
          ⟨block.addr + blockSize, remaining, true⟩ :: after) := by
  obtain ⟨front, back, rfl, rest_nodes⟩ := exists_free_split inv block_free
  have stop_le := inv.stop_le
  have bounds := inv.tags.tiles.bounds (by simp : block ∈ _)
  have tags := inv.tags.split (by omega) size_eq size_ge remaining_ge size_mod
  have place (node : ℕ) (member : node ∈ heap.freeList :: (front ++ (block.addr + 8) :: back)) :
      node + 8 ≤ block.addr ∨ node = block.addr + 8 ∨ block.addr + block.size ≤ node :=
    inv.tags.node_cases inv.sentinel (inv.origin member) (by simp)
  have cycle : wordNodes.Cycle (kheapSplit heap.mem block.addr blockSize remaining)
      heap.freeList (front ++ (block.addr + 8) :: back) := by
    apply inv.cycle.congr
    · intro node member
      have := place node member
      exact ByteMemory.read32_congr fun addr lower upper =>
        Tagged.kheapSplit_of_outside size_ge remaining_ge (by omega) (by omega) (by omega)
    · intro node member
      have := place node member
      exact ByteMemory.read32_congr fun addr lower upper =>
        Tagged.kheapSplit_of_outside size_ge remaining_ge (by omega) (by omega) (by omega)
  have fresh (node : ℕ) (member : node ∈ heap.freeList :: (front ++ (block.addr + 8) :: back)) :
      wordNodes.Apart (block.addr + blockSize + 8) node := by
    have := place node member
    change block.addr + blockSize + 8 + 8 ≤ node ∨ node + 8 ≤ block.addr + blockSize + 8
    omega
  have rewrites : wordNodes.Rewrites _ (kheapSplit heap.mem block.addr blockSize remaining)
      (listReplace wordNodes 0 (kheapSplit heap.mem block.addr blockSize remaining)
        (block.addr + 8) (block.addr + blockSize + 8)) := listReplace_rewrites cycle fresh
  have origin (node : ℕ) (touched : node ∈ {other | other = block.addr + blockSize + 8 ∨
      other ∈ heap.freeList :: (front ++ (block.addr + 8) :: back)}) :
      node = heap.freeList ∨ ∃ owner ∈ before ++ ⟨block.addr, blockSize, false⟩ ::
        ⟨block.addr + blockSize, remaining, true⟩ :: after, node = owner.addr + 8 := by
    rcases touched with rfl | member
    · exact Or.inr ⟨⟨block.addr + blockSize, remaining, true⟩, by simp, rfl⟩
    · rcases inv.origin member with rfl | ⟨owner, owner_mem, rfl⟩
      · exact Or.inl rfl
      · right
        rcases List.mem_append.mp owner_mem with owner_mem | owner_mem
        · exact ⟨owner, by simp [owner_mem], rfl⟩
        · rcases List.mem_cons.mp owner_mem with rfl | owner_mem
          · exact ⟨⟨owner.addr, blockSize, false⟩, by simp, rfl⟩
          · exact ⟨owner, by simp [owner_mem], rfl⟩
  refine ⟨front ++ (block.addr + blockSize + 8) :: back,
    ⟨inv.start_mod, inv.stop_le, inv.sentinel, ?_, ?_, ?_, ?_⟩, ?_⟩
  · exact tags.rewrites rewrites fun node touched other member =>
      tags.node_avoids inv.sentinel (origin node touched) member
  · obtain ⟨before_chain, after_chain, left_sep, right_sep⟩ := separated_iff.mp inv.separated
    refine separated_iff.mpr ⟨before_chain, ?_, by simp [Separated], by simp [Separated]⟩
    refine List.isChain_cons.mpr ⟨?_, after_chain⟩
    intro right member
    simpa [Separated, block_free] using right_sep right member
  · exact listReplace_cycle cycle fresh (by change _ < _; omega)
  · rw [freeNodes_append, freeNodes_cons_allocated rfl, freeNodes_cons_free rfl]
    exact List.perm_middle.trans ((rest_nodes.cons _).trans List.perm_middle.symm)
  · intro other member _
    have other_mem : other ∈ before ++ ⟨block.addr, blockSize, false⟩ ::
        ⟨block.addr + blockSize, remaining, true⟩ :: after := by
      simp only [List.mem_append, List.mem_cons] at member ⊢
      tauto
    refine ⟨other_mem, ?_⟩
    intro addr lower upper
    have apart := inv.tags.apart member
    refine Eq.trans (byte_eq_of_rewrites rewrites fun node touched => ?_)
      (Tagged.kheapSplit_of_outside size_ge remaining_ge (by omega) (by omega) (by omega))
    exact tags.node_avoids_payload inv.sentinel (origin node touched) other_mem lower upper

end Take

/-- A request that does not wrap either fails and changes nothing, or returns the payload of a
block that is allocated afterwards, was not allocated before and is large enough. -/
theorem kmalloc_cases {heap : Kheap} {blocks : List KheapBlock} {free : List ℕ} {size : ℕ}
    (inv : KheapInv heap blocks free) (fits : KmallocFits size) :
    (∃ error, kmalloc heap size = some (kerrPtr error, heap)) ∨
      ∃ mem' blocks' free' taken,
        kmalloc heap size = some (taken.addr + 16, { heap with mem := mem' }) ∧
        KheapInv { heap with mem := mem' } blocks' free' ∧
        KeepsAllocated heap { heap with mem := mem' } blocks blocks' ∧
        taken ∈ blocks' ∧ taken.free = false ∧ size + 20 ≤ taken.size ∧ 0 < size ∧
        (∀ block ∈ blocks, block.free = false → block.addr ≠ taken.addr) ∧
        ∀ block ∈ blocks', block.free = false → block = taken ∨ block ∈ blocks := by
  by_cases zero : size = 0
  · exact Or.inl ⟨.inval, by rw [kmalloc, if_pos zero]⟩
  rw [kmalloc, if_neg zero, inv.kmallocFind_eq]
  cases search : free.find? fun node =>
      decide (kmallocBlockSize size ≤ heap.mem.read32 (node - 8)) with
  | none => exact Or.inl ⟨.nomem, rfl⟩
  | some node =>
      right
      have node_mem := List.mem_of_find?_eq_some search
      have large := List.find?_some search
      obtain ⟨block, block_mem, block_free, rfl⟩ :=
        mem_freeNodes.mp (inv.nodes.mem_iff.mp node_mem)
      obtain ⟨before, after, rfl⟩ := List.append_of_mem block_mem
      have block_tagged := inv.tags.tagged block block_mem
      have size_eq := kmallocBlockSize_eq fits
      simp only [Nat.add_sub_cancel, decide_eq_true_eq, block_tagged.header] at large
      have fresh (other : KheapBlock) (member : other ∈ before ++ block :: after)
          (allocated : other.free = false) : other ∈ before ++ after ∧ other.addr ≠ block.addr := by
        have rest_mem : other ∈ before ++ after := by
          simp only [List.mem_append, List.mem_cons] at member ⊢
          rcases member with member | rfl | member
          · exact Or.inl member
          · simp [block_free] at allocated
          · exact Or.inr member
        have apart := inv.tags.apart rest_mem
        have other_ge := (inv.tags.tagged other member).size_ge
        have block_ge := block_tagged.size_ge
        exact ⟨rest_mem, by omega⟩
      simp only [Option.map_some, Nat.add_sub_cancel, kmallocTake, block_tagged.header]
      by_cases splits : kheapMinBlockSize ≤ block.size - kmallocBlockSize size
      · unfold kheapMinBlockSize at splits
        have size_split : block.size =
            kmallocBlockSize size + (block.size - kmallocBlockSize size) := by omega
        obtain ⟨free', inv', keeps⟩ :=
          take_split inv block_free size_split (by omega) splits (by omega)
        simp only [if_pos splits]
        refine ⟨_, _, free', ⟨block.addr, kmallocBlockSize size, false⟩, rfl, inv', ?_, by simp,
          rfl, by simp only; omega, Nat.pos_of_ne_zero zero, ?_, ?_⟩
        · intro other member allocated
          exact keeps other (fresh other member allocated).1 allocated
        · intro other member allocated
          exact (fresh other member allocated).2
        · intro other member allocated
          simp only [List.mem_append, List.mem_cons] at member ⊢
          rcases member with member | rfl | rfl | member
          · exact Or.inr (Or.inl member)
          · exact Or.inl rfl
          · cases allocated
          · exact Or.inr (Or.inr (Or.inr member))
      · obtain ⟨free', inv', keeps⟩ := take_whole inv block_free
        simp only [if_neg splits]
        refine ⟨_, _, free', { block with free := false }, rfl, inv', ?_, by simp, rfl,
          by simp only; omega, Nat.pos_of_ne_zero zero, ?_, ?_⟩
        · intro other member allocated
          exact keeps other (fresh other member allocated).1 allocated
        · intro other member allocated
          exact (fresh other member allocated).2
        · intro other member allocated
          simp only [List.mem_append, List.mem_cons] at member ⊢
          tauto

/-! ## Stale headers -/

/-- The address is the header of the block, or room for a whole block separates it from both ends
of the block's payload, as for the headers of blocks that were coalesced into it. -/
def KheapBlock.Absorbs (block : KheapBlock) (hdr : ℕ) : Prop :=
  hdr = block.addr ∨ block.addr + 24 ≤ hdr ∧ hdr + 24 ≤ block.addr + block.size

/-- A header of a released block: its flags still read as free, wherever it lies in the free block
that absorbed it. -/
def Stale (mem : ByteMemory) (blocks : List KheapBlock) (hdr : ℕ) : Prop :=
  kheapAllocated mem hdr = false ∧ ∃ block ∈ blocks, block.free = true ∧ block.Absorbs hdr

namespace Stale

variable {mem mem' : ByteMemory} {start stop sentinel hdr : ℕ}
  {blocks before after : List KheapBlock} {block left right : KheapBlock}

/-- List nodes avoid the flags of stale headers. -/
private theorem flags_avoid (stale : Stale mem blocks hdr) (tags : Tagged mem start blocks stop)
    (sentinel_outside : sentinel + 8 ≤ start ∨ stop ≤ sentinel) {node : ℕ}
    (origin : node = sentinel ∨ ∃ owner ∈ blocks, node = owner.addr + 8) :
    node + 8 ≤ hdr + 4 ∨ hdr + 8 ≤ node := by
  obtain ⟨_, block, member, _, absorbs⟩ := stale
  have payload {addr : ℕ} (lower : block.addr + 16 ≤ addr)
      (upper : addr < block.addr + block.size - 4) : addr < node ∨ node + 8 ≤ addr :=
    tags.node_avoids_payload sentinel_outside origin member lower upper
  rcases absorbs with rfl | ⟨lower, upper⟩
  · have := (tags.node_avoids sentinel_outside origin member).1
    omega
  · have first : hdr + 4 < node ∨ node + 8 ≤ hdr + 4 := payload (by omega) (by omega)
    have last : hdr + 7 < node ∨ node + 8 ≤ hdr + 7 := payload (by omega) (by omega)
    omega

/-- Link rewrites keep stale headers. -/
private theorem rewrites {touched : Set ℕ} (stale : Stale mem blocks hdr)
    (tags : Tagged mem start blocks stop)
    (sentinel_outside : sentinel + 8 ≤ start ∨ stop ≤ sentinel)
    (rewrites : wordNodes.Rewrites touched mem mem')
    (origin : ∀ node ∈ touched, node = sentinel ∨ ∃ owner ∈ blocks, node = owner.addr + 8) :
    Stale mem' blocks hdr := by
  refine ⟨Eq.trans ?_ stale.1, stale.2⟩
  apply kheapAllocated_congr
  intro addr lower upper
  apply byte_eq_of_rewrites rewrites
  intro node touched
  have apart := stale.flags_avoid tags sentinel_outside (origin node touched)
  omega

/-- Merging two free blocks keeps stale headers, and the right header becomes one. -/
private theorem merge (stale : Stale mem (before ++ left :: right :: after) hdr)
    (tags : Tagged mem start (before ++ left :: right :: after) stop)
    (left_free : left.free = true) :
    Stale (kheapMerge mem left.addr right.addr)
      (before ++ { left with size := left.size + right.size } :: after) hdr := by
  have left_mem : left ∈ before ++ left :: right :: after := by simp
  have right_mem : right ∈ before ++ left :: right :: after := by simp
  have left_tagged := tags.tagged left left_mem
  have right_tagged := tags.tagged right right_mem
  have right_addr := tags.adjacent
  have left_ge := left_tagged.size_ge
  have right_ge := right_tagged.size_ge
  obtain ⟨clear, block, member, block_free, absorbs⟩ := stale
  have block_ge := (tags.tagged block member).size_ge
  have left_apart := tags.tiles.eq_or_disjoint member left_mem
  have right_apart := tags.tiles.eq_or_disjoint member right_mem
  refine ⟨Eq.trans ?_ clear, ?_⟩
  · apply kheapAllocated_congr
    intro addr lower upper
    apply Tagged.kheapMerge_of_outside left_tagged right_tagged right_addr
    · rcases left_apart with rfl | left_apart
      · unfold KheapBlock.Absorbs at absorbs
        omega
      · unfold KheapBlock.Absorbs at absorbs
        omega
    · rcases right_apart with rfl | right_apart
      · unfold KheapBlock.Absorbs at absorbs
        omega
      · unfold KheapBlock.Absorbs at absorbs
        omega
  · simp only [List.mem_append, List.mem_cons] at member
    rcases member with member | rfl | rfl | member
    · exact ⟨block, by simp [member], block_free, absorbs⟩
    · refine ⟨{ block with size := block.size + right.size }, by simp, block_free, ?_⟩
      unfold KheapBlock.Absorbs at absorbs ⊢
      simp only
      omega
    · refine ⟨{ left with size := left.size + block.size }, by simp, left_free, ?_⟩
      unfold KheapBlock.Absorbs at absorbs ⊢
      simp only
      omega
    · exact ⟨block, by simp [member], block_free, absorbs⟩

/-- Marking an allocated block as free keeps stale headers and makes its own header one. -/
private theorem clearAlloc (tags : Tagged mem start (before ++ block :: after) stop)
    (allocated : block.free = false)
    (stale : hdr = block.addr ∨ Stale mem (before ++ block :: after) hdr) :
    Stale (kheapClearAlloc mem block.addr) (before ++ { block with free := true } :: after)
      hdr := by
  rcases stale with rfl | ⟨clear, other, member, other_free, absorbs⟩
  · exact ⟨kheapAllocated_kheapClearAlloc _ _, { block with free := true }, by simp, rfl,
      Or.inl rfl⟩
  · have other_ge := (tags.tagged other member).size_ge
    have block_ge := (tags.tagged block (by simp)).size_ge
    have apart := (tags.tiles.eq_or_disjoint member (by simp : block ∈ _)).resolve_left
      (by rintro rfl; simp [allocated] at other_free)
    refine ⟨Eq.trans ?_ clear, other, ?_, other_free, absorbs⟩
    · apply kheapAllocated_congr
      intro addr lower upper
      apply kheapClearAlloc_of_outside
      unfold KheapBlock.Absorbs at absorbs
      omega
    · simp only [List.mem_append, List.mem_cons] at member ⊢
      rcases member with member | rfl | member
      · exact Or.inl member
      · simp [allocated] at other_free
      · exact Or.inr (Or.inr member)

/-- Stores into the payloads of allocated blocks keep stale headers. -/
theorem write8 {addr : ℕ} {byte : UInt8} (stale : Stale mem blocks hdr)
    (tags : Tagged mem start blocks stop) (member : block ∈ blocks)
    (allocated : block.free = false) (lower : block.addr + 16 ≤ addr)
    (upper : addr < block.addr + block.size - 4) : Stale (mem.write8 addr byte) blocks hdr := by
  obtain ⟨clear, other, other_mem, other_free, absorbs⟩ := stale
  have other_ge := (tags.tagged other other_mem).size_ge
  have apart := (tags.tiles.eq_or_disjoint other_mem member).resolve_left
    (by rintro rfl; simp [allocated] at other_free)
  refine ⟨Eq.trans ?_ clear, other, other_mem, other_free, absorbs⟩
  apply kheapAllocated_congr
  intro target target_lower target_upper
  unfold KheapBlock.Absorbs at absorbs
  exact Function.update_of_ne (by omega) _ _

/-- `kfree` of a stale header changes nothing. -/
theorem kfree_eq {heap : Kheap} (stale : Stale heap.mem blocks hdr) :
    kfree heap (hdr + 16) = (.error .inval, heap) := by
  have clear : kheapAllocated heap.mem (hdr + 16 - kheapHeaderSize) = false := stale.1
  rw [kfree, if_neg (by omega), clear]
  split_ifs with outside unaligned unset
  · rfl
  · rfl
  · rfl
  · simp at unset

end Stale

/-! ## Release -/

/-- A memory in the middle of `kfree`: tags and list are consistent, though a free block may be
unlinked or adjacent to another one. -/
private structure Stage (heap : Kheap) (kept : List KheapBlock) (freed : Set ℕ) (mem : ByteMemory)
    (blocks : List KheapBlock) (free : List ℕ) : Prop where
  tags : Tagged mem heap.start blocks heap.stop
  cycle : wordNodes.Cycle mem heap.freeList free
  owners : ∀ node ∈ free, ∃ owner ∈ blocks, node = owner.addr + 8
  keeps : KeepsAllocated heap { heap with mem := mem } kept blocks
  only : ∀ block ∈ blocks, block.free = false → block ∈ kept
  stale : ∀ hdr ∈ freed, Stale mem blocks hdr

namespace Stage

variable {heap : Kheap} {mem : ByteMemory} {kept blocks before after : List KheapBlock}
  {freed : Set ℕ} {block left right : KheapBlock} {free : List ℕ}

private theorem origin (stage : Stage heap kept freed mem blocks free) {node : ℕ}
    (member : node ∈ heap.freeList :: free) :
    node = heap.freeList ∨ ∃ owner ∈ blocks, node = owner.addr + 8 := by
  rcases List.mem_cons.mp member with rfl | member
  · exact Or.inl rfl
  · exact Or.inr (stage.owners node member)

/-- Link rewrites keep the tags and all payloads. -/
private theorem relink {mem' : ByteMemory} {free' : List ℕ} {touched : Set ℕ}
    (stage : Stage heap kept freed mem blocks free)
    (sentinel : heap.freeList + 8 ≤ heap.start ∨ heap.stop ≤ heap.freeList)
    (rewrites : wordNodes.Rewrites touched mem mem')
    (origin : ∀ node ∈ touched,
      node = heap.freeList ∨ ∃ owner ∈ blocks, node = owner.addr + 8)
    (cycle : wordNodes.Cycle mem' heap.freeList free')
    (owners : ∀ node ∈ free', ∃ owner ∈ blocks, node = owner.addr + 8) :
    Stage heap kept freed mem' blocks free' := by
  refine ⟨?_, cycle, owners, ?_, stage.only, ?_⟩
  · exact stage.tags.rewrites rewrites fun node touched other member =>
      stage.tags.node_avoids sentinel (origin node touched) member
  · intro other member allocated
    obtain ⟨other_mem, payload⟩ := stage.keeps other member allocated
    refine ⟨other_mem, ?_⟩
    intro addr lower upper
    refine Eq.trans (byte_eq_of_rewrites rewrites fun node touched => ?_)
      (payload addr lower upper)
    exact stage.tags.node_avoids_payload sentinel (origin node touched) other_mem lower upper
  · exact fun hdr member => (stage.stale hdr member).rewrites stage.tags sentinel rewrites origin

private theorem remove {node : ℕ} {front back : List ℕ}
    (stage : Stage heap kept freed mem blocks (front ++ node :: back))
    (sentinel : heap.freeList + 8 ≤ heap.start ∨ heap.stop ≤ heap.freeList) :
    Stage heap kept freed (listRemove wordNodes 0 mem node) blocks (front ++ back) := by
  refine stage.relink sentinel (listRemove_rewrites stage.cycle)
    (fun node touched => stage.origin touched) (listRemove_cycle stage.cycle) ?_
  intro other member
  apply stage.owners
  exact List.perm_middle.mem_iff.mpr (List.mem_cons_of_mem _ member)

private theorem insert (stage : Stage heap kept freed mem blocks free)
    (sentinel : heap.freeList + 8 ≤ heap.start ∨ heap.stop ≤ heap.freeList)
    (stop_lt : heap.stop < 2 ^ 32) (block_mem : block ∈ blocks)
    (unlinked : block.addr + 8 ∉ free) :
    Stage heap kept freed (listInsertFront wordNodes mem heap.freeList (block.addr + 8)) blocks
      ((block.addr + 8) :: free) := by
  have bounds := stage.tags.tiles.bounds block_mem
  have block_ge := (stage.tags.tagged block block_mem).size_ge
  have apart (node : ℕ) (member : node ∈ heap.freeList :: free) :
      wordNodes.Apart (block.addr + 8) node := by
    change block.addr + 8 + 8 ≤ node ∨ node + 8 ≤ block.addr + 8
    rcases List.mem_cons.mp member with rfl | member
    · omega
    · obtain ⟨owner, owner_mem, rfl⟩ := stage.owners node member
      have owner_ge := (stage.tags.tagged owner owner_mem).size_ge
      rcases stage.tags.tiles.eq_or_disjoint owner_mem block_mem with rfl | disjoint
      · exact absurd member unlinked
      · omega
  refine stage.relink sentinel (listInsertFront_rewrites stage.cycle apart) ?_
    (listInsertFront_cycle stage.cycle apart (by change _ < _; omega)) ?_
  · intro node touched
    rcases touched with rfl | member
    · exact Or.inr ⟨block, block_mem, rfl⟩
    · exact stage.origin member
  · intro node member
    rcases List.mem_cons.mp member with rfl | member
    · exact ⟨block, block_mem, rfl⟩
    · exact stage.owners node member

private theorem merge (stage : Stage heap kept freed mem (before ++ left :: right :: after) free)
    (sentinel : heap.freeList + 8 ≤ heap.start ∨ heap.stop ≤ heap.freeList)
    (stop_lt : heap.stop < 2 ^ 32) (left_free : left.free = true) (right_free : right.free = true)
    (unlinked : right.addr + 8 ∉ free) :
    Stage heap kept freed (kheapMerge mem left.addr right.addr)
      (before ++ { left with size := left.size + right.size } :: after) free := by
  have left_mem : left ∈ before ++ left :: right :: after := by simp
  have right_mem : right ∈ before ++ left :: right :: after := by simp
  have left_tagged := stage.tags.tagged left left_mem
  have right_tagged := stage.tags.tagged right right_mem
  have right_addr := stage.tags.adjacent
  have left_ge := left_tagged.size_ge
  have right_ge := right_tagged.size_ge
  have untouched {addr : ℕ} (head_outside : addr < left.addr ∨ left.addr + 4 ≤ addr)
      (foot_outside : addr < right.addr + right.size - 4 ∨ right.addr + right.size ≤ addr) :
      kheapMerge mem left.addr right.addr addr = mem addr :=
    Tagged.kheapMerge_of_outside left_tagged right_tagged right_addr head_outside foot_outside
  refine ⟨stage.tags.merge stop_lt, ?_, ?_, ?_, ?_, ?_⟩
  · apply stage.cycle.congr
    · intro node member
      have near_left := stage.tags.node_avoids sentinel (stage.origin member) left_mem
      have near_right := stage.tags.node_avoids sentinel (stage.origin member) right_mem
      exact ByteMemory.read32_congr fun addr lower upper => untouched (by omega) (by omega)
    · intro node member
      have near_left := stage.tags.node_avoids sentinel (stage.origin member) left_mem
      have near_right := stage.tags.node_avoids sentinel (stage.origin member) right_mem
      exact ByteMemory.read32_congr fun addr lower upper => untouched (by omega) (by omega)
  · intro node member
    obtain ⟨owner, owner_mem, rfl⟩ := stage.owners node member
    simp only [List.mem_append, List.mem_cons] at owner_mem
    rcases owner_mem with owner_mem | rfl | rfl | owner_mem
    · exact ⟨owner, by simp [owner_mem], rfl⟩
    · exact ⟨{ owner with size := owner.size + right.size }, by simp, rfl⟩
    · exact absurd member unlinked
    · exact ⟨owner, by simp [owner_mem], rfl⟩
  · intro other member allocated
    obtain ⟨other_mem, payload⟩ := stage.keeps other member allocated
    have other_ge := (stage.tags.tagged other other_mem).size_ge
    have left_apart := (stage.tags.tiles.eq_or_disjoint other_mem left_mem).resolve_left
      (by rintro rfl; simp [left_free] at allocated)
    have right_apart := (stage.tags.tiles.eq_or_disjoint other_mem right_mem).resolve_left
      (by rintro rfl; simp [right_free] at allocated)
    refine ⟨?_, ?_⟩
    · simp only [List.mem_append, List.mem_cons] at other_mem ⊢
      rcases other_mem with other_mem | rfl | rfl | other_mem
      · exact Or.inl other_mem
      · simp [left_free] at allocated
      · simp [right_free] at allocated
      · exact Or.inr (Or.inr other_mem)
    · intro addr lower upper
      exact (untouched (by omega) (by omega)).trans (payload addr lower upper)
  · intro other member allocated
    refine stage.only other ?_ allocated
    simp only [List.mem_append, List.mem_cons] at member ⊢
    rcases member with member | rfl | member
    · exact Or.inl member
    · simp [left_free] at allocated
    · exact Or.inr (Or.inr (Or.inr member))
  · exact fun hdr member => (stage.stale hdr member).merge stage.tags left_free

/-- Freeing the flag word of an allocated block starts the stages of `kfree`. -/
private theorem start (inv : KheapInv heap (before ++ block :: after) free)
    (allocated : block.free = false) :
    Stage heap (before ++ after)
      {hdr | hdr = block.addr ∨ Stale heap.mem (before ++ block :: after) hdr}
      (kheapClearAlloc heap.mem block.addr) (before ++ { block with free := true } :: after)
      free := by
  have block_mem : block ∈ before ++ block :: after := by simp
  have block_ge := (inv.tags.tagged block block_mem).size_ge
  refine ⟨inv.tags.clearAlloc, ?_, ?_, ?_, ?_, ?_⟩
  · apply inv.cycle.congr
    · intro node member
      have near := (inv.tags.node_avoids inv.sentinel (inv.origin member) block_mem).1
      exact ByteMemory.read32_congr fun addr lower upper =>
        kheapClearAlloc_of_outside (by omega)
    · intro node member
      have near := (inv.tags.node_avoids inv.sentinel (inv.origin member) block_mem).1
      exact ByteMemory.read32_congr fun addr lower upper =>
        kheapClearAlloc_of_outside (by omega)
  · intro node member
    obtain ⟨owner, owner_mem, owner_free, rfl⟩ :=
      mem_freeNodes.mp (inv.nodes.mem_iff.mp member)
    refine ⟨owner, ?_, rfl⟩
    simp only [List.mem_append, List.mem_cons] at owner_mem ⊢
    rcases owner_mem with owner_mem | rfl | owner_mem
    · exact Or.inl owner_mem
    · simp [allocated] at owner_free
    · exact Or.inr (Or.inr owner_mem)
  · intro other member _
    refine ⟨?_, ?_⟩
    · exact List.perm_middle.mem_iff.mpr (List.mem_cons_of_mem _ member)
    · intro addr lower upper
      have apart := inv.tags.apart member
      exact kheapClearAlloc_of_outside (by omega)
  · intro other member unfreed
    simp only [List.mem_append, List.mem_cons] at member ⊢
    rcases member with member | rfl | member
    · exact Or.inl member
    · cases unfreed
    · exact Or.inr member
  · exact fun hdr stale => Stale.clearAlloc inv.tags allocated stale

/-- Coalesce with the previous block when it is free. Returns the block that now contains the
freed one; it is already linked exactly when it absorbed a free predecessor. -/
private theorem coalescePrev (stage : Stage heap kept freed mem (before ++ block :: after) free)
    (sentinel : heap.freeList + 8 ≤ heap.start ∨ heap.stop ≤ heap.freeList)
    (stop_lt : heap.stop < 2 ^ 32) (block_free : block.free = true)
    (chain : before.IsChain Separated)
    (nodes : free.Perm (freeNodes before ++ freeNodes after)) (prevFree : Bool)
    (prevFree_eq : prevFree = (decide (block.addr ≠ heap.start) && !kheapAllocated mem
      ((block.addr + 2 ^ 32 - mem.read32 (block.addr - 4)) % 2 ^ 32))) (prevHdr : ℕ)
    (prevHdr_eq : prevHdr = (block.addr + 2 ^ 32 - mem.read32 (block.addr - 4)) % 2 ^ 32) :
    ∃ front merged,
      Stage heap kept freed (if prevFree then kheapMerge mem prevHdr block.addr else mem)
        (front ++ merged :: after) free ∧
      merged.addr = (if prevFree then prevHdr else block.addr) ∧ merged.free = true ∧
      merged.addr + merged.size = block.addr + block.size ∧ front.IsChain Separated ∧
      (∀ left ∈ front.getLast?, left.free = false) ∧
      free.Perm ((if prevFree then [merged.addr + 8] else []) ++
        (freeNodes front ++ freeNodes after)) := by
  obtain rfl | ⟨front, left, rfl⟩ := List.eq_nil_or_concat before
  · have first : block.addr = heap.start := stage.tags.tiles.1
    obtain rfl : prevFree = false := by simp [prevFree_eq, first]
    exact ⟨[], block, stage, rfl, block_free, rfl, by simp, by simp, nodes⟩
  · rw [List.concat_eq_append] at stage chain nodes
    have shape : front ++ [left] ++ block :: after = front ++ left :: block :: after := by simp
    rw [shape] at stage
    have left_tagged := stage.tags.tagged left (by simp)
    have left_ge := left_tagged.size_ge
    have bounds := stage.tags.tiles.bounds (by simp : left ∈ _)
    have block_bounds := stage.tags.tiles.bounds (by simp : block ∈ _)
    have block_addr := stage.tags.adjacent
    have footer : mem.read32 (block.addr - 4) = left.size := by
      rw [block_addr]
      exact left_tagged.footer
    have prev_addr : prevHdr = left.addr := by
      rw [prevHdr_eq, footer]
      omega
    have left_flag : prevFree = left.free := by
      rw [prevFree_eq, ← prevHdr_eq, prev_addr, left_tagged.flags]
      have distinct : block.addr ≠ heap.start := by omega
      simp [distinct]
    rw [List.isChain_append] at chain
    rw [freeNodes_append] at nodes
    cases left_free : left.free with
    | false =>
        obtain rfl : prevFree = false := left_flag.trans left_free
        refine ⟨front ++ [left], block, by simpa using stage, rfl, block_free, rfl, ?_, ?_, ?_⟩
        · rw [List.isChain_append]
          exact chain
        · simpa using left_free
        · simpa using nodes
    | true =>
        obtain rfl : prevFree = true := left_flag.trans left_free
        have unlinked : block.addr + 8 ∉ free := by
          intro member
          obtain ⟨owner, owner_mem, _, owner_addr⟩ := mem_freeNodes.mp
            (by rw [freeNodes_append, freeNodes_append]; exact nodes.mem_iff.mp member :
              block.addr + 8 ∈ freeNodes (front ++ [left] ++ after))
          have tags : Tagged mem heap.start (front ++ [left] ++ block :: after) heap.stop := by
            rw [shape]
            exact stage.tags
          have apart := tags.apart owner_mem
          have owner_ge := (stage.tags.tagged owner (by
            simp only [List.mem_append, List.mem_cons, List.not_mem_nil, or_false] at owner_mem ⊢
            tauto)).size_ge
          have block_ge := (stage.tags.tagged block (by simp)).size_ge
          omega
        refine ⟨front, { left with size := left.size + block.size }, ?_, ?_, left_free, ?_,
          chain.1, ?_, ?_⟩
        · rw [if_pos rfl, prev_addr]
          exact stage.merge sentinel stop_lt left_free block_free unlinked
        · rw [if_pos rfl, prev_addr]
        · simp only
          omega
        · intro other member
          have apart := chain.2.2 other member left (by simp)
          simpa [Separated, left_free] using apart
        · rw [if_pos rfl, List.singleton_append]
          refine nodes.trans ?_
          rw [freeNodes_cons_free left_free]
          simp [freeNodes]

/-- Coalesce with the next block when it is free. -/
private theorem coalesceNext {linked : List ℕ}
    (stage : Stage heap kept freed mem (before ++ block :: after) free)
    (sentinel : heap.freeList + 8 ≤ heap.start ∨ heap.stop ≤ heap.freeList)
    (stop_lt : heap.stop < 2 ^ 32) (block_free : block.free = true)
    (chain : after.IsChain Separated) (nodes : free.Perm (linked ++ freeNodes after))
    (nextFree : Bool) (nextFree_eq : nextFree = (after.head?.map (·.free)).getD false)
    (nextHdr : ℕ) (nextHdr_eq : nextHdr = block.addr + block.size) :
    ∃ back merged free',
      Stage heap kept freed
        (if nextFree then kheapMerge (listRemove wordNodes 0 mem (nextHdr + 8)) block.addr nextHdr
          else mem) (before ++ merged :: back) free' ∧
      merged.addr = block.addr ∧ merged.free = true ∧ back.IsChain Separated ∧
      (∀ right ∈ back.head?, right.free = false) ∧ free'.Perm (linked ++ freeNodes back) := by
  cases after with
  | nil =>
      obtain rfl : nextFree = false := nextFree_eq
      exact ⟨[], block, free, stage, rfl, block_free, by simp, by simp, nodes⟩
  | cons right back =>
      have right_addr := stage.tags.adjacent
      rw [List.isChain_cons] at chain
      cases right_free : right.free with
      | false =>
          obtain rfl : nextFree = false := by simpa [right_free] using nextFree_eq
          refine ⟨right :: back, block, free, stage, rfl, block_free, ?_, ?_, nodes⟩
          · exact List.isChain_cons.mpr chain
          · simpa using right_free
      | true =>
          obtain rfl : nextFree = true := by simpa [right_free] using nextFree_eq
          rw [freeNodes_cons_free right_free] at nodes
          have member : right.addr + 8 ∈ free := nodes.mem_iff.mpr (by simp)
          obtain ⟨front, rest, rfl⟩ := List.append_of_mem member
          have removed := stage.remove sentinel
          have unlinked : right.addr + 8 ∉ front ++ rest := by
            have nodup := (List.nodup_cons.mp stage.cycle.nodup).2
            exact (List.nodup_cons.mp (List.perm_middle.nodup_iff.mp nodup)).1
          have merged := removed.merge sentinel stop_lt block_free right_free unlinked
          refine ⟨back, { block with size := block.size + right.size }, front ++ rest, ?_, rfl,
            block_free, chain.2, ?_, ?_⟩
          · rw [if_pos rfl, nextHdr_eq, ← right_addr]
            exact merged
          · intro other other_mem
            simpa [Separated, right_free] using chain.1 other other_mem
          · exact (List.perm_middle.symm.trans (nodes.trans List.perm_middle)).cons_inv

/-- Linking the coalesced block, unless a free predecessor already was, restores the
invariant. -/
private theorem finish (stage : Stage heap kept freed mem (before ++ block :: after) free)
    (inv_start : heap.start % 4 = 0) (stop_le : heap.stop ≤ 0xF0000000)
    (sentinel : heap.freeList + 8 ≤ heap.start ∨ heap.stop ≤ heap.freeList)
    (block_free : block.free = true) (before_chain : before.IsChain Separated)
    (left_allocated : ∀ left ∈ before.getLast?, left.free = false)
    (after_chain : after.IsChain Separated)
    (right_allocated : ∀ right ∈ after.head?, right.free = false) (linked : Bool)
    (nodes : free.Perm ((if linked then [block.addr + 8] else []) ++
      (freeNodes before ++ freeNodes after))) :
    ∃ blocks' free',
      KheapInv
        { heap with
          mem := if linked then mem
            else listInsertFront wordNodes mem heap.freeList (block.addr + 8) } blocks' free' ∧
      KeepsAllocated heap
        { heap with
          mem := if linked then mem
            else listInsertFront wordNodes mem heap.freeList (block.addr + 8) } kept blocks' ∧
      (∀ block ∈ blocks', block.free = false → block ∈ kept) ∧
      ∀ hdr ∈ freed, Stale (if linked then mem
        else listInsertFront wordNodes mem heap.freeList (block.addr + 8)) blocks' hdr := by
  have separated : (before ++ block :: after).IsChain Separated := by
    refine separated_iff.mpr ⟨before_chain, after_chain, ?_, ?_⟩
    · intro left member
      simp [Separated, left_allocated left member]
    · intro right member
      simp [Separated, right_allocated right member]
  have nodes_eq : freeNodes (before ++ block :: after) =
      freeNodes before ++ (block.addr + 8) :: freeNodes after := by
    rw [freeNodes_append, freeNodes_cons_free block_free]
  cases linked with
  | true =>
      refine ⟨before ++ block :: after, free,
        ⟨inv_start, stop_le, sentinel, stage.tags, separated, stage.cycle, ?_⟩, stage.keeps,
        stage.only, stage.stale⟩
      rw [if_pos rfl, List.singleton_append] at nodes
      rw [nodes_eq]
      exact nodes.trans List.perm_middle.symm
  | false =>
      rw [if_neg Bool.false_ne_true, List.nil_append] at nodes
      have unlinked : block.addr + 8 ∉ free := by
        intro member
        obtain ⟨owner, owner_mem, _, owner_addr⟩ := mem_freeNodes.mp
          (by simpa using nodes.mem_iff.mp member :
            block.addr + 8 ∈ freeNodes (before ++ after))
        have apart := stage.tags.apart owner_mem
        have owner_ge := (stage.tags.tagged owner
          (List.perm_middle.mem_iff.mpr (List.mem_cons_of_mem _ owner_mem))).size_ge
        have block_ge := (stage.tags.tagged block (by simp)).size_ge
        omega
      have inserted := stage.insert sentinel (by omega) (by simp : block ∈ _) unlinked
      refine ⟨before ++ block :: after, (block.addr + 8) :: free,
        ⟨inv_start, stop_le, sentinel, inserted.tags, separated, inserted.cycle, ?_⟩,
        inserted.keeps, inserted.only, inserted.stale⟩
      rw [nodes_eq]
      exact (nodes.cons _).trans List.perm_middle.symm

end Stage

/-- Releasing an allocated block keeps the invariant, every other allocation and the headers of
released blocks. -/
theorem kfreeBlock_cases {heap : Kheap} {before after : List KheapBlock} {block : KheapBlock}
    {free : List ℕ} (inv : KheapInv heap (before ++ block :: after) free)
    (allocated : block.free = false) :
    ∃ blocks' free',
      KheapInv { heap with mem := kfreeBlock heap block.addr } blocks' free' ∧
      KeepsAllocated heap { heap with mem := kfreeBlock heap block.addr } (before ++ after)
        blocks' ∧
      (∀ block ∈ blocks', block.free = false → block ∈ before ++ after) ∧
      ∀ hdr, hdr = block.addr ∨ Stale heap.mem (before ++ block :: after) hdr →
        Stale (kfreeBlock heap block.addr) blocks' hdr := by
  have stop_le := inv.stop_le
  have stop_lt : heap.stop < 2 ^ 32 := by omega
  have started := Stage.start inv allocated
  obtain ⟨before_chain, after_chain, _, _⟩ := separated_iff.mp inv.separated
  have nodes : free.Perm (freeNodes before ++ freeNodes after) := by
    have all_nodes := inv.nodes
    rwa [freeNodes_append, freeNodes_cons_allocated allocated] at all_nodes
  have header : (kheapClearAlloc heap.mem block.addr).read32 block.addr = block.size :=
    (started.tags.tagged { block with free := true } (by simp)).header
  have bounds := inv.tags.tiles.bounds (by simp : block ∈ _)
  have next_addr : (block.addr + block.size) % 2 ^ 32 = block.addr + block.size := by omega
  have next_flag : (decide (block.addr + block.size < heap.stop) &&
      !kheapAllocated (kheapClearAlloc heap.mem block.addr) (block.addr + block.size)) =
        (after.head?.map (·.free)).getD false := by
    cases after with
    | nil =>
        have last : block.addr + block.size = heap.stop := by
          have tiles := inv.tags.tiles
          rw [tiles_append] at tiles
          obtain ⟨middle, _, rfl, stop_eq⟩ := tiles
          exact stop_eq
        simp [last]
    | cons right rest =>
        have right_addr := inv.tags.adjacent
        have right_bounds := inv.tags.tiles.bounds (by simp : right ∈ _)
        have right_ge := (inv.tags.tagged right (by simp)).size_ge
        have right_flags := (started.tags.tagged right (by simp)).flags
        rw [← right_addr, right_flags]
        have inside : right.addr < heap.stop := by omega
        simp [inside]
  obtain ⟨front, merged, prev_stage, merged_addr, merged_free, merged_end, front_chain,
    front_allocated, front_nodes⟩ := started.coalescePrev inv.sentinel stop_lt rfl before_chain
      nodes _ rfl _ rfl
  rw [← List.append_assoc] at front_nodes
  obtain ⟨back, whole, free', next_stage, whole_addr, whole_free, back_chain, back_allocated,
    back_nodes⟩ := prev_stage.coalesceNext inv.sentinel stop_lt merged_free after_chain
      front_nodes _ rfl _ merged_end.symm
  rw [List.append_assoc, ← whole_addr] at back_nodes
  obtain ⟨blocks', free'', inv', keeps, only, stale⟩ := next_stage.finish inv.start_mod stop_le
    inv.sentinel whole_free front_chain front_allocated back_chain back_allocated _ back_nodes
  refine ⟨blocks', free'', ?_⟩
  rw [whole_addr, merged_addr, ← next_flag] at inv' keeps stale
  simp only [kfreeBlock, kheapFooterSize, header, next_addr]
  exact ⟨inv', keeps, only, stale⟩

/-- Releasing an allocated block keeps the invariant and every other allocation. -/
theorem kfreeBlock_inv {heap : Kheap} {before after : List KheapBlock} {block : KheapBlock}
    {free : List ℕ} (inv : KheapInv heap (before ++ block :: after) free)
    (allocated : block.free = false) :
    ∃ blocks' free',
      KheapInv { heap with mem := kfreeBlock heap block.addr } blocks' free' ∧
      KeepsAllocated heap { heap with mem := kfreeBlock heap block.addr } (before ++ after)
        blocks' ∧
      ∀ block ∈ blocks', block.free = false → block ∈ before ++ after := by
  obtain ⟨blocks', free', inv', keeps, only, _⟩ := kfreeBlock_cases inv allocated
  exact ⟨blocks', free', inv', keeps, only⟩

end ItWorksOS
