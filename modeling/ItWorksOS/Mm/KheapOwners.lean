import ItWorksOS.Mm.KheapRelease
import ItWorksOS.Mm.VmMapFailure

/-!
# Owners of heap blocks

Kernel objects refer to heap blocks by their payload. Allocating a block and releasing it again
restores every block, because the free blocks are the gaps between the allocated ones.
-/

namespace ItWorksOS

/-! ## Allocated blocks determine the free ones -/

section Gaps

variable {start stop : ℕ} {blocks blocks' : List KheapBlock} {block block' : KheapBlock}

/-- The block after a free block is allocated, so no free block reaches over it. -/
private theorem free_size_le (tiles : Tiles start (block :: blocks) stop)
    (tiles' : Tiles start (block' :: blocks') stop) (block_free : block.free = true)
    (block_free' : block'.free = true) (positive : ∀ other ∈ blocks, 0 < other.size)
    (separated : (block :: blocks).IsChain Separated)
    (kept : ∀ other ∈ blocks, other.free = false → other ∈ block' :: blocks') :
    block'.size ≤ block.size := by
  by_contra shorter
  obtain ⟨addr_eq', rest'⟩ := tiles'
  have stop_ge := rest'.le
  cases blocks with
  | nil =>
      have stop_eq : start + block.size = stop := tiles.2
      omega
  | cons next blocks =>
      obtain ⟨_, next_addr, _⟩ := tiles
      have next_pos := positive next List.mem_cons_self
      have apart := (List.isChain_cons_cons.mp separated).1
      have next_allocated : next.free = false := by
        cases next_free : next.free with
        | false => rfl
        | true => exact absurd ⟨block_free, next_free⟩ apart
      have member := kept next List.mem_cons_self next_allocated
      have whole : Tiles start (block' :: blocks') stop := ⟨addr_eq', rest'⟩
      rcases whole.eq_or_disjoint member List.mem_cons_self with rfl | disjoint
      · rw [block_free'] at next_allocated
        cases next_allocated
      · omega

/-- Tilings without adjacent free blocks are equal when their allocated blocks are. -/
theorem Tiles.eq_of_allocated (tiles : Tiles start blocks stop) (tiles' : Tiles start blocks' stop)
    (positive : ∀ block ∈ blocks, 0 < block.size) (positive' : ∀ block ∈ blocks', 0 < block.size)
    (separated : blocks.IsChain Separated) (separated' : blocks'.IsChain Separated)
    (same : ∀ block, block.free = false → (block ∈ blocks ↔ block ∈ blocks')) :
    blocks = blocks' := by
  induction blocks generalizing start blocks' with
  | nil =>
      cases blocks' with
      | nil => rfl
      | cons block' blocks' =>
          have stop_eq : start = stop := tiles
          have := tiles'.2.le
          have := positive' block' List.mem_cons_self
          omega
  | cons block blocks induction =>
      cases blocks' with
      | nil =>
          have stop_eq : start = stop := tiles'
          have := tiles.2.le
          have := positive block List.mem_cons_self
          omega
      | cons block' blocks' =>
          have block_pos := positive block List.mem_cons_self
          have block_pos' := positive' block' List.mem_cons_self
          have first_eq : block = block' := by
            have addr_eq := tiles.1
            have addr_eq' := tiles'.1
            cases flag : block.free with
            | false =>
                have member := (same block flag).mp List.mem_cons_self
                rcases tiles'.eq_or_disjoint member List.mem_cons_self with equal | disjoint
                · exact equal
                · omega
            | true =>
                cases flag' : block'.free with
                | false =>
                    have member := (same block' flag').mpr List.mem_cons_self
                    rcases tiles.eq_or_disjoint List.mem_cons_self member with equal | disjoint
                    · exact equal
                    · omega
                | true =>
                    have le := free_size_le tiles tiles' flag flag'
                      (fun other member => positive other (List.mem_cons_of_mem _ member)) separated
                      fun other member allocated =>
                        (same other allocated).mp (List.mem_cons_of_mem _ member)
                    have ge := free_size_le tiles' tiles flag' flag
                      (fun other member => positive' other (List.mem_cons_of_mem _ member))
                      separated' fun other member allocated =>
                        (same other allocated).mpr (List.mem_cons_of_mem _ member)
                    obtain ⟨addr, size, free⟩ := block
                    obtain ⟨addr', size', free'⟩ := block'
                    simp only at addr_eq addr_eq' flag flag' le ge
                    rw [addr_eq, addr_eq', flag, flag', Nat.le_antisymm le ge]
          subst first_eq
          have outside {others : List KheapBlock}
              (rest : Tiles (start + block.size) others stop) : block ∉ others := by
            intro member
            have := rest.bounds member
            have := tiles.1
            omega
          rw [induction tiles.2 tiles'.2
            (fun other member => positive other (List.mem_cons_of_mem _ member))
            (fun other member => positive' other (List.mem_cons_of_mem _ member))
            separated.tail separated'.tail]
          intro other allocated
          have whole := same other allocated
          rw [List.mem_cons, List.mem_cons] at whole
          constructor
          · intro member
            exact (whole.mp (Or.inr member)).resolve_left fun equal =>
              outside tiles.2 (equal ▸ member)
          · intro member
            exact (whole.mpr (Or.inr member)).resolve_left fun equal =>
              outside tiles'.2 (equal ▸ member)

end Gaps

/-- Releasing a block right after its allocation restores all blocks; only the order of the free
list may differ. -/
theorem kfree_kmalloc {heap heap' : Kheap} {blocks : List KheapBlock} {free : List ℕ}
    {size ptr : ℕ} (inv : KheapInv heap blocks free) (fits : KmallocFits size)
    (call : kmalloc heap size = some (ptr, heap')) (valid : kerrPtrIsErr ptr = false)
    (large : 20 < size) :
    ∃ heap'' free'', kfree heap' ptr = (.ok (), heap'') ∧ KheapInv heap'' blocks free'' := by
  rcases kmalloc_cases inv fits with
    ⟨error, failed⟩ | ⟨mem', blocks', free', taken, result, inv', keeps, member, allocated,
      room, _, fresh, only⟩
  · rw [failed, Option.some.injEq, Prod.mk.injEq] at call
    rw [← call.1, kerrPtrIsErr_kerrPtr] at valid
    cases valid
  · rw [result, Option.some.injEq, Prod.mk.injEq] at call
    obtain ⟨rfl, rfl⟩ := call
    have taken_bounds := inv'.tags.tiles.bounds member
    rcases kfree_of_allocated inv' member allocated with ⟨_, released⟩ | ⟨high, _⟩
    · obtain ⟨before, after, rfl⟩ := List.append_of_mem member
      obtain ⟨blocks'', free'', inv'', keeps', only'⟩ := kfreeBlock_inv inv' allocated
      have taken_ge := (inv'.tags.tagged taken member).size_ge
      have same : blocks'' = blocks := by
        refine inv''.tags.tiles.eq_of_allocated inv.tags.tiles ?_ ?_ inv''.separated inv.separated
          fun block block_allocated => ⟨fun block_mem => ?_, fun block_mem => ?_⟩
        · intro block block_mem
          have := (inv''.tags.tagged block block_mem).size_ge
          omega
        · intro block block_mem
          have := (inv.tags.tagged block block_mem).size_ge
          omega
        · have rest := only' block block_mem block_allocated
          have apart := inv'.tags.apart rest
          have whole : block ∈ before ++ taken :: after :=
            List.perm_middle.mem_iff.mpr (List.mem_cons_of_mem _ rest)
          refine (only block whole block_allocated).resolve_left ?_
          rintro rfl
          omega
        · have old := (keeps block block_mem block_allocated).1
          have differ := fresh block block_mem block_allocated
          refine (keeps' block ?_ block_allocated).1
          simp only [List.mem_append, List.mem_cons] at old ⊢
          rcases old with old | rfl | old
          · exact Or.inl old
          · exact absurd rfl differ
          · exact Or.inr old
      exact ⟨_, free'', released, same ▸ inv''⟩
    · refine absurd ?_ high
      unfold BelowLastBlock kheapMinBlockSize
      simp only at taken_bounds ⊢
      omega

/-! ## Owned payloads -/

/-- The pointers are the payloads of distinct allocated blocks of a well-formed heap. -/
def HeapOwned (heap : Kheap) (owned : Multiset ℕ) : Prop :=
  owned.Nodup ∧ ∃ blocks free, KheapInv heap blocks free ∧
    ∀ ptr ∈ owned, ∃ block ∈ blocks, block.free = false ∧ ptr = block.addr + kheapHeaderSize

namespace HeapOwned

variable {heap heap' : Kheap} {owned rest : Multiset ℕ} {size ptr : ℕ}

theorem mono (inv : HeapOwned heap owned) (sub : rest ≤ owned) : HeapOwned heap rest := by
  obtain ⟨nodup, blocks, free, heap_inv, allocated⟩ := inv
  exact ⟨Multiset.nodup_of_le sub nodup, blocks, free, heap_inv,
    fun ptr member => allocated ptr (Multiset.mem_of_le sub member)⟩

/-- `kmalloc` fails without effect or returns a pointer that is not owned yet. -/
theorem kmalloc_cases (inv : HeapOwned heap owned) (fits : KmallocFits size) :
    (∃ error, kmalloc heap size = some (kerrPtr error, heap)) ∨
      ∃ ptr heap', kmalloc heap size = some (ptr, heap') ∧ kerrPtrIsErr ptr = false ∧
        0 < ptr ∧ HeapOwned heap' (ptr ::ₘ owned) := by
  obtain ⟨nodup, blocks, free, heap_inv, allocated⟩ := inv
  rcases ItWorksOS.kmalloc_cases heap_inv fits with
    ⟨error, failed⟩ | ⟨mem', blocks', free', taken, result, inv', keeps, member, unfreed, _, _,
      fresh, _⟩
  · exact Or.inl ⟨error, failed⟩
  · have bounds := inv'.tags.tiles.bounds member
    have size_ge := (inv'.tags.tagged taken member).size_ge
    have stop_le := inv'.stop_le
    refine Or.inr ⟨_, _, result, ?_, by omega, ?_, blocks', free', inv', ?_⟩
    · unfold kerrPtrIsErr
      simp only [decide_eq_false_iff_not] at bounds stop_le ⊢
      omega
    · refine Multiset.nodup_cons.mpr ⟨fun taken_mem => ?_, nodup⟩
      obtain ⟨block, block_mem, block_allocated, ptr_eq⟩ := allocated _ taken_mem
      have differ := fresh block block_mem block_allocated
      unfold kheapHeaderSize at ptr_eq
      omega
    · intro ptr ptr_mem
      rcases Multiset.mem_cons.mp ptr_mem with rfl | old
      · exact ⟨taken, member, unfreed, rfl⟩
      · obtain ⟨block, block_mem, block_allocated, ptr_eq⟩ := allocated ptr old
        exact ⟨block, (keeps block block_mem block_allocated).1, block_allocated, ptr_eq⟩

/-- `kfree` of an owned pointer keeps the other owners, whether it accepts the pointer or not. -/
theorem kfree (inv : HeapOwned heap (ptr ::ₘ owned)) : HeapOwned (kfree heap ptr).2 owned := by
  obtain ⟨nodup, blocks, free, heap_inv, allocated⟩ := inv
  obtain ⟨fresh, rest_nodup⟩ := Multiset.nodup_cons.mp nodup
  obtain ⟨block, member, unfreed, rfl⟩ := allocated ptr (Multiset.mem_cons_self _ _)
  rcases kfree_cases heap_inv member unfreed with rejected | released
  · refine ⟨rest_nodup, blocks, free, ?_, fun ptr ptr_mem =>
      allocated ptr (Multiset.mem_cons_of_mem ptr_mem)⟩
    unfold kheapHeaderSize
    rw [rejected]
    exact heap_inv
  · obtain ⟨before, after, rfl⟩ := List.append_of_mem member
    obtain ⟨blocks', free', inv', keeps, _⟩ := kfreeBlock_inv heap_inv unfreed
    refine ⟨rest_nodup, blocks', free', ?_, fun ptr ptr_mem => ?_⟩
    · unfold kheapHeaderSize
      rw [released]
      exact inv'
    · obtain ⟨other, other_mem, other_allocated, rfl⟩ :=
        allocated ptr (Multiset.mem_cons_of_mem ptr_mem)
      refine ⟨other, (keeps other ?_ other_allocated).1, other_allocated, rfl⟩
      simp only [List.mem_append, List.mem_cons] at other_mem ⊢
      rcases other_mem with other_mem | rfl | other_mem
      · exact Or.inl other_mem
      · exact absurd ptr_mem fresh
      · exact Or.inr other_mem

/-- A store into an owned payload keeps all owners. -/
theorem store {addr : ℕ} (inv : HeapOwned heap owned) (member : ptr ∈ owned) (lower : ptr ≤ addr)
    (upper : addr < (KheapRun.initial heap).payloadEnd ptr) (byte : UInt8) :
    HeapOwned { heap with mem := heap.mem.write8 addr byte } owned := by
  obtain ⟨nodup, blocks, free, heap_inv, allocated⟩ := inv
  obtain ⟨block, block_mem, unfreed, rfl⟩ := allocated ptr member
  unfold kheapHeaderSize at lower upper
  rw [KheapRun.payloadEnd_eq _ heap_inv block_mem] at upper
  exact ⟨nodup, blocks, free, heap_inv.store block_mem lower upper, allocated⟩

end HeapOwned

/-! ## Records of areas -/

/-- The kernel heap as `mm/vmm.c` uses it. A `kmalloc` that never ends has no result. -/
def kheapOps : HeapOps Kheap where
  kmalloc heap size := (kmalloc heap size).getD (0, heap)
  kfree := kfree

/-- The heap pointers behind the areas of an address space. -/
def VmSpace.areas (vm : VmSpace) : Multiset ℕ := vm.vmas.map Vma.ptr

section Areas

variable {kernel : Kernel Kheap} {vm : VmSpace} {rest : Multiset ℕ}

private theorem areas_erase {vmas : List Vma} {vma : Vma} (member : vma ∈ vmas) :
    ((vmas.map Vma.ptr : List ℕ) : Multiset ℕ) =
      vma.ptr ::ₘ ((vmas.erase vma).map Vma.ptr : List ℕ) := by
  rw [Multiset.cons_coe, Multiset.coe_eq_coe]
  exact (List.perm_cons_erase member).map Vma.ptr

private theorem map_ptr_replace (vmas : List Vma) (vma : Vma) (flags : ℕ) :
    (vmas.replace vma { vma with flags := flags }).map Vma.ptr = vmas.map Vma.ptr := by
  induction vmas with
  | nil => rfl
  | cons first vmas induction =>
      rw [List.replace_cons]
      split
      · rename_i same
        rw [beq_iff_eq] at same
        rw [List.map_cons, List.map_cons, same]
      · rw [List.map_cons, List.map_cons, induction]

/-- Removing an area releases its record. -/
private theorem release_area {vma : Vma} {heap : Kheap} (member : vma ∈ vm.vmas)
    (inv : HeapOwned heap (rest + vm.areas)) :
    HeapOwned (kfree heap vma.ptr).2
      (rest + VmSpace.areas { vm with vmas := vm.vmas.erase vma }) := by
  apply HeapOwned.kfree
  rw [VmSpace.areas, areas_erase member, Multiset.add_cons] at inv
  exact inv

private theorem vmRemoveVma_owned (inv : HeapOwned kernel.heap (rest + vm.areas)) (virt : ℕ) :
    HeapOwned (vmRemoveVma (x86Env kheapOps) vm virt kernel).2.2.heap
      (rest + (vmRemoveVma (x86Env kheapOps) vm virt kernel).2.1.areas) := by
  rw [vmRemoveVma]
  cases search : vmFindVma vm virt with
  | none => exact inv
  | some vma =>
      refine release_area ?_ inv
      unfold vmFindVma at search
      split at search
      · cases search
      · exact (mem_of_vmSearch search).1

private theorem vmMap_owned (inv : HeapOwned kernel.heap (rest + vm.areas))
    (virt phys size flags : ℕ) :
    HeapOwned (vmMap (x86Env kheapOps) vm virt phys size flags kernel).2.2.heap
      (rest + (vmMap (x86Env kheapOps) vm virt phys size flags kernel).2.1.areas) := by
  rcases vmMap_cases (x86Env kheapOps) vm virt phys size flags kernel with
    ⟨_, rejected⟩ | ⟨args, ⟨_, rejected⟩ | ⟨before, after, ptr, middle, position, allocated,
      outcome⟩⟩
  · rw [rejected]
    exact inv
  · rw [rejected]
    exact inv
  · have fits : KmallocFits vmaSize := by
      unfold KmallocFits
      decide
    have split_eq : vm.vmas = before ++ after := (vmAddPosition_takeWhile position).1
    rcases inv.kmalloc_cases fits with ⟨error, failed⟩ | ⟨new, heap', served, valid, _, inv'⟩
    · have result : (x86Env kheapOps).kmalloc kernel vmaSize = (kerrPtr error, kernel) := by
        simp only [x86Env, kheapOps, failed, Option.getD_some]
      rw [result] at allocated
      obtain ⟨rfl, rfl⟩ := Prod.mk.inj allocated
      rcases outcome with ⟨_, rejected⟩ | ⟨valid, _⟩
      · rw [rejected]
        exact inv
      · rw [kerrPtrIsErr_kerrPtr] at valid
        cases valid
    · have result : (x86Env kheapOps).kmalloc kernel vmaSize =
          (new, { kernel with heap := heap' }) := by
        simp only [x86Env, kheapOps, served, Option.getD_some]
      rw [result] at allocated
      obtain ⟨rfl, rfl⟩ := Prod.mk.inj allocated
      -- The record of the new area joins those of the old ones.
      have inserted (state : Kernel Kheap) (same : state.heap = heap') :
          HeapOwned state.heap (rest + VmSpace.areas { vm with vmas := before ++
            ⟨virt, (virt + size) % 2 ^ 32, flags, new⟩ :: after }) := by
        have areas_eq : VmSpace.areas { vm with vmas := before ++
            ⟨virt, (virt + size) % 2 ^ 32, flags, new⟩ :: after } = new ::ₘ vm.areas := by
          rw [VmSpace.areas, VmSpace.areas, split_eq, Multiset.cons_coe, Multiset.coe_eq_coe]
          exact List.perm_middle.map Vma.ptr
        rw [areas_eq, Multiset.add_cons, same]
        exact inv'
      rcases outcome with
        ⟨invalid, _⟩ | ⟨_, state', ⟨mapped, result⟩ | ⟨error, failed, result⟩⟩
      · rw [valid] at invalid
        cases invalid
      · obtain ⟨_, rfl⟩ := Prod.mk.inj mapped
        rw [result]
        exact inserted _ rfl
      · obtain ⟨_, rfl⟩ := Prod.mk.inj failed
        rw [result]
        exact vmRemoveVma_owned (inserted _ rfl) virt

private theorem vmUnmap_owned (inv : HeapOwned kernel.heap (rest + vm.areas)) (virt size : ℕ) :
    HeapOwned (vmUnmap (x86Env kheapOps) vm virt size kernel).2.2.heap
      (rest + (vmUnmap (x86Env kheapOps) vm virt size kernel).2.1.areas) := by
  rcases vmUnmap_cases (x86Env kheapOps) vm virt size kernel with
    ⟨error, _, rejected⟩ | ⟨vma, state', whole, ⟨unmapped, result⟩ | ⟨error, failed, result⟩⟩
  · rw [rejected]
    exact inv
  · obtain ⟨_, rfl⟩ := Prod.mk.inj unmapped
    obtain ⟨_, _, _, member, _⟩ := vmWholeVma_eq_ok whole
    rw [result]
    exact release_area member inv
  · obtain ⟨_, rfl⟩ := Prod.mk.inj failed
    rw [result]
    exact inv

private theorem vmProtect_owned (inv : HeapOwned kernel.heap (rest + vm.areas))
    (virt size flags : ℕ) :
    HeapOwned (vmProtect (x86Env kheapOps) vm virt size flags kernel).2.2.heap
      (rest + (vmProtect (x86Env kheapOps) vm virt size flags kernel).2.1.areas) := by
  rcases vmProtect_cases (x86Env kheapOps) vm virt size flags kernel with
    ⟨error, _, rejected⟩ | ⟨vma, state', whole, ⟨changed, result⟩ | ⟨error, failed, result⟩⟩
  · rw [rejected]
    exact inv
  · obtain ⟨_, rfl⟩ := Prod.mk.inj changed
    rw [result]
    simp only [VmSpace.areas, map_ptr_replace]
    exact inv
  · obtain ⟨_, rfl⟩ := Prod.mk.inj failed
    rw [result]
    exact inv

/-- A call on an address space owns the records of its areas afterwards, and leaves every other
owner of a heap block alone. -/
theorem vmCall_owned (inv : HeapOwned kernel.heap (rest + vm.areas)) (op : VmOp) :
    HeapOwned (vmCall (x86Env kheapOps) op vm kernel).2.2.heap
      (rest + (vmCall (x86Env kheapOps) op vm kernel).2.1.areas) := by
  cases op with
  | map virt phys size flags => exact vmMap_owned inv virt phys size flags
  | unmap virt size => exact vmUnmap_owned inv virt size
  | protect virt size flags => exact vmProtect_owned inv virt size flags

end Areas

end ItWorksOS
