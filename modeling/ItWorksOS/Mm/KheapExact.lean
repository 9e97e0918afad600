import ItWorksOS.Mm.KheapRun

/-!
# Exactness of `kmalloc`

`kmalloc` rounds the request and adds the boundary tags in 32-bit arithmetic without an overflow
check. A request near `2 ^ 32` asks for a block of at most 20 bytes, which any free block can hold.
-/

namespace ItWorksOS

/-- `kmalloc` either returns an error pointer and leaves the heap alone, or returns the payload of
an allocated block that holds the request in a well-formed heap. -/
def KmallocSound (heap : Kheap) (size : ℕ) : Prop :=
  ∃ ptr heap', kmalloc heap size = some (ptr, heap') ∧
    (kerrPtrIsErr ptr = true ∧ heap' = heap ∨
      kerrPtrIsErr ptr = false ∧ ∃ blocks free, KheapInv heap' blocks free ∧
        ∃ block ∈ blocks, block.free = false ∧ ptr = block.addr + kheapHeaderSize ∧
          ptr + size ≤ block.addr + block.size - kheapFooterSize)

section Requests

variable {heap : Kheap} {blocks : List KheapBlock} {free : List ℕ} {size : ℕ}

theorem kerrPtrIsErr_of_lt {ptr : ℕ} (below : ptr < 0xF0000000) :
    kerrPtrIsErr ptr = false := by
  unfold kerrPtrIsErr
  rw [decide_eq_false_iff_not]
  omega

/-- A request that does not wrap is served soundly. -/
theorem kmallocSound_of_fits (inv : KheapInv heap blocks free) (fits : KmallocFits size) :
    KmallocSound heap size := by
  rcases kmalloc_cases inv fits with
    ⟨error, failed⟩ | ⟨mem', blocks', free', taken, result, inv', _, member, allocated, large, _⟩
  · exact ⟨_, _, failed, Or.inl ⟨kerrPtrIsErr_kerrPtr error, rfl⟩⟩
  · have bounds := inv'.tags.tiles.bounds member
    have stop_le := inv'.stop_le
    simp only at bounds stop_le
    refine ⟨_, _, result, Or.inr ⟨kerrPtrIsErr_of_lt (by omega), blocks', free', inv', taken,
      member, allocated, rfl, ?_⟩⟩
    unfold kheapFooterSize
    omega

/-- Without a free block every request fails without effect. -/
theorem kmallocSound_of_full (inv : KheapInv heap blocks free)
    (full : ∀ block ∈ blocks, block.free = false) : KmallocSound heap size := by
  have empty : free = [] := by
    rw [List.eq_nil_iff_forall_not_mem]
    intro node member
    obtain ⟨block, block_mem, block_free, _⟩ := mem_freeNodes.mp (inv.nodes.mem_iff.mp member)
    rw [full block block_mem] at block_free
    cases block_free
  by_cases zero : size = 0
  · refine ⟨kerrPtr .inval, heap, by rw [kmalloc, if_pos zero], Or.inl ⟨?_, rfl⟩⟩
    exact kerrPtrIsErr_kerrPtr .inval
  · refine ⟨kerrPtr .nomem, heap, ?_, Or.inl ⟨kerrPtrIsErr_kerrPtr .nomem, rfl⟩⟩
    rw [kmalloc, if_neg zero, inv.kmallocFind_eq, empty]
    rfl

/-- The block size of a request that wraps is below that of every block. -/
theorem kmallocBlockSize_lt_of_wraps (size_lt : size < 2 ^ 32) (wraps : ¬ KmallocFits size) :
    kmallocBlockSize size < kheapMinBlockSize := by
  unfold KmallocFits at wraps
  unfold kmallocBlockSize kheapHeaderSize kheapFooterSize kheapMinBlockSize alignUp alignDown
  omega

/-- A request that every free block can hold is given the first one. -/
theorem kmalloc_of_first (inv : KheapInv heap blocks free) (positive : size ≠ 0)
    (available : ∃ block ∈ blocks, block.free = true)
    (large : ∀ block ∈ blocks, block.free = true → kmallocBlockSize size ≤ block.size) :
    ∃ block ∈ blocks, block.free = true ∧
      kmalloc heap size = some (block.addr + kheapHeaderSize,
        { heap with mem := kmallocTake heap.mem block.addr (kmallocBlockSize size) }) := by
  obtain ⟨node, rest, shape⟩ : ∃ node rest, free = node :: rest := by
    obtain ⟨block, member, block_free⟩ := available
    have linked : block.addr + 8 ∈ free :=
      inv.nodes.mem_iff.mpr (mem_freeNodes.mpr ⟨block, member, block_free, rfl⟩)
    cases free with
    | nil => cases linked
    | cons node rest => exact ⟨node, rest, rfl⟩
  obtain ⟨block, member, block_free, rfl⟩ :=
    mem_freeNodes.mp (inv.nodes.mem_iff.mp (by simp [shape] : node ∈ free))
  refine ⟨block, member, block_free, ?_⟩
  have found : kmallocBlockSize size ≤ heap.mem.read32 (block.addr + 8 - 8) := by
    rw [Nat.add_sub_cancel, (inv.tags.tagged block member).header]
    exact large block member block_free
  rw [kmalloc, if_neg positive, inv.kmallocFind_eq, shape,
    List.find?_cons_of_pos (by simpa using found)]
  rfl

/-- A request that wraps is given the first free block. -/
theorem kmalloc_of_wraps (inv : KheapInv heap blocks free) (size_lt : size < 2 ^ 32)
    (wraps : ¬ KmallocFits size) (available : ∃ block ∈ blocks, block.free = true) :
    ∃ block ∈ blocks, block.free = true ∧
      kmalloc heap size = some (block.addr + kheapHeaderSize,
        { heap with mem := kmallocTake heap.mem block.addr (kmallocBlockSize size) }) := by
  have small := kmallocBlockSize_lt_of_wraps size_lt wraps
  refine kmalloc_of_first inv ?_ available fun block member _ => ?_
  · rintro rfl
    exact wraps (by unfold KmallocFits; omega)
  · exact (small.trans_le (inv.tags.tagged block member).size_ge).le

/-- No block can hold a request that wraps, so serving it is unsound. -/
theorem not_kmallocSound_of_wraps (inv : KheapInv heap blocks free) (size_lt : size < 2 ^ 32)
    (wraps : ¬ KmallocFits size) (available : ∃ block ∈ blocks, block.free = true) :
    ¬ KmallocSound heap size := by
  obtain ⟨block, member, _, result⟩ := kmalloc_of_wraps inv size_lt wraps available
  have bounds := inv.tags.tiles.bounds member
  have size_ge := (inv.tags.tagged block member).size_ge
  have stop_le := inv.stop_le
  rintro ⟨ptr, heap', call, outcome⟩
  rw [result, Option.some.injEq, Prod.mk.injEq] at call
  obtain ⟨rfl, rfl⟩ := call
  unfold kheapHeaderSize kheapFooterSize at outcome
  rcases outcome with ⟨failed, _⟩ | ⟨_, blocks', free', inv', taken, taken_mem, _, _, large⟩
  · rw [kerrPtrIsErr_of_lt (by omega)] at failed
    cases failed
  · have taken_bounds := inv'.tags.tiles.bounds taken_mem
    unfold KmallocFits at wraps
    simp only at taken_bounds
    omega

end Requests

/-- For every well-formed heap and every `size_t` request, `kmalloc` is sound exactly when the
rounded and framed request does not wrap or no block is free. -/
theorem kmalloc_exact_iff {heap : Kheap} {blocks : List KheapBlock} {free : List ℕ} {size : ℕ}
    (inv : KheapInv heap blocks free) (size_lt : size < 2 ^ 32) :
    KmallocSound heap size ↔ KmallocFits size ∨ ∀ block ∈ blocks, block.free = false := by
  constructor
  · intro sound
    by_contra neither
    rw [not_or] at neither
    obtain ⟨wraps, occupied⟩ := neither
    have available : ∃ block ∈ blocks, block.free = true := by
      by_contra none_free
      refine occupied fun block member => ?_
      cases flag : block.free with
      | false => rfl
      | true => exact absurd ⟨block, member, flag⟩ none_free
    exact not_kmallocSound_of_wraps inv size_lt wraps available sound
  · rintro (fits | full)
    · exact kmallocSound_of_fits inv fits
    · exact kmallocSound_of_full inv full

/-- A request of 100 bytes on the heap that `kheap_init` builds. -/
theorem kmalloc_exact_hundred :
    ∃ heap, kheapInit (fun _ => 0) 0xC0008000 smallPmm = (.ok heap, pmmMark smallPmm 256 256) ∧
      KmallocSound heap 100 := by
  obtain ⟨heap, init⟩ := smallPmm_kheapInit
  have inv := kheapInit_inv init smallPmm_reserved
  refine ⟨heap, init, (kmalloc_exact_iff inv (by decide)).mpr (Or.inl ?_)⟩
  unfold KmallocFits
  decide

/-- On the heap that `kheap_init` builds, the largest request returns a pointer that is no error
while no block can hold it. -/
theorem kmalloc_under_allocates :
    ∃ heap, kheapInit (fun _ => 0) 0xC0008000 smallPmm = (.ok heap, pmmMark smallPmm 256 256) ∧
      KheapInv heap [⟨heap.start, 0x100000, true⟩] [heap.start + 8] ∧
      (∃ heap', kmalloc heap (2 ^ 32 - 1) = some (heap.start + 16, heap')) ∧
      ¬ KmallocSound heap (2 ^ 32 - 1) := by
  obtain ⟨heap, init⟩ := smallPmm_kheapInit
  have inv := kheapInit_inv init smallPmm_reserved
  have wraps : ¬ KmallocFits (2 ^ 32 - 1) := by
    unfold KmallocFits
    decide
  have available : ∃ block ∈ [(⟨heap.start, 0x100000, true⟩ : KheapBlock)], block.free = true :=
    ⟨_, List.mem_singleton_self _, rfl⟩
  obtain ⟨block, member, _, result⟩ := kmalloc_of_wraps inv (by decide) wraps available
  rw [List.mem_singleton] at member
  subst member
  exact ⟨heap, init, inv, ⟨_, result⟩, not_kmallocSound_of_wraps inv (by decide) wraps available⟩

end ItWorksOS
