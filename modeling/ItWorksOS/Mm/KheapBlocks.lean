import ItWorksOS.Mm.Kheap

/-!
# Boundary tags of the kernel heap

The blocks of a heap tile an interval, and each of them is described by the tags at its two ends.
An edit of the heap replaces some consecutive blocks by others over the same interval and leaves
every byte outside it alone.
-/

namespace ItWorksOS

/-- Blocks follow each other without gaps from one address to another. -/
def Tiles : ℕ → List KheapBlock → ℕ → Prop
  | start, [], stop => start = stop
  | start, block :: blocks, stop => block.addr = start ∧ Tiles (start + block.size) blocks stop

theorem tiles_append {start stop : ℕ} {left right : List KheapBlock} :
    Tiles start (left ++ right) stop ↔ ∃ middle, Tiles start left middle ∧
      Tiles middle right stop := by
  induction left generalizing start with
  | nil => simp [Tiles]
  | cons block blocks induction => simp [Tiles, induction, and_assoc]

theorem Tiles.le {start stop : ℕ} {blocks : List KheapBlock} (tiles : Tiles start blocks stop) :
    start ≤ stop := by
  induction blocks generalizing start with
  | nil => exact Nat.le_of_eq tiles
  | cons block blocks induction =>
      have := induction tiles.2
      omega

/-- A tiling determines where it ends. -/
theorem Tiles.stop_unique {start stop stop' : ℕ} {blocks : List KheapBlock}
    (tiles : Tiles start blocks stop) (tiles' : Tiles start blocks stop') : stop = stop' := by
  induction blocks generalizing start with
  | nil => exact (Eq.symm tiles).trans tiles'
  | cons block blocks induction => exact induction tiles.2 tiles'.2

/-- Every block of a tiling lies inside the tiled interval. -/
theorem Tiles.bounds {start stop : ℕ} {blocks : List KheapBlock} {block : KheapBlock}
    (tiles : Tiles start blocks stop) (member : block ∈ blocks) :
    start ≤ block.addr ∧ block.addr + block.size ≤ stop := by
  induction blocks generalizing start with
  | nil => simp at member
  | cons first blocks induction =>
      obtain ⟨first_addr, rest⟩ := tiles
      rcases List.mem_cons.mp member with rfl | member
      · exact ⟨by omega, first_addr ▸ rest.le⟩
      · have := induction rest member
        omega

/-- Two blocks of a tiling are equal or do not overlap. -/
theorem Tiles.eq_or_disjoint {start stop : ℕ} {blocks : List KheapBlock}
    {left right : KheapBlock} (tiles : Tiles start blocks stop) (left_mem : left ∈ blocks)
    (right_mem : right ∈ blocks) :
    left = right ∨ left.addr + left.size ≤ right.addr ∨ right.addr + right.size ≤ left.addr := by
  induction blocks generalizing start with
  | nil => simp at left_mem
  | cons first blocks induction =>
      obtain ⟨first_addr, rest⟩ := tiles
      rcases List.mem_cons.mp left_mem with left_eq | left_mem <;>
        rcases List.mem_cons.mp right_mem with right_eq | right_mem
      · exact Or.inl (left_eq.trans right_eq.symm)
      · have := rest.bounds right_mem
        subst left_eq
        omega
      · have := rest.bounds left_mem
        subst right_eq
        omega
      · exact induction rest left_mem right_mem

theorem Tiles.length_le {start stop : ℕ} {blocks : List KheapBlock}
    (tiles : Tiles start blocks stop) (sizes : ∀ block ∈ blocks, 24 ≤ block.size) :
    24 * blocks.length ≤ stop - start := by
  induction blocks generalizing start with
  | nil => simp
  | cons block blocks induction =>
      have rest_le := induction tiles.2 fun other member => sizes other (by simp [member])
      have block_ge := sizes block (by simp)
      have := tiles.2.le
      simp only [List.length_cons]
      omega

/-- The tags of a block in memory agree with its description. -/
structure KheapBlock.Tagged (mem : ByteMemory) (block : KheapBlock) : Prop where
  size_ge : 24 ≤ block.size
  size_mod : block.size % 4 = 0
  header : mem.read32 block.addr = block.size
  flags : kheapAllocated mem block.addr = !block.free
  footer : mem.read32 (block.addr + block.size - 4) = block.size

theorem kheapAllocated_congr {mem mem' : ByteMemory} {hdr : ℕ}
    (agree : ∀ addr, hdr + 4 ≤ addr → addr < hdr + 8 → mem' addr = mem addr) :
    kheapAllocated mem' hdr = kheapAllocated mem hdr := by
  rw [kheapAllocated, kheapAllocated, ByteMemory.read32_congr fun addr lower upper =>
    agree addr lower (by omega)]

/-- The tags of a block are its first eight and its last four bytes. -/
theorem KheapBlock.Tagged.congr {mem mem' : ByteMemory} {block : KheapBlock}
    (tagged : block.Tagged mem)
    (head_agree : ∀ addr, block.addr ≤ addr → addr < block.addr + 8 → mem' addr = mem addr)
    (foot_agree : ∀ addr, block.addr + block.size - 4 ≤ addr → addr < block.addr + block.size →
      mem' addr = mem addr) : block.Tagged mem' := by
  have size_ge := tagged.size_ge
  refine ⟨tagged.size_ge, tagged.size_mod, ?_, ?_, ?_⟩
  · rw [← tagged.header]
    exact ByteMemory.read32_congr fun addr lower upper => head_agree addr lower (by omega)
  · rw [← tagged.flags]
    exact kheapAllocated_congr fun addr lower upper => head_agree addr (by omega) (by omega)
  · refine Eq.trans ?_ tagged.footer
    exact ByteMemory.read32_congr fun addr lower upper => foot_agree addr lower (by omega)

/-- Tagged blocks tile an interval. -/
structure Tagged (mem : ByteMemory) (start : ℕ) (blocks : List KheapBlock) (stop : ℕ) :
    Prop where
  tiles : Tiles start blocks stop
  tagged : ∀ block ∈ blocks, block.Tagged mem

namespace Tagged

variable {mem mem' : ByteMemory} {start stop : ℕ} {blocks before after : List KheapBlock}
  {block left right : KheapBlock}

theorem congr (tags : Tagged mem start blocks stop)
    (head_agree : ∀ block ∈ blocks, ∀ addr, block.addr ≤ addr → addr < block.addr + 8 →
      mem' addr = mem addr)
    (foot_agree : ∀ block ∈ blocks, ∀ addr, block.addr + block.size - 4 ≤ addr →
      addr < block.addr + block.size → mem' addr = mem addr) :
    Tagged mem' start blocks stop :=
  ⟨tags.tiles, fun block member =>
    (tags.tagged block member).congr (head_agree block member) (foot_agree block member)⟩

/-- Replace consecutive blocks when memory only changes inside the interval they tile. -/
theorem replace {arc arc' : List KheapBlock} {low high : ℕ}
    (tags : Tagged mem start (before ++ arc ++ after) stop)
    (arc_tiles : Tiles low arc high) (arc_nonempty : arc ≠ [])
    (arc_tags : Tagged mem' low arc' high)
    (outside : ∀ addr, addr < low ∨ high ≤ addr → mem' addr = mem addr) :
    Tagged mem' start (before ++ arc' ++ after) stop := by
  obtain ⟨tiles, tagged⟩ := tags
  rw [List.append_assoc, tiles_append] at tiles
  obtain ⟨low', before_tiles, rest_tiles⟩ := tiles
  rw [tiles_append] at rest_tiles
  obtain ⟨high', arc_tiles', after_tiles⟩ := rest_tiles
  have low_eq : low' = low := by
    cases arc with
    | nil => exact absurd rfl arc_nonempty
    | cons first rest => exact arc_tiles'.1.symm.trans arc_tiles.1
  subst low_eq
  obtain rfl : high' = high := arc_tiles'.stop_unique arc_tiles
  have unchanged (block : KheapBlock) (member : block ∈ before ∨ block ∈ after) :
      block.Tagged mem' := by
    have apart : block.addr + block.size ≤ low' ∨ high' ≤ block.addr := by
      rcases member with member | member
      · exact Or.inl (before_tiles.bounds member).2
      · exact Or.inr (after_tiles.bounds member).1
    have block_tagged : block.Tagged mem := tagged block (by
      simp only [List.mem_append]
      tauto)
    have size_ge := block_tagged.size_ge
    exact block_tagged.congr (fun addr lower upper => outside addr (by omega))
      fun addr lower upper => outside addr (by omega)
  refine ⟨?_, ?_⟩
  · rw [List.append_assoc, tiles_append]
    exact ⟨low', before_tiles, tiles_append.mpr ⟨high', arc_tags.tiles, after_tiles⟩⟩
  · intro block member
    simp only [List.mem_append] at member
    rcases member with (member | member) | member
    · exact unchanged block (Or.inl member)
    · exact arc_tags.tagged block member
    · exact unchanged block (Or.inr member)

theorem addr_mod (tags : Tagged mem start blocks stop) (start_mod : start % 4 = 0)
    (member : block ∈ blocks) : block.addr % 4 = 0 := by
  obtain ⟨tiles, tagged⟩ := tags
  induction blocks generalizing start with
  | nil => simp at member
  | cons first blocks induction =>
      have first_mod := (tagged first (by simp)).size_mod
      rcases List.mem_cons.mp member with rfl | member
      · rw [tiles.1]
        exact start_mod
      · exact induction (by omega) member tiles.2 fun other other_mem =>
          tagged other (by simp [other_mem])

end Tagged

/-! ## Flag words -/

private theorem and_one_bne (value : ℕ) : (value &&& 1 != 0) = decide (value % 2 = 1) := by
  rw [Nat.and_one_is_mod]
  rcases Nat.mod_two_eq_zero_or_one value with parity | parity <;> simp [parity]

theorem kheapAllocated_kheapSetAlloc (mem : ByteMemory) (hdr : ℕ) :
    kheapAllocated (kheapSetAlloc mem hdr) hdr = true := by
  have bounded : mem.read32 (hdr + 4) ||| 1 < 2 ^ 32 :=
    Nat.or_lt_two_pow (mem.read32_lt _) (by decide)
  rw [kheapAllocated, kheapSetAlloc, ByteMemory.read32_write32_of_lt _ _ bounded, and_one_bne,
    decide_eq_true_eq, ← Nat.pow_one 2, Nat.or_mod_two_pow]
  rcases Nat.mod_two_eq_zero_or_one (mem.read32 (hdr + 4)) with parity | parity <;> simp [parity]

theorem kheapAllocated_kheapClearAlloc (mem : ByteMemory) (hdr : ℕ) :
    kheapAllocated (kheapClearAlloc mem hdr) hdr = false := by
  have bounded : mem.read32 (hdr + 4) &&& 0xFFFFFFFE < 2 ^ 32 :=
    Nat.lt_of_le_of_lt Nat.and_le_left (mem.read32_lt _)
  rw [kheapAllocated, kheapClearAlloc, ByteMemory.read32_write32_of_lt _ _ bounded, and_one_bne,
    decide_eq_false_iff_not, ← Nat.pow_one 2, Nat.and_mod_two_pow]
  simp

theorem kheapSetAlloc_of_outside {mem : ByteMemory} {hdr addr : ℕ}
    (outside : addr < hdr + 4 ∨ hdr + 8 ≤ addr) : kheapSetAlloc mem hdr addr = mem addr :=
  ByteMemory.write32_of_outside (by omega)

theorem kheapClearAlloc_of_outside {mem : ByteMemory} {hdr addr : ℕ}
    (outside : addr < hdr + 4 ∨ hdr + 8 ≤ addr) : kheapClearAlloc mem hdr addr = mem addr :=
  ByteMemory.write32_of_outside (by omega)

namespace Tagged

variable {mem mem' : ByteMemory} {start stop : ℕ} {blocks before after : List KheapBlock}
  {block left right : KheapBlock}

/-- Change the flag word of one block. -/
private theorem setFlags {free : Bool} (tags : Tagged mem start (before ++ block :: after) stop)
    (outside : ∀ addr, addr < block.addr + 4 ∨ block.addr + 8 ≤ addr → mem' addr = mem addr)
    (flags : kheapAllocated mem' block.addr = !free) :
    Tagged mem' start (before ++ { block with free := free } :: after) stop := by
  have block_tagged := tags.tagged block (by simp)
  have size_ge := block_tagged.size_ge
  have arc_tags : Tagged mem' block.addr [{ block with free := free }]
      (block.addr + block.size) := by
    refine ⟨⟨rfl, rfl⟩, ?_⟩
    intro other member
    obtain rfl := List.mem_singleton.mp member
    refine ⟨size_ge, block_tagged.size_mod, ?_, flags, ?_⟩
    · refine Eq.trans ?_ block_tagged.header
      apply ByteMemory.read32_congr
      intro addr lower upper
      exact outside addr (by dsimp only at upper; omega)
    · refine Eq.trans ?_ block_tagged.footer
      apply ByteMemory.read32_congr
      intro addr lower upper
      exact outside addr (by dsimp only at lower; omega)
  have replaced := Tagged.replace
    (by simpa using tags : Tagged mem start (before ++ [block] ++ after) stop)
    ⟨rfl, rfl⟩ (by simp)
    arc_tags fun addr apart => outside addr (by omega)
  simpa using replaced

theorem setAlloc (tags : Tagged mem start (before ++ block :: after) stop) :
    Tagged (kheapSetAlloc mem block.addr) start (before ++ { block with free := false } :: after)
      stop :=
  tags.setFlags (fun _ => kheapSetAlloc_of_outside) (kheapAllocated_kheapSetAlloc _ _)

theorem clearAlloc (tags : Tagged mem start (before ++ block :: after) stop) :
    Tagged (kheapClearAlloc mem block.addr) start (before ++ { block with free := true } :: after)
      stop :=
  tags.setFlags (fun _ => kheapClearAlloc_of_outside) (kheapAllocated_kheapClearAlloc _ _)

/-! ## Coalescing and splitting -/

/-- The addresses of two adjacent blocks. -/
theorem adjacent (tags : Tagged mem start (before ++ left :: right :: after) stop) :
    right.addr = left.addr + left.size := by
  have tiles := tags.tiles
  rw [tiles_append] at tiles
  obtain ⟨middle, _, left_addr, right_addr, _⟩ := tiles
  omega

theorem kheapMerge_of_outside (left_tagged : left.Tagged mem) (right_tagged : right.Tagged mem)
    (right_addr : right.addr = left.addr + left.size) {addr : ℕ}
    (left_outside : addr < left.addr ∨ left.addr + 4 ≤ addr)
    (right_outside : addr < right.addr + right.size - 4 ∨ right.addr + right.size ≤ addr) :
    kheapMerge mem left.addr right.addr addr = mem addr := by
  have left_ge := left_tagged.size_ge
  have right_ge := right_tagged.size_ge
  have right_header : (mem.write32 left.addr (left.size + right.size)).read32 right.addr =
      right.size := by
    rw [ByteMemory.read32_write32_of_disjoint (by omega), right_tagged.header]
  simp only [kheapMerge, kheapFooterSize, left_tagged.header, right_tagged.header, right_header]
  rw [ByteMemory.write32_of_outside (by omega), ByteMemory.write32_of_outside (by omega)]

/-- Merging two adjacent blocks yields the block over both. -/
theorem merge (tags : Tagged mem start (before ++ left :: right :: after) stop)
    (stop_lt : stop < 2 ^ 32) :
    Tagged (kheapMerge mem left.addr right.addr) start
      (before ++ { left with size := left.size + right.size } :: after) stop := by
  have left_tagged := tags.tagged left (by simp)
  have right_tagged := tags.tagged right (by simp)
  have right_addr := tags.adjacent
  have right_bounds := tags.tiles.bounds (by simp : right ∈ _)
  have left_ge := left_tagged.size_ge
  have right_ge := right_tagged.size_ge
  have left_mod := left_tagged.size_mod
  have right_mod := right_tagged.size_mod
  have right_header : (mem.write32 left.addr (left.size + right.size)).read32 right.addr =
      right.size := by
    rw [ByteMemory.read32_write32_of_disjoint (by omega), right_tagged.header]
  have left_header : (mem.write32 left.addr (left.size + right.size)).read32 left.addr =
      left.size + right.size := ByteMemory.read32_write32_of_lt _ _ (by omega)
  have arc_tags : Tagged (kheapMerge mem left.addr right.addr) left.addr
      [{ left with size := left.size + right.size }] (left.addr + (left.size + right.size)) := by
    refine ⟨⟨rfl, rfl⟩, ?_⟩
    intro other member
    obtain rfl := List.mem_singleton.mp member
    refine ⟨by simp only; omega, by simp only; omega, ?_, ?_, ?_⟩
    · simp only [kheapMerge, kheapFooterSize, left_tagged.header, right_tagged.header, right_header,
        left_header]
      rw [ByteMemory.read32_write32_of_disjoint (by omega), left_header]
    · refine Eq.trans ?_ left_tagged.flags
      apply kheapAllocated_congr
      intro addr lower upper
      dsimp only at lower upper
      exact kheapMerge_of_outside left_tagged right_tagged right_addr (by omega) (by omega)
    · simp only [kheapMerge, kheapFooterSize, left_tagged.header, right_tagged.header, right_header,
        left_header]
      rw [show left.addr + (left.size + right.size) - 4 = right.addr + right.size - 4 by omega]
      exact ByteMemory.read32_write32_of_lt _ _ (by omega)
  have arc_tiles : Tiles left.addr [left, right] (left.addr + (left.size + right.size)) :=
    ⟨rfl, right_addr, Nat.add_assoc _ _ _⟩
  have replaced := Tagged.replace
    (by simpa using tags : Tagged mem start (before ++ [left, right] ++ after) stop) arc_tiles
    (by simp)
    arc_tags fun addr apart =>
      kheapMerge_of_outside left_tagged right_tagged right_addr (by omega) (by omega)
  simpa using replaced

theorem kheapSplit_of_outside {hdr blockSize remaining addr : ℕ} (size_ge : 24 ≤ blockSize)
    (remaining_ge : 24 ≤ remaining) (head_outside : addr < hdr ∨ hdr + 8 ≤ addr)
    (middle_outside : addr < hdr + blockSize - 4 ∨ hdr + blockSize + 8 ≤ addr)
    (foot_outside : addr < hdr + blockSize + remaining - 4 ∨
      hdr + blockSize + remaining ≤ addr) :
    kheapSplit mem hdr blockSize remaining addr = mem addr := by
  simp only [kheapSplit, kheapFooterSize]
  rw [ByteMemory.write32_of_outside (by omega), ByteMemory.write32_of_outside (by omega),
    kheapClearAlloc_of_outside (by omega), ByteMemory.write32_of_outside (by omega),
    ByteMemory.write32_of_outside (by omega), kheapSetAlloc_of_outside (by omega)]

/-- Splitting a block yields an allocated block and a free remainder. -/
theorem split {blockSize remaining : ℕ}
    (tags : Tagged mem start (before ++ block :: after) stop) (stop_lt : stop < 2 ^ 32)
    (size_eq : block.size = blockSize + remaining) (size_ge : 24 ≤ blockSize)
    (remaining_ge : 24 ≤ remaining) (size_mod : blockSize % 4 = 0) :
    Tagged (kheapSplit mem block.addr blockSize remaining) start
      (before ++ ⟨block.addr, blockSize, false⟩ ::
        ⟨block.addr + blockSize, remaining, true⟩ :: after) stop := by
  have block_mod := (tags.tagged block (by simp)).size_mod
  have bounds := tags.tiles.bounds (by simp : block ∈ _)
  have free_hdr : block.addr + blockSize - 4 + 4 = block.addr + blockSize := by omega
  have arc_tags : Tagged (kheapSplit mem block.addr blockSize remaining) block.addr
      [⟨block.addr, blockSize, false⟩, ⟨block.addr + blockSize, remaining, true⟩]
      (block.addr + block.size) := by
    refine ⟨⟨rfl, rfl, by simp only [Tiles]; omega⟩, ?_⟩
    intro other member
    rcases List.mem_cons.mp member with rfl | member
    · refine ⟨size_ge, size_mod, ?_, ?_, ?_⟩
      · simp only [kheapSplit, kheapFooterSize, free_hdr, kheapClearAlloc]
        rw [ByteMemory.read32_write32_of_disjoint (by omega),
          ByteMemory.read32_write32_of_disjoint (by omega),
          ByteMemory.read32_write32_of_disjoint (by omega),
          ByteMemory.read32_write32_of_disjoint (by omega),
          ByteMemory.read32_write32_of_lt _ _ (by omega)]
      · refine Eq.trans ?_ (kheapAllocated_kheapSetAlloc mem block.addr)
        apply kheapAllocated_congr
        intro addr lower upper
        dsimp only at lower upper
        simp only [kheapSplit, kheapFooterSize, free_hdr]
        rw [ByteMemory.write32_of_outside (by omega), ByteMemory.write32_of_outside (by omega),
          kheapClearAlloc_of_outside (by omega), ByteMemory.write32_of_outside (by omega),
          ByteMemory.write32_of_outside (by omega)]
      · simp only [kheapSplit, kheapFooterSize, free_hdr, kheapClearAlloc]
        rw [ByteMemory.read32_write32_of_disjoint (by omega),
          ByteMemory.read32_write32_of_disjoint (by omega),
          ByteMemory.read32_write32_of_disjoint (by omega),
          ByteMemory.read32_write32_of_lt _ _ (by omega)]
    · obtain rfl := List.mem_singleton.mp member
      refine ⟨remaining_ge, by simp only; omega, ?_, ?_, ?_⟩
      · simp only [kheapSplit, kheapFooterSize, free_hdr]
        rw [ByteMemory.read32_write32_of_disjoint (by omega),
          ByteMemory.read32_write32_of_lt _ _ (by omega)]
      · simp only [kheapSplit, kheapFooterSize, free_hdr, Bool.not_true]
        refine Eq.trans ?_ (kheapAllocated_kheapClearAlloc
          (((kheapSetAlloc mem block.addr).write32 block.addr blockSize).write32
            (block.addr + blockSize - 4) blockSize) (block.addr + blockSize))
        apply kheapAllocated_congr
        intro addr lower upper
        rw [ByteMemory.write32_of_outside (by omega), ByteMemory.write32_of_outside (by omega)]
      · simp only [kheapSplit, kheapFooterSize, free_hdr]
        exact ByteMemory.read32_write32_of_lt _ _ (by omega)
  have replaced := Tagged.replace
    (by simpa using tags : Tagged mem start (before ++ [block] ++ after) stop)
    ⟨rfl, rfl⟩ (by simp)
    arc_tags fun addr apart =>
      kheapSplit_of_outside size_ge remaining_ge (by omega) (by omega) (by omega)
  simpa using replaced

/-- Link rewrites of nodes that avoid all tags keep the blocks. -/
theorem rewrites {touched : Set ℕ} (tags : Tagged mem start blocks stop)
    (rewrites : wordNodes.Rewrites touched mem mem')
    (avoid : ∀ node ∈ touched, ∀ block ∈ blocks,
      (node + 8 ≤ block.addr ∨ block.addr + 8 ≤ node) ∧
        (node + 8 ≤ block.addr + block.size - 4 ∨ block.addr + block.size ≤ node)) :
    Tagged mem' start blocks stop := by
  induction rewrites with
  | refl => exact tags
  | setNext _ touched_mem induction =>
      refine induction.congr ?_ ?_
      all_goals
        intro block member addr lower upper
        have apart := avoid _ touched_mem block member
        exact ByteMemory.write32_of_outside (by omega)
  | setPrev _ touched_mem induction =>
      refine induction.congr ?_ ?_
      all_goals
        intro block member addr lower upper
        have apart := avoid _ touched_mem block member
        exact ByteMemory.write32_of_outside (by omega)

end Tagged

/-- Link rewrites leave every byte outside the rewritten nodes alone. -/
theorem byte_eq_of_rewrites {touched : Set ℕ} {mem mem' : ByteMemory} {addr : ℕ}
    (rewrites : wordNodes.Rewrites touched mem mem')
    (outside : ∀ node ∈ touched, addr < node ∨ node + 8 ≤ addr) : mem' addr = mem addr := by
  induction rewrites with
  | refl => rfl
  | setNext _ touched_mem induction =>
      have apart := outside _ touched_mem
      refine Eq.trans ?_ induction
      exact ByteMemory.write32_of_outside (by omega)
  | setPrev _ touched_mem induction =>
      have apart := outside _ touched_mem
      refine Eq.trans ?_ induction
      exact ByteMemory.write32_of_outside (by omega)

end ItWorksOS
