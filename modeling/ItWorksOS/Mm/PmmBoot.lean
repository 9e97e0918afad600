import ItWorksOS.Mm.PmmOwnership

/-!
# What `pmm_init` makes of a boot memory map

The frames that are free after `pmm_init`, for any map. From it follow the exact free set, the
frames of overlapping and disabled entries, and where the bitmap lies.
-/

namespace ItWorksOS

/-! ## The free frames -/

/-- `pmm_init` clears the bit of the frame for the entry. -/
def BootMemMapEntry.Frees (entry : BootMemMapEntry) (frame : ℕ) : Prop :=
  entry.type = bootTypeUsable ∧
    pmmAddrToFrame (alignUp 64 entry.base pmmFrameSize) ≤ frame ∧
    frame < pmmAddrToFrame (alignDown entry.finish pmmFrameSize)

instance (entry : BootMemMapEntry) (frame : ℕ) : Decidable (entry.Frees frame) :=
  inferInstanceAs (Decidable (_ ∧ _ ∧ _))

/-- Number of frames up to the highest usable address, in the 32 bits of `total_frames`. -/
def pmmFrameCount (map : List BootMemMapEntry) : ℕ :=
  alignUp 64 (pmmMaxAddr map) pmmFrameSize / pmmFrameSize % 2 ^ 32

/-- Physical address of the bitmap. -/
abbrev pmmStorage (kernelEnd : ℕ) : ℕ := kernelEnd - kernelVirtOffset

/-- A frame of the bitmap outside the first MiB, the kernel image and the reserved storage. -/
structure PmmOpen (kernelStart kernelEnd : ℕ) (map : List BootMemMapEntry) (frame : ℕ) : Prop where
  below : frame < pmmFrameCount map
  above : 256 ≤ frame
  image : ¬ FrameMeets frame (kernelStart - kernelVirtOffset) (pmmStorage kernelEnd)
  storage : ¬ FrameMeets frame (pmmStorage kernelEnd)
    (pmmStorage kernelEnd + (pmmFrameCount map + 7) % 2 ^ 32 / 8)

theorem bitmapTest_pmmFreeEntry_frees (entry : BootMemMapEntry) (bm : Bitmap) (frame : ℕ) :
    bitmapTest (pmmFreeEntry bm entry) frame = true ↔
      ¬ entry.Frees frame ∧ bitmapTest bm frame = true := by
  by_cases usable : entry.type = bootTypeUsable
  · rw [pmmFreeEntry, if_neg (not_not_intro usable), bitmapTest_bitmapClearRange, Bool.and_eq_true,
      Bool.not_eq_true', decide_eq_false_iff_not, BootMemMapEntry.Frees]
    refine and_congr_left fun _ => not_congr ?_
    simp only [usable, true_and]
    omega
  · rw [pmmFreeEntry, if_pos usable]
    simp [BootMemMapEntry.Frees, usable]

theorem bitmapTest_foldl_frees (map : List BootMemMapEntry) (bm : Bitmap) (frame : ℕ) :
    bitmapTest (map.foldl pmmFreeEntry bm) frame = true ↔
      (∀ entry ∈ map, ¬ entry.Frees frame) ∧ bitmapTest bm frame = true := by
  induction map generalizing bm with
  | nil => simp
  | cons entry map induction =>
      rw [List.foldl_cons, induction (pmmFreeEntry bm entry), bitmapTest_pmmFreeEntry_frees,
        List.forall_mem_cons]
      tauto

section Init

variable {data : ℕ → BitVec 32} {kernelStart kernelEnd : ℕ} {map : List BootMemMapEntry}
  {pmm : Pmm}

theorem totalFrames_of_pmmInit (init : pmmInit data kernelStart kernelEnd map = .ok pmm) :
    pmm.totalFrames = pmmFrameCount map := by
  simp only [pmmInit] at init
  split at init
  · cases init
  · obtain rfl := Except.ok.inj init
    rfl

theorem exists_pmmInit (data : ℕ → BitVec 32) (kernelStart kernelEnd : ℕ) (nonempty : map ≠ []) :
    ∃ pmm, pmmInit data kernelStart kernelEnd map = .ok pmm := by
  rw [pmmInit, if_neg nonempty]
  exact ⟨_, rfl⟩

/-- The free frames after `pmm_init`, for any memory map. -/
theorem free_pmmInit_iff (init : pmmInit data kernelStart kernelEnd map = .ok pmm)
    (image : KernelImage kernelStart kernelEnd) {frame : ℕ} (below : frame < pmm.totalFrames) :
    ¬ pmm.Marked frame ↔ PmmOpen kernelStart kernelEnd map frame ∧
      ∃ entry ∈ map, entry.Frees frame := by
  have total_eq := totalFrames_of_pmmInit init
  rw [marked_pmmInit init image below, bitmapTest_foldl_frees, bitmapTest_bitmapSetRange]
  simp only [Nat.zero_le, below, Nat.zero_add, and_self, decide_true, Bool.true_or, and_true]
  constructor
  · intro free
    simp only [not_or, not_forall, not_not] at free
    obtain ⟨above, image, storage, entry, member, frees⟩ := free
    exact ⟨⟨total_eq ▸ below, by omega, image, total_eq ▸ storage⟩, entry, member, frees⟩
  · rintro ⟨⟨-, above, image, storage⟩, entry, member, frees⟩
    rw [← total_eq] at storage
    rintro (first | in_image | in_storage | kept)
    · omega
    · exact image in_image
    · exact storage in_storage
    · exact kept entry member frees

theorem bitmapTest_pmmForceReserveRange_of_le {total : ℕ} (bm : Bitmap) (startFrame count : ℕ)
    {frame : ℕ} (beyond : total ≤ frame) :
    bitmapTest (pmmForceReserveRange total bm startFrame count) frame = bitmapTest bm frame := by
  induction count with
  | zero => rfl
  | succ count induction =>
      simp only [pmmForceReserveRange]
      split_ifs with inside
      · rw [bitmapTest_bitmapSet, decide_eq_false (by omega), Bool.false_or, induction]
      · exact induction

/-- The bits that do not represent a frame: `pmm_init` clears those for which an entry frees one. -/
theorem bitmapTest_pmmInit_of_le (init : pmmInit data kernelStart kernelEnd map = .ok pmm)
    {frame : ℕ} (beyond : pmm.totalFrames ≤ frame) :
    bitmapTest pmm.bm frame = true ↔ (∀ entry ∈ map, ¬ entry.Frees frame) ∧
      bitmapTest { data := data, nbits := pmm.totalFrames } frame = true := by
  simp only [pmmInit] at init
  split at init
  · cases init
  · obtain rfl := Except.ok.inj init
    simp only at beyond ⊢
    rw [bitmapTest_pmmForceReserveRange_of_le _ _ _ beyond,
      bitmapTest_pmmForceReserveRange_of_le _ _ _ beyond,
      bitmapTest_pmmForceReserveRange_of_le _ _ _ beyond, bitmapTest_foldl_frees,
      bitmapTest_bitmapSetRange, decide_eq_false (by omega), Bool.false_or]

end Init

/-! ## The exact free set -/

/-- Highest end of a usable entry. -/
def usableEnd : List BootMemMapEntry → ℕ
  | [] => 0
  | entry :: map =>
      if entry.type = bootTypeUsable then Nat.max (entry.base + entry.length) (usableEnd map)
      else usableEnd map

/-- Number of frames up to the highest end of a usable entry. -/
def usableFrames (map : List BootMemMapEntry) : ℕ := (usableEnd map + 4095) / 4096

/-- Physical address of a word of the bitmap, which lies at a 32-bit virtual address. -/
def bitmapWordPhys (kernelEnd word : ℕ) : ℕ := kernelSymbolPhys ((kernelEnd + 4 * word) % 2 ^ 32)

/-- The frame holds bits of the bitmap. -/
def FrameOfBitmap (kernelEnd : ℕ) (map : List BootMemMapEntry) (frame : ℕ) : Prop :=
  FrameMeets frame (pmmStorage kernelEnd) (pmmStorage kernelEnd + (usableFrames map + 7) / 8)

/-- The bitmap represents the frames up to the end of usable memory. Free are those in usable memory
and outside the first MiB, the kernel image and the bitmap, and they are counted. No bit beyond is
written, and the words of the bitmap lie in reserved frames. -/
structure PmmInitExact (data : ℕ → BitVec 32) (kernelStart kernelEnd : ℕ)
    (map : List BootMemMapEntry) (pmm : Pmm) : Prop where
  total : pmm.totalFrames = usableFrames map
  free : ∀ frame < pmm.totalFrames, ¬ pmm.Marked frame ↔
    (∃ entry ∈ map, entry.Covers frame) ∧ 256 ≤ frame ∧
      ¬ FrameMeets frame (kernelStart - kernelVirtOffset) (pmmStorage kernelEnd) ∧
      ¬ FrameOfBitmap kernelEnd map frame
  counted : pmm.freeFrames = pmm.freeSet.card
  beyond : ∀ frame, pmm.totalFrames ≤ frame →
    bitmapTest pmm.bm frame = bitmapTest { data := data, nbits := pmm.totalFrames } frame
  words : ∀ frame < pmm.totalFrames, ∃ holder,
    holder * 4096 ≤ bitmapWordPhys kernelEnd (frame / 32) ∧
    bitmapWordPhys kernelEnd (frame / 32) + 4 ≤ holder * 4096 + 4096 ∧
    holder < pmm.totalFrames ∧ pmm.Marked holder

section Exact

variable {data : ℕ → BitVec 32} {kernelStart kernelEnd : ℕ} {map : List BootMemMapEntry}
  {pmm : Pmm}

theorem le_usableEnd {entry : BootMemMapEntry} (member : entry ∈ map)
    (usable : entry.type = bootTypeUsable) : entry.base + entry.length ≤ usableEnd map := by
  induction map with
  | nil => cases member
  | cons first map induction =>
      rw [usableEnd]
      rcases List.mem_cons.mp member with rfl | later
      · rw [if_pos usable]
        exact Nat.le_max_left ..
      · have inner := induction later
        split_ifs
        · exact inner.trans (Nat.le_max_right ..)
        · exact inner

theorem usableEnd_lt {limit : ℕ} (positive : 0 < limit)
    (bounded : ∀ entry ∈ map, entry.base + entry.length < limit) : usableEnd map < limit := by
  induction map with
  | nil => exact positive
  | cons entry map induction =>
      rw [List.forall_mem_cons] at bounded
      rw [usableEnd]
      split_ifs
      · exact Nat.max_lt.mpr ⟨bounded.1, induction bounded.2⟩
      · exact induction bounded.2

theorem pmmMaxAddr_eq (bounded : ∀ entry ∈ map, entry.base + entry.length < 2 ^ 64) :
    pmmMaxAddr map = usableEnd map := by
  have folded (highest : ℕ) : map.foldl (fun highest entry =>
      if entry.type ≠ bootTypeUsable then highest
      else if highest < entry.finish then entry.finish else highest) highest =
        Nat.max highest (usableEnd map) := by
    induction map generalizing highest with
    | nil => exact (Nat.max_zero highest).symm
    | cons entry map induction =>
        rw [List.forall_mem_cons] at bounded
        have finish_eq : entry.finish = entry.base + entry.length := Nat.mod_eq_of_lt bounded.1
        rw [List.foldl_cons, induction bounded.2, usableEnd, finish_eq]
        by_cases usable : entry.type = bootTypeUsable
        · rw [if_neg (not_not_intro usable), if_pos usable]
          split_ifs <;> simp only [Nat.max_def] <;> split_ifs <;> omega
        · rw [if_pos usable, if_neg usable]
  exact (folded 0).trans (Nat.zero_max _)

/-- Below the last page of the 44-bit addresses the frames of an entry are not truncated. -/
theorem covers_iff_frees {entry : BootMemMapEntry} (frame : ℕ)
    (bound : entry.type = bootTypeUsable → entry.base + entry.length ≤ 2 ^ 44 - 4096) :
    entry.Covers frame ↔ entry.Frees frame := by
  refine and_congr_right fun usable => ?_
  have finish_le := bound usable
  simp only [BootMemMapEntry.finish, pmmAddrToFrame, alignUp, alignDown, pmmFrameSize]
  omega

theorem pmmFrameCount_eq (bounded : ∀ entry ∈ map, entry.base + entry.length < 2 ^ 44) :
    pmmFrameCount map = if usableEnd map ≤ 2 ^ 44 - 4096 then usableFrames map else 0 := by
  have end_lt := usableEnd_lt (by decide) bounded
  rw [pmmFrameCount, pmmMaxAddr_eq fun entry member => (bounded entry member).trans (by decide)]
  simp only [usableFrames, alignUp, alignDown, pmmFrameSize]
  split_ifs <;> omega

/-- A word of the bitmap starts with the bytes of its bits, unless the addresses of the bitmap wrap.
-/
theorem bitmapWordPhys_eq (image : KernelImage kernelStart kernelEnd) {word : ℕ}
    (small : word < 2 ^ 27) : bitmapWordPhys kernelEnd word =
      if kernelEnd + 4 * word < 2 ^ 32 then pmmStorage kernelEnd + 4 * word
      else kernelEnd + 4 * word - 2 ^ 32 + (2 ^ 64 - kernelVirtOffset) := by
  have := image.start_ge
  have := image.ordered
  have := image.end_lt
  simp only [bitmapWordPhys, kernelSymbolPhys, pmmStorage, kernelVirtOffset] at *
  split_ifs <;> omega

/-- The map of a system whose frames have 32-bit numbers. -/
structure PmmFramed (map : List BootMemMapEntry) : Prop where
  below : ∀ entry ∈ map, entry.base + entry.length < 2 ^ 44
  numbered : usableEnd map ≤ 2 ^ 44 - 4096

theorem PmmFramed.frameCount (framed : PmmFramed map) : pmmFrameCount map = usableFrames map := by
  rw [pmmFrameCount_eq framed.below, if_pos framed.numbered]

theorem PmmFramed.covers_iff (framed : PmmFramed map) {entry : BootMemMapEntry}
    (member : entry ∈ map) (frame : ℕ) : entry.Covers frame ↔ entry.Frees frame :=
  covers_iff_frees frame fun usable => (le_usableEnd member usable).trans framed.numbered

/-- A frame that an entry frees has a bit. -/
theorem PmmFramed.frees_lt (framed : PmmFramed map) {entry : BootMemMapEntry}
    (member : entry ∈ map) {frame : ℕ} (frees : entry.Frees frame) : frame < usableFrames map := by
  obtain ⟨usable, -, inside⟩ := (framed.covers_iff member frame).mpr frees
  have := le_usableEnd member usable
  rw [usableFrames]
  omega

/-- A frame of the bitmap is not one of the kernel image. -/
theorem not_image_of_storage {low high finish frame : ℕ} (aligned : high % 4096 = 0)
    (storage : FrameMeets frame high finish) : ¬ FrameMeets frame low high := by
  rintro ⟨before, -⟩
  have := storage.2
  omega

theorem not_frameMeets_empty {start frame : ℕ} (aligned : start % 4096 = 0) :
    ¬ FrameMeets frame start start := by
  rintro ⟨before, after⟩
  omega

/-- Free frames are those of the exact free set, unless the size of the bitmap wraps and the map has
usable frames in its storage. -/
theorem PmmFramed.free_iff (framed : PmmFramed map)
    (init : pmmInit data kernelStart kernelEnd map = .ok pmm)
    (image : KernelImage kernelStart kernelEnd) (aligned : kernelEnd % 4096 = 0) :
    (∀ frame < pmm.totalFrames, ¬ pmm.Marked frame ↔
        (∃ entry ∈ map, entry.Covers frame) ∧ 256 ≤ frame ∧
          ¬ FrameMeets frame (kernelStart - kernelVirtOffset) (pmmStorage kernelEnd) ∧
          ¬ FrameOfBitmap kernelEnd map frame) ↔
      (usableEnd map ≤ 2 ^ 44 - 2 ^ 15 ∨ ∀ frame, 256 ≤ frame → FrameOfBitmap kernelEnd map frame →
        ∀ entry ∈ map, ¬ entry.Covers frame) := by
  have storage_aligned : pmmStorage kernelEnd % 4096 = 0 := by
    have := image.start_ge
    have := image.ordered
    simp only [pmmStorage, kernelVirtOffset] at *
    omega
  have total_eq := totalFrames_of_pmmInit init
  have count_eq := framed.frameCount
  have covered (frame : ℕ) : (∃ entry ∈ map, entry.Covers frame) ↔
      ∃ entry ∈ map, entry.Frees frame :=
    exists_congr fun entry => and_congr_right fun member => framed.covers_iff member frame
  rw [total_eq, count_eq]
  constructor
  · intro exactly
    rcases Nat.lt_or_ge (2 ^ 44 - 2 ^ 15) (usableEnd map) with large | small
    · refine .inr fun frame above storage entry member covers => ?_
      have frees := (framed.covers_iff member frame).mp covers
      have below := framed.frees_lt member frees
      have empty : (pmmFrameCount map + 7) % 2 ^ 32 / 8 = 0 := by
        have := framed.numbered
        rw [count_eq, usableFrames]
        omega
      have opened : PmmOpen kernelStart kernelEnd map frame :=
        ⟨count_eq ▸ below, above, not_image_of_storage storage_aligned storage, by
          rw [empty, Nat.add_zero]
          exact not_frameMeets_empty storage_aligned⟩
      have free := (free_pmmInit_iff init image (by rwa [total_eq, count_eq])).mpr
        ⟨opened, entry, member, frees⟩
      exact ((exactly frame below).mp free).2.2.2 storage
    · exact .inl small
  · intro fits frame below
    rw [free_pmmInit_iff init image (by rwa [total_eq, count_eq]), covered]
    constructor
    · rintro ⟨⟨-, above, outside, storage⟩, entry, member, frees⟩
      refine ⟨⟨entry, member, frees⟩, above, outside, fun in_storage => ?_⟩
      rcases fits with small | unused
      · have size : (pmmFrameCount map + 7) % 2 ^ 32 = usableFrames map + 7 := by
          rw [count_eq]
          refine Nat.mod_eq_of_lt ?_
          rw [usableFrames]
          omega
        rw [size] at storage
        exact storage in_storage
      · exact unused frame above in_storage entry member
          ((framed.covers_iff member frame).mpr frees)
    · rintro ⟨frees, above, outside, storage⟩
      refine ⟨⟨count_eq ▸ below, above, outside, fun in_storage => storage ?_⟩, frees⟩
      have size := Nat.mod_le (pmmFrameCount map + 7) (2 ^ 32)
      rw [count_eq] at size in_storage
      exact ⟨in_storage.1.trans_le (by omega), in_storage.2⟩

/-- The words of the bitmap lie in the frames of the bitmap, if its last word lies below the end of
usable memory. -/
theorem PmmFramed.word (framed : PmmFramed map) (image : KernelImage kernelStart kernelEnd)
    (aligned : kernelEnd % 4096 = 0)
    (last : bitmapWordPhys kernelEnd ((usableFrames map - 1) / 32) < usableFrames map * 4096)
    {frame : ℕ} (below : frame < usableFrames map) :
    ∃ holder, holder * 4096 ≤ bitmapWordPhys kernelEnd (frame / 32) ∧
      bitmapWordPhys kernelEnd (frame / 32) + 4 ≤ holder * 4096 + 4096 ∧
      holder < usableFrames map ∧ FrameOfBitmap kernelEnd map holder := by
  have count_lt : usableFrames map < 2 ^ 32 := by
    have := framed.numbered
    rw [usableFrames]
    omega
  have := image.start_ge
  have := image.ordered
  rw [bitmapWordPhys_eq image (by omega)] at last ⊢
  have whole : kernelEnd + 4 * ((usableFrames map - 1) / 32) < 2 ^ 32 := by
    by_contra wraps
    rw [if_neg wraps] at last
    simp only [kernelVirtOffset] at last
    omega
  rw [if_pos whole] at last
  rw [if_pos (by omega)]
  simp only [FrameOfBitmap, FrameMeets, pmmStorage, kernelVirtOffset] at *
  exact ⟨(kernelEnd - 0xC0000000 + 4 * (frame / 32)) / 4096, by omega, by omega, by omega, by omega,
    by omega⟩

/-- For maps below 2 ^ 44, `pmm_init` is exact if and only if the frames have 32-bit numbers, the
size of the bitmap does not wrap or no frame of it is usable, and the last word of the bitmap lies
below the end of the frames. -/
theorem pmmInit_exact_iff (data : ℕ → BitVec 32) (image : KernelImage kernelStart kernelEnd)
    (aligned : kernelEnd % 4096 = 0) (nonempty : map ≠ [])
    (bounded : ∀ entry ∈ map, entry.base + entry.length < 2 ^ 44) :
    (∃ pmm, pmmInit data kernelStart kernelEnd map = .ok pmm ∧
        PmmInitExact data kernelStart kernelEnd map pmm) ↔
      usableEnd map ≤ 2 ^ 44 - 4096 ∧
        (usableEnd map ≤ 2 ^ 44 - 2 ^ 15 ∨ ∀ frame, 256 ≤ frame →
          FrameOfBitmap kernelEnd map frame → ∀ entry ∈ map, ¬ entry.Covers frame) ∧
        (0 < usableFrames map →
          bitmapWordPhys kernelEnd ((usableFrames map - 1) / 32) < usableFrames map * 4096) := by
  constructor
  · rintro ⟨pmm, init, exactly⟩
    have total_eq := totalFrames_of_pmmInit init
    have numbered : usableEnd map ≤ 2 ^ 44 - 4096 := by
      by_contra above
      have total := exactly.total
      rw [total_eq, pmmFrameCount_eq bounded, if_neg above, usableFrames] at total
      omega
    have framed : PmmFramed map := ⟨bounded, numbered⟩
    rw [framed.frameCount] at total_eq
    refine ⟨numbered, (framed.free_iff init image aligned).mp exactly.free, fun positive => ?_⟩
    obtain ⟨holder, -, inside, below, -⟩ := exactly.words (usableFrames map - 1) (by omega)
    omega
  · rintro ⟨numbered, storage, last⟩
    have framed : PmmFramed map := ⟨bounded, numbered⟩
    obtain ⟨pmm, init⟩ := exists_pmmInit data kernelStart kernelEnd nonempty
    have total_eq := totalFrames_of_pmmInit init
    rw [framed.frameCount] at total_eq
    have free := (framed.free_iff init image aligned).mpr storage
    refine ⟨pmm, init, total_eq, free, (counted_of_pmmInit init).free_eq, fun frame beyond => ?_,
      fun frame below => ?_⟩
    · rw [Bool.eq_iff_iff, bitmapTest_pmmInit_of_le init beyond]
      refine and_iff_right fun entry member frees => ?_
      have := framed.frees_lt member frees
      omega
    · rw [total_eq] at below
      obtain ⟨holder, start, finish, inside, held⟩ :=
        framed.word image aligned (last (by omega)) below
      refine ⟨holder, start, finish, by omega, ?_⟩
      by_contra unmarked
      exact ((free holder (by omega)).mp unmarked).2.2.2 held

/-- The entry of a map with usable memory in one piece. -/
def usableEntry (length : ℕ) : BootMemMapEntry where
  base := 0
  length := length
  type := bootTypeUsable
  attr := 1

theorem pmmInit_exact_sixteen_mib : ∃ pmm,
    pmmInit (fun _ => 0) 0xC0010000 0xC0020000 [usableEntry (2 ^ 24)] = .ok pmm ∧
      PmmInitExact (fun _ => 0) 0xC0010000 0xC0020000 [usableEntry (2 ^ 24)] pmm :=
  (pmmInit_exact_iff (fun _ => 0) ⟨by decide, by decide, by decide⟩ (by decide) (by decide)
    (by decide)).mpr ⟨by decide, .inl (by decide), by decide⟩

/-- With usable memory in the last page below 2 ^ 44 the number of frames wraps to zero. -/
theorem pmmInit_wraps_frames : ¬ ∃ pmm,
    pmmInit (fun _ => 0) 0xC0010000 0xC0020000 [usableEntry (2 ^ 44 - 1)] = .ok pmm ∧
      PmmInitExact (fun _ => 0) 0xC0010000 0xC0020000 [usableEntry (2 ^ 44 - 1)] pmm := by
  rintro ⟨pmm, init, exactly⟩
  have count := totalFrames_of_pmmInit init
  rw [exactly.total] at count
  exact absurd count (by decide)

end Exact

/-! ## Entries that must not be used -/

/-- `BOOT_ATTR_ENABLED`. -/
def bootAttrEnabled : ℕ := 1

/-- The attributes of the entry have the enabled bit set. -/
def BootMemMapEntry.Enabled (entry : BootMemMapEntry) : Prop := entry.attr &&& bootAttrEnabled ≠ 0

instance (entry : BootMemMapEntry) : Decidable entry.Enabled := inferInstanceAs (Decidable (_ ≠ _))

/-- Some byte of the frame lies in the entry. -/
def BootMemMapEntry.Meets (entry : BootMemMapEntry) (frame : ℕ) : Prop :=
  ∃ address, frame * 4096 ≤ address ∧ address < frame * 4096 + 4096 ∧
    entry.base ≤ address ∧ address < entry.base + entry.length

/-- No free frame meets an entry of another type than usable, and each free frame is freed for some
enabled entry. -/
def PmmInitSafe (map : List BootMemMapEntry) (pmm : Pmm) : Prop :=
  ∀ frame < pmm.totalFrames, ¬ pmm.Marked frame →
    (∀ entry ∈ map, entry.type ≠ bootTypeUsable → ¬ entry.Meets frame) ∧
      ∃ entry ∈ map, entry.Enabled ∧ entry.Frees frame

section Safe

variable {data : ℕ → BitVec 32} {kernelStart kernelEnd : ℕ} {map : List BootMemMapEntry}
  {pmm : Pmm}

/-- Unusable and disabled memory stays reserved if and only if, outside the first MiB, the kernel
image and the bitmap, each whole frame of a usable entry meets no entry of another type, and is also
a whole frame of an enabled usable entry. -/
theorem pmmInit_safe_iff (init : pmmInit data kernelStart kernelEnd map = .ok pmm)
    (image : KernelImage kernelStart kernelEnd) :
    PmmInitSafe map pmm ↔ ∀ usable ∈ map, ∀ frame, usable.Frees frame →
      PmmOpen kernelStart kernelEnd map frame →
        (∀ entry ∈ map, entry.type ≠ bootTypeUsable → ¬ entry.Meets frame) ∧
          (¬ usable.Enabled → ∃ entry ∈ map, entry.Enabled ∧ entry.Frees frame) := by
  have total_eq := totalFrames_of_pmmInit init
  constructor
  · intro safe usable member frame frees opened
    have below : frame < pmm.totalFrames := total_eq ▸ opened.below
    have free := (free_pmmInit_iff init image below).mpr ⟨opened, usable, member, frees⟩
    exact ⟨(safe frame below free).1, fun _ => (safe frame below free).2⟩
  · intro apart frame below free
    obtain ⟨opened, usable, member, frees⟩ := (free_pmmInit_iff init image below).mp free
    obtain ⟨clear, otherwise⟩ := apart usable member frame frees opened
    refine ⟨clear, ?_⟩
    by_cases enabled : usable.Enabled
    · exact ⟨usable, member, enabled, frees⟩
    · exact otherwise enabled

end Safe

theorem pmmInit_safe_sixteen_mib : ∃ pmm,
    pmmInit (fun _ => 0) 0xC0010000 0xC0020000 [usableEntry (2 ^ 24)] = .ok pmm ∧
      PmmInitSafe [usableEntry (2 ^ 24)] pmm := by
  obtain ⟨pmm, init⟩ := exists_pmmInit (fun _ => 0) 0xC0010000 0xC0020000
    (List.cons_ne_nil (usableEntry (2 ^ 24)) [])
  refine ⟨pmm, init, (pmmInit_safe_iff init ⟨by decide, by decide, by decide⟩).mpr ?_⟩
  intro usable member frame frees opened
  obtain rfl := List.mem_singleton.mp member
  refine ⟨fun entry member' unusable => ?_, fun disabled => absurd (by decide) disabled⟩
  obtain rfl := List.mem_singleton.mp member'
  exact absurd rfl unusable

/-- A small kernel leaves the frame at 2 MiB open. -/
theorem pmmOpen_two_mib {map : List BootMemMapEntry} (count : pmmFrameCount map = 1024) :
    PmmOpen 0xC0010000 0xC0020000 map 512 := by
  refine ⟨by omega, by omega, ?_, ?_⟩
  · rintro ⟨low, -⟩
    exact absurd low (by decide)
  · rintro ⟨low, -⟩
    rw [count] at low
    exact absurd low (by decide)

/-- A frame with a reserved byte is free, and so are all frames of a disabled entry. -/
theorem pmmInit_frees_unusable :
    (∃ pmm, pmmInit (fun _ => 0) 0xC0010000 0xC0020000
          [usableEntry (2 ^ 22), ⟨2 ^ 21, 1, 2, 1⟩] = .ok pmm ∧
        ¬ PmmInitSafe [usableEntry (2 ^ 22), ⟨2 ^ 21, 1, 2, 1⟩] pmm) ∧
      ∃ pmm, pmmInit (fun _ => 0) 0xC0010000 0xC0020000 [⟨0, 2 ^ 22, 1, 0⟩] = .ok pmm ∧
        ¬ PmmInitSafe [⟨0, 2 ^ 22, 1, 0⟩] pmm := by
  have image : KernelImage 0xC0010000 0xC0020000 := ⟨by decide, by decide, by decide⟩
  constructor
  · obtain ⟨pmm, init⟩ := exists_pmmInit (fun _ => 0) 0xC0010000 0xC0020000
      (List.cons_ne_nil (usableEntry (2 ^ 22)) [⟨2 ^ 21, 1, 2, 1⟩])
    refine ⟨pmm, init, fun safe => ?_⟩
    have below : 512 < pmm.totalFrames := by
      rw [totalFrames_of_pmmInit init]
      decide
    have free := (free_pmmInit_iff init image below).mpr
      ⟨pmmOpen_two_mib (by decide), usableEntry (2 ^ 22), by decide, by decide⟩
    exact (safe 512 below free).1 ⟨2 ^ 21, 1, 2, 1⟩ (by decide) (by decide)
      ⟨2 ^ 21, by decide, by decide, by decide, by decide⟩
  · obtain ⟨pmm, init⟩ := exists_pmmInit (fun _ => 0) 0xC0010000 0xC0020000
      (List.cons_ne_nil (⟨0, 2 ^ 22, 1, 0⟩ : BootMemMapEntry) [])
    refine ⟨pmm, init, fun safe => ?_⟩
    have below : 512 < pmm.totalFrames := by
      rw [totalFrames_of_pmmInit init]
      decide
    have free := (free_pmmInit_iff init image below).mpr
      ⟨pmmOpen_two_mib (by decide), ⟨0, 2 ^ 22, 1, 0⟩, by decide, by decide⟩
    obtain ⟨-, entry, member, enabled, -⟩ := safe 512 below free
    obtain rfl := List.mem_singleton.mp member
    exact absurd rfl enabled

/-! ## Where the bitmap lies -/

/-- The address lies in a usable entry. -/
def UsableAt (map : List BootMemMapEntry) (address : ℕ) : Prop :=
  ∃ entry ∈ map, entry.type = bootTypeUsable ∧ entry.base ≤ address ∧
    address < entry.base + entry.length

instance (map : List BootMemMapEntry) (address : ℕ) : Decidable (UsableAt map address) :=
  inferInstanceAs (Decidable (∃ entry ∈ map, _ ∧ _ ∧ _))

/-- An interval is usable if its first byte is, and each usable entry that ends inside is followed
by another one. -/
theorem usableAt_interval_iff (map : List BootMemMapEntry) (start size : ℕ) :
    (∀ address, start ≤ address → address < start + size → UsableAt map address) ↔
      size = 0 ∨ UsableAt map start ∧ ∀ entry ∈ map, entry.type = bootTypeUsable →
        start ≤ entry.base + entry.length → entry.base + entry.length < start + size →
          UsableAt map (entry.base + entry.length) := by
  constructor
  · intro usable
    rcases Nat.eq_zero_or_pos size with empty | positive
    · exact .inl empty
    · exact .inr ⟨usable start le_rfl (by omega), fun entry _ _ => usable _⟩
  · rintro (empty | ⟨first, followed⟩) address lower upper
    · omega
    · induction address with
      | zero =>
          obtain rfl : start = 0 := by omega
          exact first
      | succ address induction =>
          rcases Nat.eq_or_lt_of_le lower with rfl | later
          · exact first
          · obtain ⟨entry, member, usable, base_le, inside⟩ := induction (by omega) (by omega)
            by_cases longer : address + 1 < entry.base + entry.length
            · exact ⟨entry, member, usable, by omega, longer⟩
            · have ends : entry.base + entry.length = address + 1 := by omega
              rw [← ends]
              exact followed entry member usable (by omega) (by omega)

/-- Every byte of the bitmap lies in usable memory and outside the system image. -/
def PmmBitmapPlaced (kernelEnd systemSize : ℕ) (map : List BootMemMapEntry) (pmm : Pmm) : Prop :=
  ∀ address, kernelSymbolPhys kernelEnd ≤ address →
    address < kernelSymbolPhys kernelEnd + (pmm.totalFrames + 7) / 8 →
      UsableAt map address ∧
        ¬ (systemLoadAddr ≤ address ∧ address < systemLoadAddr + systemSize)

/-- The bitmap is well placed if and only if it has no bit, or the kernel ends in usable memory
which does not end before the bitmap does, and the bitmap ends below the system image or starts
above it. -/
theorem pmmBitmap_placed_iff {data : ℕ → BitVec 32} {kernelStart kernelEnd systemSize : ℕ}
    {map : List BootMemMapEntry} {pmm : Pmm}
    (init : pmmInit data kernelStart kernelEnd map = .ok pmm) :
    PmmBitmapPlaced kernelEnd systemSize map pmm ↔
      pmmFrameCount map = 0 ∨
        (UsableAt map (kernelSymbolPhys kernelEnd) ∧
          ∀ entry ∈ map, entry.type = bootTypeUsable →
            kernelSymbolPhys kernelEnd ≤ entry.base + entry.length →
            entry.base + entry.length < kernelSymbolPhys kernelEnd + (pmmFrameCount map + 7) / 8 →
              UsableAt map (entry.base + entry.length)) ∧
        (systemSize = 0 ∨
          kernelSymbolPhys kernelEnd + (pmmFrameCount map + 7) / 8 ≤ systemLoadAddr ∨
          systemLoadAddr + systemSize ≤ kernelSymbolPhys kernelEnd) := by
  rw [PmmBitmapPlaced, totalFrames_of_pmmInit init]
  obtain ⟨size, size_eq⟩ : ∃ size, (pmmFrameCount map + 7) / 8 = size := ⟨_, rfl⟩
  have empty_iff : pmmFrameCount map = 0 ↔ size = 0 := by omega
  rw [size_eq, empty_iff]
  have interval := usableAt_interval_iff map (kernelSymbolPhys kernelEnd) size
  rcases Nat.eq_zero_or_pos size with rfl | positive
  · exact iff_of_true (fun address lower upper => by omega) (.inl rfl)
  · rw [or_iff_right (by omega)] at interval ⊢
    rw [← interval]
    constructor
    · intro placed
      refine ⟨fun address lower upper => (placed address lower upper).1, ?_⟩
      by_contra overlap
      simp only [not_or, not_le] at overlap
      obtain ⟨some, above, below⟩ := overlap
      rcases Nat.le_total systemLoadAddr (kernelSymbolPhys kernelEnd) with inside | later
      · exact (placed _ le_rfl (by omega)).2 ⟨inside, below⟩
      · exact (placed systemLoadAddr later above).2 ⟨le_rfl, by omega⟩
    · rintro ⟨usable, apart⟩ address lower upper
      refine ⟨usable address lower upper, ?_⟩
      rintro ⟨above, below⟩
      omega

theorem pmmBitmap_placed_sixteen_mib : ∃ pmm,
    pmmInit (fun _ => 0) 0xC0010000 0xC0020000 [usableEntry (2 ^ 24)] = .ok pmm ∧
      PmmBitmapPlaced 0xC0020000 4096 [usableEntry (2 ^ 24)] pmm := by
  obtain ⟨pmm, init⟩ := exists_pmmInit (fun _ => 0) 0xC0010000 0xC0020000
    (List.cons_ne_nil (usableEntry (2 ^ 24)) [])
  exact ⟨pmm, init, (pmmBitmap_placed_iff init).mpr (.inr (by decide))⟩

/-- With 4 GiB of memory the bitmap of a kernel that ends at 0x60000 covers the system image. -/
theorem pmmBitmap_covers_system_image : ∃ pmm,
    pmmInit (fun _ => 0) 0xC0010000 0xC0060000 [usableEntry (2 ^ 32)] = .ok pmm ∧
      ¬ PmmBitmapPlaced 0xC0060000 4096 [usableEntry (2 ^ 32)] pmm := by
  obtain ⟨pmm, init⟩ := exists_pmmInit (fun _ => 0) 0xC0010000 0xC0060000
    (List.cons_ne_nil (usableEntry (2 ^ 32)) [])
  refine ⟨pmm, init, fun placed => ?_⟩
  have count : pmm.totalFrames = 2 ^ 20 := by
    rw [totalFrames_of_pmmInit init]
    decide
  have image := (placed systemLoadAddr (by decide) (by rw [count]; decide)).2
  exact image ⟨le_rfl, by decide⟩

end ItWorksOS
