import ItWorksOS.Kernel.Error
import ItWorksOS.Klib.Bitmap
import ItWorksOS.Mm.Layout

/-!
# Physical memory manager

`pmm.c` keeps one bit per 4 KiB frame, set when the frame is reserved or allocated, and a separate
count of free frames. Frame numbers and counts are 32-bit; physical addresses are 64-bit.
-/

namespace ItWorksOS

/-- `PMM_FRAME_SIZE`. -/
abbrev pmmFrameSize : ℕ := 4096

/-- The static `pmm` record. -/
@[ext] structure Pmm where
  /-- One bit per frame, stored right after the kernel image. -/
  bm : Bitmap
  /-- Highest end address of a usable region. -/
  maxAddr : ℕ
  /-- Number of frames represented by the bitmap. -/
  totalFrames : ℕ
  /-- Number of allocatable frames. -/
  freeFrames : ℕ

/-- `enum pmm_policy`. -/
inductive PmmPolicy where
  | strict
  | fallback
  deriving DecidableEq, Repr

/-- `pmm_addr_to_frame`, with its conversion to 32 bits. -/
def pmmAddrToFrame (addr : ℕ) : ℕ := addr / pmmFrameSize % 2 ^ 32

/-- `pmm_frame_to_addr`. -/
def pmmFrameToAddr (frame : ℕ) : ℕ := frame * pmmFrameSize

/-- `pmm_validate_range`. -/
def pmmValidateRange (pmm : Pmm) (firstFrame pages : ℕ) : Status :=
  if pages = 0 then .error .inval
  else if pmm.totalFrames ≤ firstFrame then .error .inval
  else if pmm.totalFrames - firstFrame < pages then .error .inval
  else .ok ()

/-! ## Allocation -/

/-- The scanning loop of `pmm_alloc` over `count` frames. `consecutive` counts the free frames
immediately before `frame`; the result is the first frame of the run that reaches `pages`. -/
def pmmScan (bm : Bitmap) (pages : ℕ) : ℕ → ℕ → ℕ → Option ℕ
  | 0, _, _ => none
  | count + 1, frame, consecutive =>
      if bitmapTest bm frame then pmmScan bm pages count (frame + 1) 0
      else if consecutive + 1 = pages then some (frame + 1 - pages)
      else pmmScan bm pages count (frame + 1) (consecutive + 1)

/-- First frame that `pmm_alloc` may use for a lower address bound. -/
def pmmStartFrame (min : ℕ) : ℕ :=
  if min ≠ 0 then pmmAddrToFrame (alignUp 64 min pmmFrameSize) else 0

/-- Exclusive last frame that `pmm_alloc` may use for an upper address bound. -/
def pmmMaxFrame (pmm : Pmm) (max : ℕ) : ℕ :=
  Nat.min (if max ≠ 0 then pmmAddrToFrame max else pmm.totalFrames) pmm.totalFrames

/-- The run of frames that `pmm_alloc` selects between two address bounds. -/
def pmmSearch (pmm : Pmm) (min max pages : ℕ) : Option ℕ :=
  if pmmStartFrame min < pmmMaxFrame pmm max then
    pmmScan pmm.bm pages (pmmMaxFrame pmm max - pmmStartFrame min) (pmmStartFrame min) 0
  else
    none

/-- Mark a run as allocated and take it off the free count. -/
def pmmMark (pmm : Pmm) (firstFrame pages : ℕ) : Pmm :=
  { pmm with
    bm := bitmapSetRange pmm.bm firstFrame pages
    freeFrames := (pmm.freeFrames + 2 ^ 32 - pages) % 2 ^ 32 }

/-- `pmm_alloc` under `PMM_POLICY_STRICT`. -/
def pmmAllocStrict (pmm : Pmm) (min max pages : ℕ) : Except KError ℕ × Pmm :=
  if pages = 0 then (.error .inval, pmm)
  else
    match pmmSearch pmm min max pages with
    | some firstFrame => (.ok (pmmFrameToAddr firstFrame), pmmMark pmm firstFrame pages)
    | none => (.error .nomem, pmm)

/-- `pmm_alloc`: the fallback policy retries without bounds. -/
def pmmAlloc (pmm : Pmm) (min max pages : ℕ) (policy : PmmPolicy) : Except KError ℕ × Pmm :=
  if pages = 0 then (.error .inval, pmm)
  else
    match pmmSearch pmm min max pages with
    | some firstFrame => (.ok (pmmFrameToAddr firstFrame), pmmMark pmm firstFrame pages)
    | none =>
        match policy with
        | .strict => (.error .nomem, pmm)
        | .fallback => pmmAllocStrict pmm 0 0 pages

/-- `PMM_ALLOC_LOWMEM`. -/
def pmmAllocLowmem (pmm : Pmm) (pages : ℕ) : Except KError ℕ × Pmm :=
  pmmAlloc pmm 0 kernelLowmemLimit pages .strict

/-- `PMM_ALLOC_ANY`. -/
def pmmAllocAny (pmm : Pmm) (pages : ℕ) : Except KError ℕ × Pmm := pmmAlloc pmm 0 0 pages .strict

/-! ## Release -/

/-- The first loop of `pmm_free`: every frame of the range is allocated. -/
def pmmAllMarked (bm : Bitmap) (firstFrame : ℕ) : ℕ → Bool
  | 0 => true
  | count + 1 => pmmAllMarked bm firstFrame count && bitmapTest bm (firstFrame + count)

/-- Mark a run as free and add it to the free count. -/
def pmmUnmark (pmm : Pmm) (firstFrame pages : ℕ) : Pmm :=
  { pmm with
    bm := bitmapClearRange pmm.bm firstFrame pages
    freeFrames := (pmm.freeFrames + pages) % 2 ^ 32 }

/-- `pmm_free`. -/
def pmmFree (pmm : Pmm) (addr pages : ℕ) : Status × Pmm :=
  if pages = 0 then (.error .inval, pmm)
  else if addr % pmmFrameSize ≠ 0 then (.error .inval, pmm)
  else
    match pmmValidateRange pmm (pmmAddrToFrame addr) pages with
    | .error _ => (.error .inval, pmm)
    | .ok () =>
        if pmmAllMarked pmm.bm (pmmAddrToFrame addr) pages then
          (.ok (), pmmUnmark pmm (pmmAddrToFrame addr) pages)
        else
          (.error .inval, pmm)

/-! ## Initialisation -/

/-- `BOOT_TYPE_USABLE`. -/
abbrev bootTypeUsable : ℕ := 1

/-- `struct boot_mem_map_entry`. -/
structure BootMemMapEntry where
  /-- First physical address. -/
  base : ℕ
  /-- Length in bytes. -/
  length : ℕ
  /-- Kind of region, a 32-bit number from the firmware. -/
  type : ℕ
  /-- ACPI attributes. -/
  attr : ℕ
  deriving DecidableEq, Repr

/-- 64-bit end address of an entry. -/
def BootMemMapEntry.finish (entry : BootMemMapEntry) : ℕ := (entry.base + entry.length) % 2 ^ 64

/-- Highest end address over the usable entries. -/
def pmmMaxAddr (map : List BootMemMapEntry) : ℕ :=
  map.foldl (fun highest entry =>
    if entry.type ≠ bootTypeUsable then highest
    else if highest < entry.finish then entry.finish else highest) 0

/-- Free the whole frames of one map entry. -/
def pmmFreeEntry (bm : Bitmap) (entry : BootMemMapEntry) : Bitmap :=
  if entry.type ≠ bootTypeUsable then bm
  else
    let startFrame := pmmAddrToFrame (alignUp 64 entry.base pmmFrameSize)
    let endFrame := pmmAddrToFrame (alignDown entry.finish pmmFrameSize)
    bitmapClearRange bm startFrame (endFrame - startFrame)

/-- `pmm_force_reserve_range`: reserve the frames of a range that the bitmap represents. -/
def pmmForceReserveRange (totalFrames : ℕ) (bm : Bitmap) (startFrame : ℕ) : ℕ → Bitmap
  | 0 => bm
  | count + 1 =>
      let bm := pmmForceReserveRange totalFrames bm startFrame count
      let frame := (startFrame + count) % 2 ^ 32
      if frame < totalFrames then bitmapSet bm frame else bm

/-- Number of clear bits below a bound. -/
def pmmCountFree (bm : Bitmap) : ℕ → ℕ
  | 0 => 0
  | frames + 1 => pmmCountFree bm frames + if bitmapTest bm frames then 0 else 1

/-- Physical address of a kernel image symbol: `symbol - KERNEL_VIRT_BASE`. -/
def kernelSymbolPhys (symbol : ℕ) : ℕ := (symbol + 2 ^ 64 - kernelVirtOffset) % 2 ^ 64

/-- Frames between two physical addresses, as first frame and 32-bit frame count. -/
def pmmCoveringFrames (start finish : ℕ) : ℕ × ℕ :=
  let startFrame := pmmAddrToFrame (alignDown start pmmFrameSize)
  let endFrame := pmmAddrToFrame (alignUp 64 finish pmmFrameSize)
  (startFrame, (endFrame + 2 ^ 32 - startFrame) % 2 ^ 32)

/-- `pmm_init`. The bitmap words start with the arbitrary contents `data` of the memory behind the
kernel image, whose linker symbols are `kernelStart` and `kernelEnd`. -/
def pmmInit (data : ℕ → BitVec 32) (kernelStart kernelEnd : ℕ) (map : List BootMemMapEntry) :
    Except KError Pmm :=
  if map = [] then .error .inval
  else
    let maxAddr := pmmMaxAddr map
    let totalFrames := alignUp 64 maxAddr pmmFrameSize / pmmFrameSize % 2 ^ 32
    let bm := bitmapSetRange { data := data, nbits := totalFrames } 0 totalFrames
    let bm := map.foldl pmmFreeEntry bm
    let bm := pmmForceReserveRange totalFrames bm 0 (1024 * 1024 / pmmFrameSize)
    let image := pmmCoveringFrames (kernelSymbolPhys kernelStart) (kernelSymbolPhys kernelEnd)
    let bm := pmmForceReserveRange totalFrames bm image.1 image.2
    let bitmapSizeBytes := (totalFrames + 7) % 2 ^ 32 / 8
    let storage := pmmCoveringFrames (kernelSymbolPhys kernelEnd)
      ((kernelSymbolPhys kernelEnd + bitmapSizeBytes) % 2 ^ 64)
    let bm := pmmForceReserveRange totalFrames bm storage.1 storage.2
    .ok
      { bm := bm
        maxAddr := maxAddr
        totalFrames := totalFrames
        freeFrames := pmmCountFree bm totalFrames % 2 ^ 32 }

/-! ## Allocation and release specifications -/

/-- The frame is reserved or allocated. -/
def Pmm.Marked (pmm : Pmm) (frame : ℕ) : Prop := bitmapTest pmm.bm frame = true

instance (pmm : Pmm) (frame : ℕ) : Decidable (pmm.Marked frame) :=
  inferInstanceAs (Decidable (bitmapTest pmm.bm frame = true))

/-- All frames of a run are free. -/
def Pmm.FreeRun (pmm : Pmm) (firstFrame pages : ℕ) : Prop :=
  ∀ frame, firstFrame ≤ frame → frame < firstFrame + pages → ¬ pmm.Marked frame

theorem Pmm.freeRun_iff {pmm : Pmm} {firstFrame pages : ℕ} :
    pmm.FreeRun firstFrame pages ↔ pmm.bm.ClearRun firstFrame pages := by
  simp only [FreeRun, Marked, Bitmap.ClearRun, Bool.not_eq_true]

/-- The scanning loop is the bitmap search. -/
theorem pmmScan_eq (bm : Bitmap) (pages count frame consecutive : ℕ) :
    pmmScan bm pages count frame consecutive =
      bitmapFindRun bm pages count frame consecutive := by
  induction count generalizing frame consecutive with
  | zero => rfl
  | succ count induction => rw [pmmScan, bitmapFindRun, induction, induction]

theorem pmmMaxFrame_le (pmm : Pmm) (max : ℕ) : pmmMaxFrame pmm max ≤ pmm.totalFrames :=
  Nat.min_le_right _ _

theorem pmmMaxFrame_lowmem (pmm : Pmm) :
    pmmMaxFrame pmm kernelLowmemLimit = Nat.min 196608 pmm.totalFrames := by
  simp [pmmMaxFrame, pmmAddrToFrame, kernelLowmemLimit, pmmFrameSize]

theorem pmmSearch_sound {pmm : Pmm} {min max pages firstFrame : ℕ}
    (search : pmmSearch pmm min max pages = some firstFrame) :
    pmmStartFrame min ≤ firstFrame ∧ firstFrame + pages ≤ pmmMaxFrame pmm max ∧
      pmm.FreeRun firstFrame pages := by
  rw [pmmSearch] at search
  split at search
  · rename_i nonempty
    rw [pmmScan_eq] at search
    obtain ⟨lower, upper, free⟩ :=
      bitmapFindRun_sound (by intro frame; omega) (Nat.zero_le _) search
    exact ⟨by omega, by omega, Pmm.freeRun_iff.mpr free⟩
  · contradiction

theorem pmmSearch_complete {pmm : Pmm} {min max pages firstFrame : ℕ} (pages_pos : 0 < pages)
    (search : pmmSearch pmm min max pages = none) (lower : pmmStartFrame min ≤ firstFrame)
    (upper : firstFrame + pages ≤ pmmMaxFrame pmm max) : ¬ pmm.FreeRun firstFrame pages := by
  rw [pmmSearch, if_pos (by omega), pmmScan_eq] at search
  rw [Pmm.freeRun_iff]
  exact bitmapFindRun_complete pages_pos search firstFrame (by omega) (Nat.zero_le _) (by omega)

/-- An allocation fails without effect, or marks a free run below the frame count. -/
theorem pmmAlloc_cases (pmm : Pmm) (min max pages : ℕ) (policy : PmmPolicy) :
    (∃ error, pmmAlloc pmm min max pages policy = (.error error, pmm)) ∨
      ∃ firstFrame, pmmAlloc pmm min max pages policy =
          (.ok (firstFrame * 4096), pmmMark pmm firstFrame pages) ∧
        0 < pages ∧ firstFrame + pages ≤ pmm.totalFrames ∧ pmm.FreeRun firstFrame pages := by
  have found {low high firstFrame : ℕ} (search : pmmSearch pmm low high pages = some firstFrame) :
      firstFrame + pages ≤ pmm.totalFrames ∧ pmm.FreeRun firstFrame pages := by
    obtain ⟨_, upper, free⟩ := pmmSearch_sound search
    exact ⟨upper.trans (pmmMaxFrame_le pmm high), free⟩
  unfold pmmAlloc
  split
  · exact Or.inl ⟨_, rfl⟩
  · rename_i pages_ne
    have pages_pos : 0 < pages := Nat.pos_of_ne_zero pages_ne
    split
    · rename_i firstFrame search
      exact Or.inr ⟨firstFrame, rfl, pages_pos, found search⟩
    · cases policy with
      | strict => exact Or.inl ⟨_, rfl⟩
      | fallback =>
          simp only [pmmAllocStrict, if_neg pages_ne]
          split
          · rename_i firstFrame search
            exact Or.inr ⟨firstFrame, rfl, pages_pos, found search⟩
          · exact Or.inl ⟨_, rfl⟩

/-- A LowMem allocation of at least one frame fails only when no run of free LowMem frames is
long enough, and otherwise marks such a run. -/
theorem pmmAllocLowmem_cases (pmm : Pmm) {pages : ℕ} (pages_pos : 0 < pages) :
    (pmmAllocLowmem pmm pages = (.error .nomem, pmm) ∧
        ∀ firstFrame, firstFrame + pages ≤ Nat.min 196608 pmm.totalFrames →
          ¬ pmm.FreeRun firstFrame pages) ∨
      ∃ firstFrame, pmmAllocLowmem pmm pages =
          (.ok (firstFrame * 4096), pmmMark pmm firstFrame pages) ∧
        firstFrame + pages ≤ 196608 ∧ firstFrame + pages ≤ pmm.totalFrames ∧
        pmm.FreeRun firstFrame pages := by
  rw [pmmAllocLowmem, pmmAlloc, if_neg (by omega)]
  split
  · rename_i firstFrame search
    obtain ⟨_, upper, free⟩ := pmmSearch_sound search
    rw [pmmMaxFrame_lowmem] at upper
    have in_lowmem := upper.trans (Nat.min_le_left _ _)
    have in_total := upper.trans (Nat.min_le_right _ _)
    exact Or.inr ⟨firstFrame, rfl, in_lowmem, in_total, free⟩
  · rename_i search
    refine Or.inl ⟨rfl, fun firstFrame upper => ?_⟩
    apply pmmSearch_complete pages_pos search
    · simp [pmmStartFrame]
    · rwa [pmmMaxFrame_lowmem]

/-- A single frame from anywhere: the allocation fails only when every frame is marked, and
otherwise marks a free frame. -/
theorem pmmAllocAny_cases (pmm : Pmm) :
    (pmmAllocAny pmm 1 = (.error .nomem, pmm) ∧
        ∀ frame < pmm.totalFrames, pmm.Marked frame) ∨
      ∃ frame, pmmAllocAny pmm 1 = (.ok (frame * 4096), pmmMark pmm frame 1) ∧
        frame < pmm.totalFrames ∧ ¬ pmm.Marked frame := by
  rw [pmmAllocAny, pmmAlloc, if_neg (by decide)]
  split
  · rename_i frame search
    obtain ⟨_, upper, free⟩ := pmmSearch_sound search
    exact Or.inr ⟨frame, rfl, upper.trans (pmmMaxFrame_le pmm 0),
      free frame (Nat.le_refl _) (Nat.lt_succ_self _)⟩
  · rename_i search
    refine Or.inl ⟨rfl, fun frame below => ?_⟩
    by_contra free
    refine pmmSearch_complete (by decide) search (Nat.zero_le frame) ?_ fun other lower upper => ?_
    · simpa [pmmMaxFrame] using below
    · rwa [show other = frame by omega]

/-- The checking loop is the bitmap test of a run. -/
theorem pmmAllMarked_eq (bm : Bitmap) (firstFrame count : ℕ) :
    pmmAllMarked bm firstFrame count = bitmapAllSet bm firstFrame count := by
  induction count with
  | zero => rfl
  | succ count induction => rw [pmmAllMarked, bitmapAllSet, induction]

theorem pmmAllMarked_iff (bm : Bitmap) (firstFrame count : ℕ) :
    pmmAllMarked bm firstFrame count = true ↔
      ∀ frame, firstFrame ≤ frame → frame < firstFrame + count → bitmapTest bm frame = true := by
  rw [pmmAllMarked_eq, bitmapAllSet_iff]

/-- Releasing a run of marked frames succeeds. -/
theorem pmmFree_of_marked {pmm : Pmm} {firstFrame pages : ℕ} (pages_pos : 0 < pages)
    (total_lt : pmm.totalFrames < 2 ^ 32) (fits : firstFrame + pages ≤ pmm.totalFrames)
    (marked : ∀ frame, firstFrame ≤ frame → frame < firstFrame + pages → pmm.Marked frame) :
    pmmFree pmm (firstFrame * 4096) pages = (.ok (), pmmUnmark pmm firstFrame pages) := by
  have frame_eq : pmmAddrToFrame (firstFrame * 4096) = firstFrame := by
    unfold pmmAddrToFrame pmmFrameSize
    omega
  have valid : pmmValidateRange pmm firstFrame pages = .ok () := by
    rw [pmmValidateRange, if_neg (by omega), if_neg (by omega), if_neg (by omega)]
  rw [pmmFree, if_neg (by omega), if_neg (by unfold pmmFrameSize; omega), frame_eq, valid]
  simp only
  rw [if_pos ((pmmAllMarked_iff _ _ _).mpr marked)]

/-- A release fails without effect, or clears a run of marked frames below the frame count. -/
theorem pmmFree_cases (pmm : Pmm) (addr pages : ℕ) :
    (∃ error, pmmFree pmm addr pages = (.error error, pmm)) ∨
      pmmFree pmm addr pages = (.ok (), pmmUnmark pmm (pmmAddrToFrame addr) pages) ∧
        0 < pages ∧ pmmAddrToFrame addr + pages ≤ pmm.totalFrames ∧
        ∀ frame, pmmAddrToFrame addr ≤ frame → frame < pmmAddrToFrame addr + pages →
          pmm.Marked frame := by
  unfold pmmFree
  split
  · exact Or.inl ⟨_, rfl⟩
  split
  · exact Or.inl ⟨_, rfl⟩
  rename_i pages_ne _
  cases valid : pmmValidateRange pmm (pmmAddrToFrame addr) pages with
  | error error => exact Or.inl ⟨_, rfl⟩
  | ok =>
      simp only
      split
      · rename_i marked
        refine Or.inr ⟨rfl, Nat.pos_of_ne_zero pages_ne, ?_, (pmmAllMarked_iff _ _ _).mp marked⟩
        unfold pmmValidateRange at valid
        split at valid
        · cases valid
        split at valid
        · cases valid
        split at valid
        · cases valid
        · omega
      · exact Or.inl ⟨_, rfl⟩

@[simp] theorem marked_pmmMark (pmm : Pmm) (firstFrame pages frame : ℕ) :
    (pmmMark pmm firstFrame pages).Marked frame ↔
      (firstFrame ≤ frame ∧ frame < firstFrame + pages) ∨ pmm.Marked frame := by
  simp [Pmm.Marked, pmmMark]

@[simp] theorem marked_pmmUnmark (pmm : Pmm) (firstFrame pages frame : ℕ) :
    (pmmUnmark pmm firstFrame pages).Marked frame ↔
      ¬ (firstFrame ≤ frame ∧ frame < firstFrame + pages) ∧ pmm.Marked frame := by
  simp only [Pmm.Marked, pmmUnmark, bitmapTest_bitmapClearRange, Bool.and_eq_true,
    Bool.not_eq_true', decide_eq_false_iff_not]

@[simp] theorem totalFrames_pmmMark (pmm : Pmm) (firstFrame pages : ℕ) :
    (pmmMark pmm firstFrame pages).totalFrames = pmm.totalFrames := rfl

@[simp] theorem totalFrames_pmmUnmark (pmm : Pmm) (firstFrame pages : ℕ) :
    (pmmUnmark pmm firstFrame pages).totalFrames = pmm.totalFrames := rfl

end ItWorksOS
