import ItWorksOS.Mm.Pmm

/-!
# Ownership of physical frames

The PMM records one bit per frame and a counter. A run from `pmm_init` keeps both in step with the
frame sets that its callers own, which are ghost state here.
-/

namespace ItWorksOS

/-! ## The free count -/

/-- Frames below the frame count whose bit is clear. -/
def Pmm.freeSet (pmm : Pmm) : Finset ℕ :=
  (Finset.range pmm.totalFrames).filter fun frame => ¬ pmm.Marked frame

/-- The counter is exact and the frame count fits 32 bits. -/
structure Pmm.Counted (pmm : Pmm) : Prop where
  total_lt : pmm.totalFrames < 2 ^ 32
  free_eq : pmm.freeFrames = pmm.freeSet.card

theorem pmmCountFree_eq_card (bm : Bitmap) (frames : ℕ) :
    pmmCountFree bm frames =
      ((Finset.range frames).filter fun frame => ¬ bitmapTest bm frame = true).card := by
  induction frames with
  | zero => rfl
  | succ frames induction =>
      rw [pmmCountFree, induction, Finset.range_add_one, Finset.filter_insert]
      cases bitmapTest bm frames <;> simp

namespace Pmm

variable {pmm : Pmm} {firstFrame pages : ℕ}

theorem freeSet_card_le (pmm : Pmm) : pmm.freeSet.card ≤ pmm.totalFrames := by
  calc
    pmm.freeSet.card ≤ (Finset.range pmm.totalFrames).card := Finset.card_filter_le _ _
    _ = pmm.totalFrames := Finset.card_range _

theorem FreeRun.subset (free : pmm.FreeRun firstFrame pages)
    (fits : firstFrame + pages ≤ pmm.totalFrames) :
    Finset.Ico firstFrame (firstFrame + pages) ⊆ pmm.freeSet := by
  intro frame member
  obtain ⟨lower, upper⟩ := Finset.mem_Ico.mp member
  exact Finset.mem_filter.mpr ⟨Finset.mem_range.mpr (by omega), free frame lower upper⟩

/-- A free run is no longer than the free count. -/
theorem Counted.pages_le (counted : pmm.Counted) (free : pmm.FreeRun firstFrame pages)
    (fits : firstFrame + pages ≤ pmm.totalFrames) : pages ≤ pmm.freeFrames := by
  have card_le := Finset.card_le_card (free.subset fits)
  rw [Nat.card_Ico] at card_le
  have := counted.free_eq
  omega

/-- Allocation subtracts exactly the pages it marks. -/
theorem Counted.freeFrames_pmmMark (counted : pmm.Counted) (free : pmm.FreeRun firstFrame pages)
    (fits : firstFrame + pages ≤ pmm.totalFrames) :
    (pmmMark pmm firstFrame pages).freeFrames = pmm.freeFrames - pages := by
  have pages_le := counted.pages_le free fits
  have free_le := pmm.freeSet_card_le
  have := counted.free_eq
  have := counted.total_lt
  simp only [pmmMark]
  omega

/-- Marking a free run keeps the counter exact. -/
theorem Counted.pmmMark (counted : pmm.Counted) (free : pmm.FreeRun firstFrame pages)
    (fits : firstFrame + pages ≤ pmm.totalFrames) : (pmmMark pmm firstFrame pages).Counted := by
  refine ⟨counted.total_lt, ?_⟩
  have remaining : (ItWorksOS.pmmMark pmm firstFrame pages).freeSet =
      pmm.freeSet \ Finset.Ico firstFrame (firstFrame + pages) := by
    ext frame
    simp only [freeSet, Finset.mem_filter, Finset.mem_sdiff, Finset.mem_Ico, marked_pmmMark,
      totalFrames_pmmMark]
    tauto
  rw [counted.freeFrames_pmmMark free fits, remaining,
    Finset.card_sdiff_of_subset (free.subset fits), Nat.card_Ico, counted.free_eq]
  omega

private theorem freeSet_pmmUnmark (fits : firstFrame + pages ≤ pmm.totalFrames)
    (marked : ∀ frame, firstFrame ≤ frame → frame < firstFrame + pages → pmm.Marked frame) :
    (pmmUnmark pmm firstFrame pages).freeSet.card = pmm.freeSet.card + pages := by
  have grown : (pmmUnmark pmm firstFrame pages).freeSet =
      pmm.freeSet ∪ Finset.Ico firstFrame (firstFrame + pages) := by
    ext frame
    simp only [freeSet, Finset.mem_filter, Finset.mem_union, Finset.mem_Ico, Finset.mem_range,
      marked_pmmUnmark, totalFrames_pmmUnmark]
    constructor
    · tauto
    · rintro (⟨below, clear⟩ | inside)
      · exact ⟨below, fun unmarked => clear unmarked.2⟩
      · exact ⟨by omega, fun unmarked => unmarked.1 inside⟩
  have apart : Disjoint pmm.freeSet (Finset.Ico firstFrame (firstFrame + pages)) := by
    rw [Finset.disjoint_left]
    intro frame free_mem member
    obtain ⟨lower, upper⟩ := Finset.mem_Ico.mp member
    exact (Finset.mem_filter.mp free_mem).2 (marked frame lower upper)
  rw [grown, Finset.card_union_of_disjoint apart, Nat.card_Ico]
  omega

/-- Release adds exactly the pages it clears, within 32 bits. -/
theorem Counted.freeFrames_pmmUnmark (counted : pmm.Counted)
    (fits : firstFrame + pages ≤ pmm.totalFrames)
    (marked : ∀ frame, firstFrame ≤ frame → frame < firstFrame + pages → pmm.Marked frame) :
    (pmmUnmark pmm firstFrame pages).freeFrames = pmm.freeFrames + pages := by
  have card_eq := freeSet_pmmUnmark fits marked
  have card_le := (ItWorksOS.pmmUnmark pmm firstFrame pages).freeSet_card_le
  have := counted.free_eq
  have := counted.total_lt
  simp only [totalFrames_pmmUnmark] at card_le
  simp only [ItWorksOS.pmmUnmark]
  omega

/-- Clearing a run of marked frames keeps the counter exact. -/
theorem Counted.pmmUnmark (counted : pmm.Counted) (fits : firstFrame + pages ≤ pmm.totalFrames)
    (marked : ∀ frame, firstFrame ≤ frame → frame < firstFrame + pages → pmm.Marked frame) :
    (pmmUnmark pmm firstFrame pages).Counted :=
  ⟨counted.total_lt, by
    rw [counted.freeFrames_pmmUnmark fits marked, freeSet_pmmUnmark fits marked, counted.free_eq]⟩

/-- Releasing a run right after it was marked restores the PMM, whose counter has 32 bits. -/
theorem pmmUnmark_pmmMark (free : pmm.FreeRun firstFrame pages) (pages_le : pages ≤ 2 ^ 32)
    (count_lt : pmm.freeFrames < 2 ^ 32) :
    ItWorksOS.pmmUnmark (ItWorksOS.pmmMark pmm firstFrame pages) firstFrame pages = pmm := by
  have data_eq : (ItWorksOS.pmmUnmark (ItWorksOS.pmmMark pmm firstFrame pages)
      firstFrame pages).bm.data = pmm.bm.data := by
    apply data_eq_of_bitmapTest
    intro frame
    simp only [ItWorksOS.pmmUnmark, ItWorksOS.pmmMark, bitmapTest_bitmapClearRange,
      bitmapTest_bitmapSetRange]
    by_cases inside : firstFrame ≤ frame ∧ frame < firstFrame + pages
    · have clear := free frame inside.1 inside.2
      simp only [Marked, Bool.not_eq_true] at clear
      simp [inside, clear]
    · simp [inside]
  have nbits_eq : (ItWorksOS.pmmUnmark (ItWorksOS.pmmMark pmm firstFrame pages)
      firstFrame pages).bm.nbits = pmm.bm.nbits := by
    simp [ItWorksOS.pmmUnmark, ItWorksOS.pmmMark]
  refine Pmm.ext (Bitmap.ext data_eq nbits_eq) rfl rfl ?_
  simp only [ItWorksOS.pmmUnmark, ItWorksOS.pmmMark]
  omega

theorem Counted.pmmUnmark_pmmMark (counted : pmm.Counted) (free : pmm.FreeRun firstFrame pages)
    (fits : firstFrame + pages ≤ pmm.totalFrames) :
    ItWorksOS.pmmUnmark (ItWorksOS.pmmMark pmm firstFrame pages) firstFrame pages = pmm := by
  have := counted.total_lt
  have := counted.free_eq
  have := pmm.freeSet_card_le
  exact Pmm.pmmUnmark_pmmMark free (by omega) (by omega)

end Pmm

/-! ## Initial reservation -/

theorem bitmapTest_pmmForceReserveRange (totalFrames : ℕ) (bm : Bitmap) {startFrame count : ℕ}
    (fits : startFrame + count ≤ 2 ^ 32) (frame : ℕ) :
    bitmapTest (pmmForceReserveRange totalFrames bm startFrame count) frame = true ↔
      (startFrame ≤ frame ∧ frame < startFrame + count ∧ frame < totalFrames) ∨
        bitmapTest bm frame = true := by
  induction count with
  | zero =>
      rw [pmmForceReserveRange]
      constructor
      · exact Or.inr
      · rintro (⟨lower, upper, _⟩ | marked)
        · omega
        · exact marked
  | succ count induction =>
      have earlier := induction (by omega)
      have frame_eq : (startFrame + count) % 2 ^ 32 = startFrame + count := by omega
      simp only [pmmForceReserveRange, frame_eq]
      split
      · rw [bitmapTest_bitmapSet, Bool.or_eq_true, decide_eq_true_eq, earlier, ← or_assoc]
        refine or_congr_left ?_
        omega
      · rw [earlier]
        refine or_congr_left ?_
        omega

/-- The entry is usable and contains the whole frame. -/
def BootMemMapEntry.Covers (entry : BootMemMapEntry) (frame : ℕ) : Prop :=
  entry.type = bootTypeUsable ∧ entry.base ≤ frame * 4096 ∧
    frame * 4096 + 4096 ≤ entry.base + entry.length

/-- Every usable entry ends where 32-bit frame numbers and the bitmap size do not wrap. -/
def BootMapBounded (map : List BootMemMapEntry) : Prop :=
  ∀ entry ∈ map, entry.type = bootTypeUsable → entry.base + entry.length ≤ 2 ^ 44 - 2 ^ 15

theorem bitmapTest_pmmFreeEntry {entry : BootMemMapEntry} (bm : Bitmap) (frame : ℕ)
    (bounded : entry.type = bootTypeUsable → entry.base + entry.length ≤ 2 ^ 44 - 2 ^ 15) :
    bitmapTest (pmmFreeEntry bm entry) frame = true ↔
      ¬ entry.Covers frame ∧ bitmapTest bm frame = true := by
  by_cases usable : entry.type = bootTypeUsable
  · have finish_le := bounded usable
    have finish_eq : entry.finish = entry.base + entry.length := by
      unfold BootMemMapEntry.finish
      omega
    have covers : entry.Covers frame ↔
        pmmAddrToFrame (alignUp 64 entry.base pmmFrameSize) ≤ frame ∧
          frame < pmmAddrToFrame (alignDown entry.finish pmmFrameSize) := by
      simp only [BootMemMapEntry.Covers, usable, true_and, finish_eq, pmmAddrToFrame, alignUp,
        alignDown, pmmFrameSize]
      omega
    rw [pmmFreeEntry, if_neg (by simp [usable]), bitmapTest_bitmapClearRange, Bool.and_eq_true,
      Bool.not_eq_true', decide_eq_false_iff_not, covers]
    refine and_congr_left fun _ => not_congr ?_
    omega
  · rw [pmmFreeEntry, if_pos usable]
    simp [BootMemMapEntry.Covers, usable]

theorem bitmapTest_foldl_pmmFreeEntry {map : List BootMemMapEntry} (bounded : BootMapBounded map)
    (bm : Bitmap) (frame : ℕ) :
    bitmapTest (map.foldl pmmFreeEntry bm) frame = true ↔
      (∀ entry ∈ map, ¬ entry.Covers frame) ∧ bitmapTest bm frame = true := by
  induction map generalizing bm with
  | nil => simp
  | cons entry map induction =>
      rw [List.foldl_cons, induction fun other member => bounded other (by simp [member]),
        bitmapTest_pmmFreeEntry bm frame (bounded entry (by simp))]
      simp only [List.mem_cons, forall_eq_or_imp]
      tauto

/-- The frame overlaps a physical interval. -/
def FrameMeets (frame low high : ℕ) : Prop := frame * 4096 < high ∧ low < frame * 4096 + 4096

theorem pmmCoveringFrames_spec {start finish : ℕ} (frame : ℕ) (ordered : start ≤ finish)
    (finish_lt : finish < 2 ^ 40) :
    ((pmmCoveringFrames start finish).1 + (pmmCoveringFrames start finish).2 ≤ 2 ^ 32) ∧
      ((pmmCoveringFrames start finish).1 ≤ frame ∧
        frame < (pmmCoveringFrames start finish).1 + (pmmCoveringFrames start finish).2 ↔
          FrameMeets frame start finish) := by
  simp only [pmmCoveringFrames, pmmAddrToFrame, alignDown, alignUp, pmmFrameSize, FrameMeets]
  omega

/-- The linker symbols of the kernel image lie in the kernel half, in order. -/
structure KernelImage (kernelStart kernelEnd : ℕ) : Prop where
  start_ge : kernelVirtOffset ≤ kernelStart
  ordered : kernelStart ≤ kernelEnd
  end_lt : kernelEnd < 2 ^ 32

section Init

variable {data : ℕ → BitVec 32} {kernelStart kernelEnd : ℕ} {map : List BootMemMapEntry}
  {pmm : Pmm}

/-- The end of usable memory is the end of some usable entry. -/
private theorem pmmMaxAddr_le (bounded : BootMapBounded map) :
    pmmMaxAddr map ≤ 2 ^ 44 - 2 ^ 15 := by
  have folded (entries : List BootMemMapEntry) (highest : ℕ)
      (bounded : BootMapBounded entries) (highest_le : highest ≤ 2 ^ 44 - 2 ^ 15) :
      entries.foldl (fun highest entry =>
        if entry.type ≠ bootTypeUsable then highest
        else if highest < entry.finish then entry.finish else highest) highest
          ≤ 2 ^ 44 - 2 ^ 15 := by
    induction entries generalizing highest with
    | nil => exact highest_le
    | cons entry entries induction =>
        rw [List.foldl_cons]
        refine induction _ (fun other member => bounded other (by simp [member])) ?_
        split
        · exact highest_le
        · rename_i usable
          have finish_le := bounded entry (by simp) (not_not.mp usable)
          split
          · unfold BootMemMapEntry.finish
            omega
          · exact highest_le
  exact folded map 0 bounded (Nat.zero_le _)

private theorem pmmInit_inv (init : pmmInit data kernelStart kernelEnd map = .ok pmm) :
    pmm.totalFrames < 2 ^ 32 ∧ pmm.maxAddr = pmmMaxAddr map ∧
      pmm.totalFrames = alignUp 64 (pmmMaxAddr map) pmmFrameSize / pmmFrameSize % 2 ^ 32 ∧
      pmm.freeFrames = pmmCountFree pmm.bm pmm.totalFrames % 2 ^ 32 := by
  simp only [pmmInit] at init
  split at init
  · contradiction
  · obtain rfl := Except.ok.inj init
    exact ⟨Nat.mod_lt _ (by decide), rfl, rfl, rfl⟩

/-- `pmm_init` counts the free frames it leaves. -/
theorem counted_of_pmmInit (init : pmmInit data kernelStart kernelEnd map = .ok pmm) :
    pmm.Counted := by
  obtain ⟨total_lt, _, _, free_eq⟩ := pmmInit_inv init
  rw [pmmCountFree_eq_card] at free_eq
  have free_le := pmm.freeSet_card_le
  refine ⟨total_lt, free_eq.trans (Nat.mod_eq_of_lt ?_)⟩
  exact lt_of_le_of_lt free_le total_lt

private theorem kernelSymbolPhys_eq {symbol : ℕ} (lower : kernelVirtOffset ≤ symbol)
    (upper : symbol < 2 ^ 32) :
    kernelSymbolPhys symbol = symbol - kernelVirtOffset ∧
      symbol - kernelVirtOffset < 2 ^ 30 := by
  unfold kernelVirtOffset at lower
  unfold kernelSymbolPhys kernelVirtOffset
  omega

/-- The three reservations of `pmm_init` on top of a bitmap. -/
private theorem reserved_iff {total low high : ℕ} (bm : Bitmap)
    (ordered : low ≤ high) (high_lt : high < 2 ^ 30) {frame : ℕ} (below : frame < total) :
    bitmapTest
        (pmmForceReserveRange total
          (pmmForceReserveRange total (pmmForceReserveRange total bm 0 256)
            (pmmCoveringFrames low high).1 (pmmCoveringFrames low high).2)
          (pmmCoveringFrames high ((high + (total + 7) % 2 ^ 32 / 8) % 2 ^ 64)).1
          (pmmCoveringFrames high ((high + (total + 7) % 2 ^ 32 / 8) % 2 ^ 64)).2) frame = true ↔
      frame < 256 ∨ FrameMeets frame low high ∨
        FrameMeets frame high (high + (total + 7) % 2 ^ 32 / 8) ∨ bitmapTest bm frame = true := by
  have storage_eq : (high + (total + 7) % 2 ^ 32 / 8) % 2 ^ 64 =
      high + (total + 7) % 2 ^ 32 / 8 := by omega
  rw [storage_eq]
  obtain ⟨storage, storage_def⟩ : ∃ storage, storage = high + (total + 7) % 2 ^ 32 / 8 := ⟨_, rfl⟩
  rw [← storage_def]
  obtain ⟨image_fits, image_iff⟩ := pmmCoveringFrames_spec frame ordered (by omega)
  obtain ⟨storage_fits, storage_iff⟩ :=
    pmmCoveringFrames_spec frame (by omega : high ≤ storage) (by omega)
  rw [bitmapTest_pmmForceReserveRange _ _ storage_fits,
    bitmapTest_pmmForceReserveRange _ _ image_fits,
    bitmapTest_pmmForceReserveRange _ _ (by decide), ← image_iff, ← storage_iff]
  simp only [below, and_true, Nat.zero_le, true_and, Nat.zero_add]
  constructor
  · rintro (storage | image | first | marked)
    exacts [.inr (.inr (.inl storage)), .inr (.inl image), .inl first, .inr (.inr (.inr marked))]
  · rintro (first | image | storage | marked)
    exacts [.inr (.inr (.inl first)), .inr (.inl image), .inl storage, .inr (.inr (.inr marked))]

/-- Frames below the frame count that `pmm_init` leaves marked, before the map is interpreted. -/
theorem marked_pmmInit (init : pmmInit data kernelStart kernelEnd map = .ok pmm)
    (image : KernelImage kernelStart kernelEnd) {frame : ℕ} (below : frame < pmm.totalFrames) :
    pmm.Marked frame ↔ frame < 256 ∨
      FrameMeets frame (kernelStart - kernelVirtOffset) (kernelEnd - kernelVirtOffset) ∨
      FrameMeets frame (kernelEnd - kernelVirtOffset)
        (kernelEnd - kernelVirtOffset + (pmm.totalFrames + 7) % 2 ^ 32 / 8) ∨
      bitmapTest (map.foldl pmmFreeEntry
        (bitmapSetRange { data := data, nbits := pmm.totalFrames } 0 pmm.totalFrames))
          frame = true := by
  obtain ⟨start_ge, ordered, end_lt⟩ := image
  obtain ⟨start_eq, _⟩ := kernelSymbolPhys_eq start_ge (by omega)
  obtain ⟨end_eq, high_lt⟩ := kernelSymbolPhys_eq (by omega) end_lt
  have phys_le : kernelStart - kernelVirtOffset ≤ kernelEnd - kernelVirtOffset :=
    Nat.sub_le_sub_right ordered _
  simp only [pmmInit] at init
  split at init
  · cases init
  · rw [start_eq, end_eq] at init
    obtain rfl := Except.ok.inj init
    exact reserved_iff _ phys_le high_lt below

/-- What `pmm_init` reserves: the first MiB, the kernel image, the bitmap storage and every frame
outside usable memory. -/
def PmmReserved (kernelStart kernelEnd : ℕ) (map : List BootMemMapEntry) (totalFrames frame : ℕ) :
    Prop :=
  frame < 256 ∨
    FrameMeets frame (kernelStart - kernelVirtOffset) (kernelEnd - kernelVirtOffset) ∨
    FrameMeets frame (kernelEnd - kernelVirtOffset)
      (kernelEnd - kernelVirtOffset + (totalFrames + 7) / 8) ∨
    ∀ entry ∈ map, ¬ entry.Covers frame

/-- `pmm_init` marks exactly the reserved frames of a memory map. -/
theorem marked_pmmInit_iff (init : pmmInit data kernelStart kernelEnd map = .ok pmm)
    (image : KernelImage kernelStart kernelEnd) (bounded : BootMapBounded map) {frame : ℕ}
    (below : frame < pmm.totalFrames) :
    pmm.Marked frame ↔ PmmReserved kernelStart kernelEnd map pmm.totalFrames frame := by
  have total_le : pmm.totalFrames + 7 < 2 ^ 32 := by
    obtain ⟨_, _, total_eq, _⟩ := pmmInit_inv init
    have max_le := pmmMaxAddr_le bounded
    simp only [alignUp, alignDown, pmmFrameSize] at total_eq
    omega
  rw [marked_pmmInit init image below, PmmReserved, Nat.mod_eq_of_lt total_le,
    bitmapTest_foldl_pmmFreeEntry bounded, bitmapTest_bitmapSetRange]
  simp [below]

end Init

/-! ## Runs -/

/-- The PMM with the frame sets of the allocations its callers still own. -/
structure PmmRun where
  /-- The PMM itself. -/
  pmm : Pmm
  /-- What is left of each successful allocation. -/
  live : List (Finset ℕ)

/-- Some live allocation contains the frame. -/
def PmmRun.Owned (run : PmmRun) (frame : ℕ) : Prop := ∃ frames ∈ run.live, frame ∈ frames

/-- Frames of a range that starts at a physical address. -/
def framesFrom (addr pages : ℕ) : Finset ℕ := Finset.Ico (addr / 4096) (addr / 4096 + pages)

/-- One call of `pmm_alloc`, or one call of `pmm_free` on owned frames. -/
inductive PmmStep : PmmRun → PmmRun → Prop
  | alloc {run : PmmRun} {min max pages addr : ℕ} {policy : PmmPolicy} {pmm' : Pmm}
      (call : pmmAlloc run.pmm min max pages policy = (.ok addr, pmm')) :
      PmmStep run { pmm := pmm', live := framesFrom addr pages :: run.live }
  | allocError {run : PmmRun} {min max pages : ℕ} {policy : PmmPolicy} {error : KError}
      {pmm' : Pmm} (call : pmmAlloc run.pmm min max pages policy = (.error error, pmm')) :
      PmmStep run { run with pmm := pmm' }
  | free {run : PmmRun} {addr pages : ℕ} {pmm' : Pmm}
      (owned : ∀ frame ∈ framesFrom addr pages, run.Owned frame)
      (call : pmmFree run.pmm addr pages = (.ok (), pmm')) :
      PmmStep run { pmm := pmm', live := run.live.map (· \ framesFrom addr pages) }
  | freeError {run : PmmRun} {addr pages : ℕ} {error : KError} {pmm' : Pmm}
      (owned : ∀ frame ∈ framesFrom addr pages, run.Owned frame)
      (call : pmmFree run.pmm addr pages = (.error error, pmm')) :
      PmmStep run { run with pmm := pmm' }

/-- The bits are the reserved and the owned frames, which are disjoint, and the counter is
exact. -/
structure PmmRun.Inv (initial : Pmm) (run : PmmRun) : Prop where
  counted : run.pmm.Counted
  total : run.pmm.totalFrames = initial.totalFrames
  disjoint : run.live.Pairwise Disjoint
  fresh : ∀ frame, run.Owned frame → frame < initial.totalFrames ∧ ¬ initial.Marked frame
  marked : ∀ frame, run.pmm.Marked frame ↔ initial.Marked frame ∨ run.Owned frame

namespace PmmRun

variable {initial : Pmm} {run run' : PmmRun} {addr pages : ℕ} {pmm' : Pmm}

theorem initial_inv (counted : initial.Counted) : Inv initial { pmm := initial, live := [] } :=
  ⟨counted, rfl, List.Pairwise.nil, by simp [Owned], by simp [Owned]⟩

/-- Releasing frames that are owned clears exactly the requested run. -/
theorem Inv.pmmFree_eq (inv : run.Inv initial)
    (owned : ∀ frame ∈ framesFrom addr pages, run.Owned frame)
    (call : pmmFree run.pmm addr pages = (.ok (), pmm')) :
    pmm' = pmmUnmark run.pmm (addr / 4096) pages ∧ addr / 4096 + pages ≤ run.pmm.totalFrames ∧
      ∀ frame, addr / 4096 ≤ frame → frame < addr / 4096 + pages → run.pmm.Marked frame := by
  rcases pmmFree_cases run.pmm addr pages with ⟨error, failed⟩ | ⟨released, pages_pos, fits, marked⟩
  · simp [failed] at call
  · have first := (inv.fresh _ (owned (addr / 4096) (by simp [framesFrom, pages_pos]))).1
    have frame_eq : pmmAddrToFrame addr = addr / 4096 := by
      have total_lt := inv.counted.total_lt
      rw [inv.total] at total_lt
      unfold pmmAddrToFrame pmmFrameSize
      omega
    rw [frame_eq] at released fits marked
    rw [released, Prod.mk.injEq] at call
    exact ⟨call.2.symm, fits, marked⟩

/-- Every step keeps bits, counter and ownership together. -/
theorem Inv.step (inv : run.Inv initial) (step : PmmStep run run') : run'.Inv initial := by
  cases step with
  | @alloc min max pages addr policy pmm' call =>
      rcases pmmAlloc_cases run.pmm min max pages policy with
        ⟨error, failed⟩ | ⟨firstFrame, allocated, pages_pos, fits, free⟩
      · simp [failed] at call
      rw [allocated, Prod.mk.injEq, Except.ok.injEq] at call
      obtain ⟨rfl, rfl⟩ := call
      have frames_eq : framesFrom (firstFrame * 4096) pages =
          Finset.Ico firstFrame (firstFrame + pages) := by
        rw [framesFrom, Nat.mul_div_cancel _ (by decide)]
      have total := inv.total
      rw [frames_eq]
      refine ⟨inv.counted.pmmMark free fits, inv.total, ?_, ?_, ?_⟩
      · refine List.pairwise_cons.mpr ⟨?_, inv.disjoint⟩
        intro frames member
        rw [Finset.disjoint_left]
        intro frame new_mem old_mem
        obtain ⟨lower, upper⟩ := Finset.mem_Ico.mp new_mem
        exact free frame lower upper ((inv.marked frame).mpr (Or.inr ⟨frames, member, old_mem⟩))
      · rintro frame ⟨frames, member, frame_mem⟩
        rcases List.mem_cons.mp member with rfl | member
        · obtain ⟨lower, upper⟩ := Finset.mem_Ico.mp frame_mem
          refine ⟨by omega, fun reserved => ?_⟩
          exact free frame lower upper ((inv.marked frame).mpr (Or.inl reserved))
        · exact inv.fresh frame ⟨frames, member, frame_mem⟩
      · intro frame
        simp only [marked_pmmMark, inv.marked, Owned, List.mem_cons, exists_eq_or_imp,
          Finset.mem_Ico]
        tauto
  | @allocError min max pages policy error pmm' call =>
      rcases pmmAlloc_cases run.pmm min max pages policy with ⟨error, failed⟩ | ⟨_, allocated, _⟩
      · rw [failed, Prod.mk.injEq] at call
        obtain ⟨-, rfl⟩ := call
        exact inv
      · simp [allocated] at call
  | @free addr pages pmm' owned call =>
      obtain ⟨rfl, fits, marked⟩ := inv.pmmFree_eq owned call
      have owned_iff (frame : ℕ) :
          Owned { pmm := pmmUnmark run.pmm (addr / 4096) pages,
                  live := run.live.map (· \ framesFrom addr pages) } frame ↔
            run.Owned frame ∧ frame ∉ framesFrom addr pages := by
        simp only [Owned, List.mem_map, exists_exists_and_eq_and, Finset.mem_sdiff]
        constructor
        · rintro ⟨frames, member, frame_mem, outside⟩
          exact ⟨⟨frames, member, frame_mem⟩, outside⟩
        · rintro ⟨⟨frames, member, frame_mem⟩, outside⟩
          exact ⟨frames, member, frame_mem, outside⟩
      refine ⟨inv.counted.pmmUnmark fits marked, inv.total, ?_, ?_, ?_⟩
      · refine List.pairwise_map.mpr (inv.disjoint.imp fun apart => ?_)
        exact Finset.disjoint_of_subset_left Finset.sdiff_subset
          (Finset.disjoint_of_subset_right Finset.sdiff_subset apart)
      · intro frame live
        exact inv.fresh frame ((owned_iff frame).mp live).1
      · intro frame
        rw [owned_iff, marked_pmmUnmark, inv.marked, framesFrom, Finset.mem_Ico]
        constructor
        · tauto
        · rintro (reserved | ⟨live, outside⟩)
          · refine ⟨fun inside => ?_, Or.inl reserved⟩
            exact (inv.fresh frame (owned frame (Finset.mem_Ico.mpr inside))).2 reserved
          · exact ⟨outside, Or.inr live⟩
  | @freeError addr pages error pmm' owned call =>
      rcases pmmFree_cases run.pmm addr pages with ⟨error, failed⟩ | ⟨released, _⟩
      · rw [failed, Prod.mk.injEq] at call
        obtain ⟨-, rfl⟩ := call
        exact inv
      · simp [released] at call

theorem Inv.steps (inv : run.Inv initial) (steps : Relation.ReflTransGen PmmStep run run') :
    run'.Inv initial := by
  induction steps with
  | refl => exact inv
  | tail _ step induction => exact induction.step step

/-- A successful allocation does not underflow the counter, and freeing it restores the PMM. -/
theorem Inv.alloc_free (inv : run.Inv initial) {min max : ℕ} {policy : PmmPolicy}
    (call : pmmAlloc run.pmm min max pages policy = (.ok addr, pmm')) :
    pages ≤ run.pmm.freeFrames ∧ pmm'.freeFrames = run.pmm.freeFrames - pages ∧
      pmmFree pmm' addr pages = (.ok (), run.pmm) := by
  rcases pmmAlloc_cases run.pmm min max pages policy with
    ⟨error, failed⟩ | ⟨firstFrame, allocated, pages_pos, fits, free⟩
  · simp [failed] at call
  rw [allocated, Prod.mk.injEq, Except.ok.injEq] at call
  obtain ⟨rfl, rfl⟩ := call
  refine ⟨inv.counted.pages_le free fits, inv.counted.freeFrames_pmmMark free fits, ?_⟩
  have marked (frame : ℕ) (lower : firstFrame ≤ frame) (upper : frame < firstFrame + pages) :
      (pmmMark run.pmm firstFrame pages).Marked frame :=
    (marked_pmmMark _ _ _ _).mpr (Or.inl ⟨lower, upper⟩)
  have counted := inv.counted.pmmMark free fits
  rw [pmmFree_of_marked pages_pos counted.total_lt fits marked,
    inv.counted.pmmUnmark_pmmMark free fits]

end PmmRun

/-- Along every run from `pmm_init`, live allocations are disjoint and avoid the reserved frames, a
bit is set exactly for reserved and live frames, the free count is exact and never wraps, and
freeing a fresh allocation restores the PMM. For a memory map whose frame numbers fit 32 bits, the
reserved frames are the first MiB, the kernel image, the bitmap and all memory not usable. -/
theorem pmm_ownership_of_run {data : ℕ → BitVec 32} {kernelStart kernelEnd : ℕ}
    {map : List BootMemMapEntry} {initial : Pmm} {run : PmmRun}
    (init : pmmInit data kernelStart kernelEnd map = .ok initial)
    (steps : Relation.ReflTransGen PmmStep { pmm := initial, live := [] } run) :
    run.live.Pairwise Disjoint ∧
      (∀ frames ∈ run.live, ∀ frame ∈ frames,
        frame < initial.totalFrames ∧ ¬ initial.Marked frame) ∧
      (KernelImage kernelStart kernelEnd → BootMapBounded map → ∀ frame < initial.totalFrames,
        (initial.Marked frame ↔
          PmmReserved kernelStart kernelEnd map initial.totalFrames frame)) ∧
      (∀ frame, run.pmm.Marked frame ↔
        initial.Marked frame ∨ ∃ frames ∈ run.live, frame ∈ frames) ∧
      run.pmm.freeFrames = ((Finset.range initial.totalFrames).filter
        fun frame => ¬ run.pmm.Marked frame).card ∧
      (∀ min max pages policy addr pmm',
        pmmAlloc run.pmm min max pages policy = (.ok addr, pmm') →
          pages ≤ run.pmm.freeFrames ∧ pmm'.freeFrames = run.pmm.freeFrames - pages ∧
            pmmFree pmm' addr pages = (.ok (), run.pmm)) ∧
      ∀ addr pages pmm', (∀ frame ∈ framesFrom addr pages, run.Owned frame) →
        pmmFree run.pmm addr pages = (.ok (), pmm') →
          pmm'.freeFrames = run.pmm.freeFrames + pages ∧ pmm'.freeFrames < 2 ^ 32 := by
  have inv := (PmmRun.initial_inv (counted_of_pmmInit init)).steps steps
  refine ⟨inv.disjoint, ?_, ?_, inv.marked, ?_, ?_, ?_⟩
  · intro frames member frame frame_mem
    exact inv.fresh frame ⟨frames, member, frame_mem⟩
  · intro image bounded frame below
    exact marked_pmmInit_iff init image bounded below
  · rw [← inv.total]
    exact inv.counted.free_eq
  · intro min max pages policy addr pmm' call
    exact inv.alloc_free call
  · intro addr pages pmm' owned call
    obtain ⟨rfl, fits, marked⟩ := inv.pmmFree_eq owned call
    have counted := inv.counted.pmmUnmark fits marked
    refine ⟨inv.counted.freeFrames_pmmUnmark fits marked, ?_⟩
    rw [counted.free_eq]
    exact lt_of_le_of_lt (Pmm.freeSet_card_le _) counted.total_lt

/-- Two LowMem frames allocated on a machine with 4 MiB of usable memory. -/
theorem pmm_ownership_of_run_lowmem :
    ∃ initial run frames, pmmInit (fun _ => 0) 0xC0100000 0xC0108000 [⟨0, 0x400000, 1, 0⟩] =
        .ok initial ∧
      Relation.ReflTransGen PmmStep { pmm := initial, live := [] } run ∧ run.live = [frames] ∧
      frames.card = 2 ∧ ∀ frame ∈ frames, frame < 1024 ∧ ¬ initial.Marked frame := by
  obtain ⟨initial, init, total⟩ : ∃ initial, pmmInit (fun _ => 0) 0xC0100000 0xC0108000
      [⟨0, 0x400000, 1, 0⟩] = .ok initial ∧ initial.totalFrames = 1024 := ⟨_, rfl, rfl⟩
  have image : KernelImage 0xC0100000 0xC0108000 := ⟨by decide, by decide, by decide⟩
  have bounded : BootMapBounded [⟨0, 0x400000, 1, 0⟩] := by
    intro entry member _
    obtain rfl := List.mem_singleton.mp member
    decide
  have free : initial.FreeRun 512 2 := by
    intro frame lower upper marked
    rw [marked_pmmInit_iff init image bounded (by omega), total] at marked
    have covered : BootMemMapEntry.Covers ⟨0, 0x400000, 1, 0⟩ frame :=
      ⟨rfl, Nat.zero_le _, by simp only; omega⟩
    simp only [PmmReserved, FrameMeets, kernelVirtOffset, List.mem_singleton, forall_eq, covered,
      not_true_eq_false, or_false] at marked
    omega
  rcases pmmAllocLowmem_cases initial (by decide : 0 < 2) with
    ⟨_, exhausted⟩ | ⟨firstFrame, allocated, _⟩
  · exact absurd free (exhausted 512 (by simp [total]))
  · have steps := Relation.ReflTransGen.single
      (PmmStep.alloc (show pmmAlloc (PmmRun.mk initial []).pmm _ _ _ _ = _ from allocated))
    obtain ⟨_, fresh, _⟩ := pmm_ownership_of_run init steps
    rw [total] at fresh
    refine ⟨initial, _, _, init, steps, rfl, ?_, fun frame member => fresh _ (by simp) frame member⟩
    simp [framesFrom]

end ItWorksOS
