import ItWorksOS.Foundation.Word32
import ItWorksOS.Mm.PmmOwnership

/-!
# What `pmm_alloc` and `pmm_free` compute

An allocation is a search for the first free run between two bounds, and a release is accepted for
allocated frames of the bitmap only. Both hold as long as addresses do not wrap when they become
32-bit frame numbers.
-/

namespace ItWorksOS

/-! ## First fit -/

/-- First frames of the free runs between two frame numbers. -/
def Pmm.runs (pmm : Pmm) (low high pages : ℕ) : Set ℕ :=
  {first | low ≤ first ∧ first + pages ≤ high ∧ pmm.FreeRun first pages}

/-- First frame at or above a lower address bound. -/
def pmmLowFrame (min : ℕ) : ℕ := (min + 4095) / 4096

/-- End of the frames below an upper address bound. -/
def pmmHighFrame (pmm : Pmm) (max : ℕ) : ℕ :=
  if max = 0 then pmm.totalFrames else Nat.min pmm.totalFrames (max / 4096)

/-- Exactly the frames of a run have become allocated. -/
structure PmmTaken (pmm pmm' : Pmm) (first pages : ℕ) : Prop where
  marked : ∀ frame, pmm'.Marked frame ↔
    (first ≤ frame ∧ frame < first + pages) ∨ pmm.Marked frame
  total : pmm'.totalFrames = pmm.totalFrames
  counter : pmm'.freeFrames = (pmm.freeFrames + 2 ^ 32 - pages) % 2 ^ 32
  dropped : pmm.Counted → pmm'.freeFrames + pages = pmm.freeFrames

/-- The runs among which `pmm_alloc` is to choose the first one: those between the bounds, or with
the fallback policy all runs if there is none. -/
def pmmWanted (pmm : Pmm) (min max pages : ℕ) (policy : PmmPolicy) : Set ℕ :=
  match policy with
  | .strict => pmm.runs (pmmLowFrame min) (pmmHighFrame pmm max) pages
  | .fallback => {first |
      first ∈ pmm.runs (pmmLowFrame min) (pmmHighFrame pmm max) pages ∨
        pmm.runs (pmmLowFrame min) (pmmHighFrame pmm max) pages = ∅ ∧
          first ∈ pmm.runs 0 pmm.totalFrames pages}

/-- `pmm_alloc` succeeds exactly when there is a wanted run, with the first of them, and otherwise
fails without effect. A run under the strict policy lies between the bounds. -/
structure PmmAllocExact (pmm : Pmm) (min max pages : ℕ) (policy : PmmPolicy) : Prop where
  succeeds : (∃ address pmm', pmmAlloc pmm min max pages policy = (.ok address, pmm')) ↔
    (pmmWanted pmm min max pages policy).Nonempty
  first : ∀ address pmm', pmmAlloc pmm min max pages policy = (.ok address, pmm') →
    ∃ first, IsLeast (pmmWanted pmm min max pages policy) first ∧ address = 4096 * first ∧
      PmmTaken pmm pmm' first pages
  between : ∀ address pmm', pmmAlloc pmm min max pages policy = (.ok address, pmm') →
    policy = .strict → min ≤ address ∧ (max ≠ 0 → address + pages * 4096 ≤ max)
  fails : ∀ error pmm', pmmAlloc pmm min max pages policy = (.error error, pmm') →
    error = .nomem ∧ pmm' = pmm

section Alloc

variable {pmm : Pmm} {min max pages : ℕ}

/-- The search finds the first run between the frames that the code computes. -/
theorem pmmSearch_isLeast (pages_pos : 0 < pages) {first : ℕ}
    (search : pmmSearch pmm min max pages = some first) :
    IsLeast (pmm.runs (pmmStartFrame min) (pmmMaxFrame pmm max) pages) first := by
  refine ⟨pmmSearch_sound search, fun other member => ?_⟩
  obtain ⟨lower, -, free⟩ := member
  rw [pmmSearch] at search
  split at search
  · rw [pmmScan_eq] at search
    exact bitmapFindRun_least pages_pos (Nat.zero_le _) search lower (Pmm.freeRun_iff.mp free)
  · cases search

theorem pmmSearch_eq_none (pages_pos : 0 < pages) (search : pmmSearch pmm min max pages = none) :
    pmm.runs (pmmStartFrame min) (pmmMaxFrame pmm max) pages = ∅ :=
  Set.eq_empty_of_forall_notMem fun _ member =>
    pmmSearch_complete pages_pos search member.1 member.2.1 member.2.2

theorem pmmMaxFrame_eq (max_lt : max < 2 ^ 44) : pmmMaxFrame pmm max = pmmHighFrame pmm max := by
  rw [pmmMaxFrame, pmmHighFrame]
  by_cases unbounded : max = 0
  · rw [if_neg (not_not_intro unbounded), if_pos unbounded]
    exact Nat.min_self _
  · rw [if_pos unbounded, if_neg unbounded, pmmAddrToFrame, pmmFrameSize,
      Nat.mod_eq_of_lt (by omega)]
    exact Nat.min_comm ..

/-- The lower bound wraps to zero in the last page of the 44-bit addresses. -/
theorem pmmStartFrame_eq (min_lt : min < 2 ^ 44) :
    pmmStartFrame min = if min ≤ 2 ^ 44 - 4096 then pmmLowFrame min else 0 := by
  simp only [pmmStartFrame, pmmLowFrame, pmmAddrToFrame, alignUp, alignDown, pmmFrameSize]
  split_ifs <;> omega

theorem pmmTaken_pmmMark {first : ℕ} (free : pmm.FreeRun first pages)
    (fits : first + pages ≤ pmm.totalFrames) :
      PmmTaken pmm (pmmMark pmm first pages) first pages := by
  refine ⟨marked_pmmMark pmm first pages, rfl, rfl, fun counted => ?_⟩
  rw [counted.freeFrames_pmmMark free fits]
  exact Nat.sub_add_cancel (counted.pages_le free fits)

theorem pmmHighFrame_le (pmm : Pmm) (max : ℕ) : pmmHighFrame pmm max ≤ pmm.totalFrames := by
  rw [pmmHighFrame]
  split_ifs
  · exact le_rfl
  · exact Nat.min_le_left ..

/-- A run between the frames of the bounds lies between the bounds. -/
theorem pmmRuns_between {first : ℕ}
    (member : first ∈ pmm.runs (pmmLowFrame min) (pmmHighFrame pmm max) pages) :
    min ≤ 4096 * first ∧ (max ≠ 0 → 4096 * first + pages * 4096 ≤ max) := by
  obtain ⟨lower, upper, -⟩ := member
  rw [pmmLowFrame] at lower
  refine ⟨by omega, fun bounded => ?_⟩
  rw [pmmHighFrame, if_neg bounded] at upper
  have below : Nat.min pmm.totalFrames (max / 4096) ≤ max / 4096 := Nat.min_le_right ..
  omega

/-- If both searches of `pmm_alloc` look for the wanted runs, it is exact. -/
theorem pmmAlloc_cases_wanted (pages_pos : 0 < pages) (policy : PmmPolicy) :
    (∃ first, pmmAlloc pmm min max pages policy = (.ok (4096 * first), pmmMark pmm first pages) ∧
        (IsLeast (pmm.runs (pmmStartFrame min) (pmmMaxFrame pmm max) pages) first ∨
          policy = .fallback ∧ pmm.runs (pmmStartFrame min) (pmmMaxFrame pmm max) pages = ∅ ∧
            IsLeast (pmm.runs 0 pmm.totalFrames pages) first)) ∨
      pmmAlloc pmm min max pages policy = (.error .nomem, pmm) ∧
        pmm.runs (pmmStartFrame min) (pmmMaxFrame pmm max) pages = ∅ ∧
        (policy = .fallback → pmm.runs 0 pmm.totalFrames pages = ∅) := by
  have all : pmmStartFrame 0 = 0 ∧ pmmMaxFrame pmm 0 = pmm.totalFrames :=
    ⟨rfl, Nat.min_self _⟩
  have address_eq (first : ℕ) : pmmFrameToAddr first = 4096 * first := Nat.mul_comm ..
  unfold pmmAlloc
  rw [if_neg (by omega)]
  cases search : pmmSearch pmm min max pages with
  | some first =>
      refine .inl ⟨first, ?_, .inl (pmmSearch_isLeast pages_pos search)⟩
      rw [← address_eq]
  | none =>
      have empty := pmmSearch_eq_none pages_pos search
      cases policy with
      | strict => exact .inr ⟨rfl, empty, fun fallback => by cases fallback⟩
      | fallback =>
          simp only [pmmAllocStrict, if_neg (show pages ≠ 0 by omega)]
          cases retry : pmmSearch pmm 0 0 pages with
          | some first =>
              have least := pmmSearch_isLeast pages_pos retry
              rw [all.1, all.2] at least
              refine .inl ⟨first, ?_, .inr ⟨trivial, empty, least⟩⟩
              rw [← address_eq]
          | none =>
              have none_left := pmmSearch_eq_none pages_pos retry
              rw [all.1, all.2] at none_left
              exact .inr ⟨rfl, empty, fun _ => none_left⟩

/-- `pmm_alloc` is exact if its search finds the first wanted run when there is a run, and no run is
wanted but those of the second search otherwise. -/
theorem pmmAllocExact_of_search (pages_pos : 0 < pages) {policy : PmmPolicy}
    (found : ∀ first, IsLeast (pmm.runs (pmmStartFrame min) (pmmMaxFrame pmm max) pages) first →
      IsLeast (pmmWanted pmm min max pages policy) first)
    (strictly : policy = .strict →
      ∀ first ∈ pmm.runs (pmmStartFrame min) (pmmMaxFrame pmm max) pages,
      first ∈ pmm.runs (pmmLowFrame min) (pmmHighFrame pmm max) pages)
    (strict : policy = .strict → pmm.runs (pmmStartFrame min) (pmmMaxFrame pmm max) pages = ∅ →
      pmmWanted pmm min max pages policy = ∅)
    (fallback : policy = .fallback →
      pmm.runs (pmmStartFrame min) (pmmMaxFrame pmm max) pages = ∅ →
        pmmWanted pmm min max pages policy = pmm.runs 0 pmm.totalFrames pages) :
    PmmAllocExact pmm min max pages policy := by
  rcases @pmmAlloc_cases_wanted pmm min max pages pages_pos policy with
    ⟨first, alloc, which⟩ | ⟨alloc, empty, all⟩
  · have least : IsLeast (pmmWanted pmm min max pages policy) first := by
      rcases which with search | ⟨policy_eq, empty, retry⟩
      · exact found first search
      · rw [fallback policy_eq empty]
        exact retry
    have run : first + pages ≤ pmm.totalFrames ∧ pmm.FreeRun first pages := by
      rcases which with ⟨⟨-, upper, free⟩, -⟩ | ⟨-, -, ⟨-, upper, free⟩, -⟩
      · exact ⟨upper.trans (pmmMaxFrame_le pmm max), free⟩
      · exact ⟨upper, free⟩
    refine ⟨⟨fun _ => ⟨first, least.1⟩, fun _ => ⟨_, _, alloc⟩⟩, fun address pmm' result => ?_,
      fun address pmm' result policy_eq => ?_, fun error pmm' result => ?_⟩
    · rw [alloc] at result
      cases result
      exact ⟨first, least, rfl, pmmTaken_pmmMark run.2 run.1⟩
    · rw [alloc] at result
      cases result
      rcases which with search | ⟨fallback_eq, -⟩
      · exact pmmRuns_between (strictly policy_eq first search.1)
      · rw [policy_eq] at fallback_eq
        cases fallback_eq
    · rw [alloc] at result
      cases result
  · have none_wanted : pmmWanted pmm min max pages policy = ∅ := by
      cases policy with
      | strict => exact strict rfl empty
      | fallback => rw [fallback rfl empty, all rfl]
    refine ⟨⟨fun success => ?_, fun wanted => ?_⟩, fun address pmm' result => ?_,
      fun address pmm' result => ?_, fun error pmm' result => ?_⟩
    · obtain ⟨address, pmm', result⟩ := success
      rw [alloc] at result
      cases result
    · rw [none_wanted] at wanted
      exact absurd wanted Set.not_nonempty_empty
    · rw [alloc] at result
      cases result
    · rw [alloc] at result
      cases result
    · rw [alloc] at result
      cases result
      exact ⟨rfl, rfl⟩

/-- If the lower bound does not wrap, the search looks for the wanted runs. -/
theorem pmmAllocExact_of_le (pages_pos : 0 < pages) (min_le : min ≤ 2 ^ 44 - 4096)
    (max_lt : max < 2 ^ 44) (policy : PmmPolicy) : PmmAllocExact pmm min max pages policy := by
  have start_eq : pmmStartFrame min = pmmLowFrame min := by
    rw [pmmStartFrame_eq (by omega), if_pos min_le]
  refine pmmAllocExact_of_search pages_pos ?_ ?_ ?_ ?_ <;> rw [start_eq, pmmMaxFrame_eq max_lt]
  · intro first least
    cases policy with
    | strict => exact least
    | fallback =>
        refine ⟨.inl least.1, fun other member => ?_⟩
        rcases member with search | ⟨empty, -⟩
        · exact least.2 search
        · rw [empty] at least
          exact absurd least.1 (Set.notMem_empty _)
  · exact fun _ _ member => member
  · rintro rfl empty
    exact empty
  · rintro rfl empty
    ext first
    constructor
    · rintro (search | ⟨-, member⟩)
      · rw [empty] at search
        exact absurd search (Set.notMem_empty _)
      · exact member
    · exact fun member => .inr ⟨empty, member⟩

/-- No run lies at or above the last page of the 44-bit addresses. -/
theorem pmmRuns_above (total_lt : pmm.totalFrames < 2 ^ 32) (pages_pos : 0 < pages)
    (above : 2 ^ 44 - 4096 < min) :
    pmm.runs (pmmLowFrame min) (pmmHighFrame pmm max) pages = ∅ := by
  refine Set.eq_empty_of_forall_notMem fun first member => ?_
  obtain ⟨lower, upper, -⟩ := member
  have high_le := pmmHighFrame_le pmm max
  rw [pmmLowFrame] at lower
  omega

/-- If the lower bound wraps, the fallback policy still returns the first of all runs. -/
theorem pmmAllocExact_fallback_of_lt (total_lt : pmm.totalFrames < 2 ^ 32) (pages_pos : 0 < pages)
    (above : 2 ^ 44 - 4096 < min) (min_lt : min < 2 ^ 44) (max_lt : max < 2 ^ 44) :
    PmmAllocExact pmm min max pages .fallback := by
  have start_eq : pmmStartFrame min = 0 := by
    rw [pmmStartFrame_eq min_lt, if_neg (by omega)]
  have wanted_eq : pmmWanted pmm min max pages .fallback = pmm.runs 0 pmm.totalFrames pages := by
    simp only [pmmWanted, pmmRuns_above total_lt pages_pos above, Set.mem_empty_iff_false,
      false_or, true_and, Set.ofPred_mem_eq]
  refine pmmAllocExact_of_search pages_pos ?_ ?_ ?_ ?_ <;> rw [start_eq, pmmMaxFrame_eq max_lt]
  · intro first least
    obtain ⟨⟨lower, upper, free⟩, first_le⟩ := least
    have high_le := pmmHighFrame_le pmm max
    rw [wanted_eq]
    refine ⟨⟨lower, upper.trans high_le, free⟩, fun other member => ?_⟩
    by_contra later
    exact later (first_le ⟨member.1, by omega, member.2.2⟩)
  · intro policy_eq
    cases policy_eq
  · intro policy_eq
    cases policy_eq
  · exact fun _ _ => wanted_eq

/-- For bounds below 2 ^ 44, `pmm_alloc` is an exact first fit unless the lower bound lies in the
last page of these addresses, the policy is strict and there is a free run below the upper bound. -/
theorem pmmAlloc_exact_iff (total_lt : pmm.totalFrames < 2 ^ 32) (pages_pos : 0 < pages)
    (min_lt : min < 2 ^ 44) (max_lt : max < 2 ^ 44) (policy : PmmPolicy) :
    PmmAllocExact pmm min max pages policy ↔
      min ≤ 2 ^ 44 - 4096 ∨ policy = .fallback ∨
        pmm.runs 0 (pmmHighFrame pmm max) pages = ∅ := by
  rcases Nat.lt_or_ge (2 ^ 44 - 4096) min with above | min_le
  · have start_eq : pmmStartFrame min = 0 := by
      rw [pmmStartFrame_eq min_lt, if_neg (by omega)]
    cases policy with
    | fallback =>
        exact iff_of_true (pmmAllocExact_fallback_of_lt total_lt pages_pos above min_lt max_lt)
          (.inr (.inl rfl))
    | strict =>
        have none_wanted : pmmWanted pmm min max pages .strict = ∅ :=
          pmmRuns_above total_lt pages_pos above
        constructor
        · intro exactly
          refine .inr (.inr ?_)
          rcases @pmmAlloc_cases_wanted pmm min max pages pages_pos .strict with
            ⟨first, alloc, -⟩ | ⟨-, empty, -⟩
          · have wanted := exactly.succeeds.mp ⟨_, _, alloc⟩
            rw [none_wanted] at wanted
            exact absurd wanted Set.not_nonempty_empty
          · rwa [start_eq, pmmMaxFrame_eq max_lt] at empty
        · rintro (small | fallback | empty)
          · omega
          · cases fallback
          · refine pmmAllocExact_of_search pages_pos ?_ ?_ ?_ ?_ <;>
              rw [start_eq, pmmMaxFrame_eq max_lt, empty]
            · exact fun first least => absurd least.1 (Set.notMem_empty _)
            · exact fun _ first member => absurd member (Set.notMem_empty _)
            · exact fun _ _ => none_wanted
            · intro policy_eq
              cases policy_eq
  · exact iff_of_true (pmmAllocExact_of_le pages_pos min_le max_lt policy) (.inl min_le)

/-- Eight frames, of which frames 0, 2 and 3 are allocated. -/
def eightFrames : Pmm where
  bm := { data := fun _ => 0b1101, nbits := 8 }
  maxAddr := 8 * 4096
  totalFrames := 8
  freeFrames := 5

/-- Two pages are found behind the run of frame 1, which is too short. -/
theorem pmmAlloc_exact_eightFrames : PmmAllocExact eightFrames 4096 0 2 .strict ∧
    (pmmAlloc eightFrames 4096 0 2 .strict).1 = .ok (4 * 4096) :=
  ⟨(pmmAlloc_exact_iff (by decide) (by decide) (by decide) (by decide) .strict).mpr
    (.inl (by decide)), by decide⟩

/-- One free frame. -/
def oneFrame : Pmm where
  bm := { data := fun _ => 0, nbits := 1 }
  maxAddr := 4096
  totalFrames := 1
  freeFrames := 1

/-- With the last page as lower bound the strict policy hands out frame 0. -/
theorem pmmAlloc_below_lower_bound :
    (pmmAlloc oneFrame (2 ^ 44 - 1) 0 1 .strict).1 = .ok 0 ∧
      ¬ PmmAllocExact oneFrame (2 ^ 44 - 1) 0 1 .strict := by
  have zero : (pmmAlloc oneFrame (2 ^ 44 - 1) 0 1 .strict).1 = .ok 0 := by decide
  refine ⟨zero, fun exactly => ?_⟩
  have between := exactly.between 0 (pmmAlloc oneFrame (2 ^ 44 - 1) 0 1 .strict).2
    (Prod.ext zero rfl) rfl
  exact absurd between.1 (by decide)

end Alloc

/-! ## Release -/

/-- The pages at an address are allocated frames of the bitmap. -/
structure PmmFreeable (pmm : Pmm) (addr pages : ℕ) : Prop where
  positive : 0 < pages
  aligned : addr % 4096 = 0
  inside : addr + pages * 4096 ≤ pmm.totalFrames * 4096
  marked : ∀ frame, addr / 4096 ≤ frame → frame < addr / 4096 + pages → pmm.Marked frame

/-- Exactly the frames of a run have become free. -/
structure PmmReleased (pmm pmm' : Pmm) (first pages : ℕ) : Prop where
  marked : ∀ frame, pmm'.Marked frame ↔
    ¬ (first ≤ frame ∧ frame < first + pages) ∧ pmm.Marked frame
  total : pmm'.totalFrames = pmm.totalFrames
  counter : pmm'.freeFrames = (pmm.freeFrames + pages) % 2 ^ 32
  grown : pmm.Counted → pmm'.freeFrames = pmm.freeFrames + pages

/-- `pmm_free` accepts exactly the allocated frames of the bitmap and releases them, and otherwise
fails without effect. -/
structure PmmFreeExact (pmm : Pmm) (addr pages : ℕ) : Prop where
  succeeds : (pmmFree pmm addr pages).1 = .ok () ↔ PmmFreeable pmm addr pages
  released : (pmmFree pmm addr pages).1 = .ok () →
    PmmReleased pmm (pmmFree pmm addr pages).2 (addr / 4096) pages
  fails : (pmmFree pmm addr pages).1 ≠ .ok () → (pmmFree pmm addr pages).2 = pmm

section Free

variable {pmm : Pmm} {addr pages : ℕ}

/-- The frame number of an address has 32 bits. -/
theorem pmmAddrToFrame_eq (addr : ℕ) : pmmAddrToFrame addr = addr % 2 ^ 44 / 4096 := by
  unfold pmmAddrToFrame pmmFrameSize
  omega

/-- What `pmm_free` accepts: the address is reduced to 44 bits. -/
theorem pmmFree_eq_ok_iff (total_lt : pmm.totalFrames < 2 ^ 32) :
    (pmmFree pmm addr pages).1 = .ok () ↔ PmmFreeable pmm (addr % 2 ^ 44) pages := by
  constructor
  · intro accepted
    have aligned : addr % 4096 = 0 := by
      by_contra unaligned
      unfold pmmFree at accepted
      split at accepted
      · cases accepted
      · cases accepted
    rcases pmmFree_cases pmm addr pages with ⟨error, result⟩ | ⟨-, positive, inside, marked⟩
    · rw [result] at accepted
      cases accepted
    · rw [pmmAddrToFrame_eq] at inside marked
      exact ⟨positive, by omega, by omega, marked⟩
  · rintro ⟨positive, aligned, inside, marked⟩
    have result := pmmFree_of_marked positive total_lt (by omega) marked
    have whole : addr % 2 ^ 44 / 4096 * 4096 = addr % 2 ^ 44 := by omega
    have truncated : pmmFree pmm addr pages = pmmFree pmm (addr % 2 ^ 44) pages := by
      simp only [pmmFree, pmmAddrToFrame_eq, pmmFrameSize, Nat.mod_mod,
        show addr % 2 ^ 44 % 4096 = addr % 4096 by omega]
    rw [truncated, ← whole, result]

theorem pmmReleased_pmmUnmark {first : ℕ} (fits : first + pages ≤ pmm.totalFrames)
    (marked : ∀ frame, first ≤ frame → frame < first + pages → pmm.Marked frame) :
    PmmReleased pmm (pmmUnmark pmm first pages) first pages := by
  refine ⟨marked_pmmUnmark pmm first pages, rfl, rfl, fun counted => ?_⟩
  exact counted.freeFrames_pmmUnmark fits marked

/-- A release of allocated pages clears their frames. -/
theorem pmmFree_released (freeable : PmmFreeable pmm addr pages)
    (total_lt : pmm.totalFrames < 2 ^ 32) :
    PmmReleased pmm (pmmFree pmm addr pages).2 (addr / 4096) pages := by
  obtain ⟨positive, aligned, inside, marked⟩ := freeable
  have fits : addr / 4096 + pages ≤ pmm.totalFrames := by omega
  have whole : addr / 4096 * 4096 = addr := by omega
  have result := pmmFree_of_marked positive total_lt fits marked
  rw [whole] at result
  rw [result]
  exact pmmReleased_pmmUnmark fits marked

theorem pmmFree_snd_of_error (failed : (pmmFree pmm addr pages).1 ≠ .ok ()) :
    (pmmFree pmm addr pages).2 = pmm := by
  rcases pmmFree_cases pmm addr pages with ⟨error, result⟩ | ⟨result, -⟩
  · rw [result]
  · exact absurd (by rw [result]) failed

/-- `pmm_free` is exact unless the address is at or above 2 ^ 44 and the pages at its low 44 bits
are allocated. -/
theorem pmmFree_exact_iff (pmm : Pmm) (addr pages : ℕ) (total_lt : pmm.totalFrames < 2 ^ 32) :
    PmmFreeExact pmm addr pages ↔ addr < 2 ^ 44 ∨ ¬ PmmFreeable pmm (addr % 2 ^ 44) pages := by
  have accepted := @pmmFree_eq_ok_iff pmm addr pages total_lt
  by_cases small : addr < 2 ^ 44
  · rw [Nat.mod_eq_of_lt small] at accepted
    refine iff_of_true ⟨accepted, fun success => ?_, pmmFree_snd_of_error⟩ (.inl small)
    exact pmmFree_released (accepted.mp success) total_lt
  · have outside : ¬ PmmFreeable pmm addr pages := by
      rintro ⟨positive, -, inside, -⟩
      omega
    constructor
    · intro exactly
      exact .inr fun freeable => outside (exactly.succeeds.mp (accepted.mpr freeable))
    · rintro (below | rejected)
      · exact absurd below small
      · have failed : (pmmFree pmm addr pages).1 ≠ .ok () := fun success =>
          rejected (accepted.mp success)
        exact ⟨iff_of_false failed outside, fun success => absurd success failed,
          pmmFree_snd_of_error⟩

/-- Frames 2 and 3 are released together, frames 3 and 4 are not. -/
theorem pmmFree_exact_eightFrames : PmmFreeExact eightFrames (2 * 4096) 2 ∧
    (pmmFree eightFrames (2 * 4096) 2).1 = .ok () ∧ PmmFreeExact eightFrames (3 * 4096) 2 ∧
    (pmmFree eightFrames (3 * 4096) 2).1 = .error .inval :=
  ⟨(pmmFree_exact_iff eightFrames (2 * 4096) 2 (by decide)).mpr (.inl (by decide)), by decide,
    (pmmFree_exact_iff eightFrames (3 * 4096) 2 (by decide)).mpr (.inl (by decide)), by decide⟩

/-- One allocated frame. -/
def oneTaken : Pmm := pmmMark oneFrame 0 1

/-- Address 2 ^ 44 is taken for frame 0. -/
theorem pmmFree_above_memory :
    (pmmFree oneTaken (2 ^ 44) 1).1 = .ok () ∧ ¬ PmmFreeExact oneTaken (2 ^ 44) 1 := by
  have success : (pmmFree oneTaken (2 ^ 44) 1).1 = .ok () := by decide
  refine ⟨success, fun exactly => ?_⟩
  exact absurd (exactly.succeeds.mp success).inside (by decide)

end Free

end ItWorksOS
