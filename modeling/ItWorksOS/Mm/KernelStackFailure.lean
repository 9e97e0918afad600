import ItWorksOS.Mm.KernelStackRun

/-!
# Failing allocations of kernel stacks

An error in the loop of `kstack_alloc` returns at once: the pages mapped so far stay mapped, and
their frames allocated. Only an allocation that is refused before it takes a frame changes nothing.
-/

namespace ItWorksOS

variable {Heap : Type*}

/-- `kstack_alloc` left the frame allocator, the kernel mappings, the slots and the descriptor as
they were. -/
structure KstackUnchanged (state state' : KstackState Heap) (stack stack' : KernelStack) : Prop
    where
  pmm : state'.kernel.machine.pmm = state.kernel.machine.pmm
  translations : ∀ va, vmKernTranslate state'.kernel va = vmKernTranslate state.kernel va
  slots : state'.bm = state.bm
  descriptor : stack' = stack

/-- The descriptor or all slots are in use, or no frame is free. -/
def KstackRefused (state : KstackState Heap) (stack : KernelStack) : Prop :=
  stack.base ≠ 0 ∨ stack.size ≠ 0 ∨ (∀ pos < state.bm.nbits, bitmapTest state.bm pos = true) ∨
    ∀ frame < state.kernel.machine.pmm.totalFrames, state.Marked frame

/-! ## Frames that stay allocated -/

section Marks

variable {frame : ℕ}

/-- Mapping kernel pages releases no frame. -/
theorem vmKernMap_marked {kernel : Kernel Heap} (marked : kernel.machine.pmm.Marked frame)
    (virt phys size flags : ℕ) :
    (vmKernMap kernel virt phys size flags).2.machine.pmm.Marked frame := by
  rw [vmKernMap]
  split_ifs
  · exact marked
  · exact archVmMap_marked marked ..

theorem kstackMapPages_marked (base count i : ℕ) {kernel : Kernel Heap}
    (marked : kernel.machine.pmm.Marked frame) :
    (kstackMapPages base count i kernel).2.machine.pmm.Marked frame := by
  induction count generalizing i kernel with
  | zero => exact marked
  | succ count induction =>
      have kept : (pmmAllocAny kernel.machine.pmm 1).2.Marked frame := pmmAlloc_marked marked ..
      obtain ⟨⟨result, pmm⟩, allocated⟩ : ∃ result, pmmAllocAny kernel.machine.pmm 1 = result :=
        ⟨_, rfl⟩
      rw [allocated] at kept
      rw [kstackMapPages, allocated]
      cases result with
      | error error => exact kept
      | ok phys =>
          refine kerrTry_invariant (fun kernel : Kernel Heap => kernel.machine.pmm.Marked frame)
            ?_ fun kernel marked => induction _ marked
          exact vmKernMap_marked (show (kernel.setPmm pmm).machine.pmm.Marked frame from kept) ..

/-- A loop that gets its first frame keeps it. -/
theorem kstackMapPages_takes (base count i : ℕ) {kernel : Kernel Heap}
    (free : ∃ frame < kernel.machine.pmm.totalFrames, ¬ kernel.machine.pmm.Marked frame) :
    ∃ frame, ¬ kernel.machine.pmm.Marked frame ∧
      (kstackMapPages base (count + 1) i kernel).2.machine.pmm.Marked frame := by
  rcases pmmAllocAny_cases kernel.machine.pmm with ⟨-, full⟩ | ⟨frame, allocated, -, unmarked⟩
  · obtain ⟨frame, below, unmarked⟩ := free
    exact absurd (full frame below) unmarked
  · refine ⟨frame, unmarked, ?_⟩
    rw [kstackMapPages, allocated]
    refine kerrTry_invariant (fun kernel : Kernel Heap => kernel.machine.pmm.Marked frame)
      ?_ fun kernel marked => kstackMapPages_marked _ _ _ marked
    refine vmKernMap_marked ?_ ..
    show (pmmMark kernel.machine.pmm frame 1).Marked frame
    rw [marked_pmmMark]
    exact .inl ⟨le_rfl, Nat.lt_succ_self frame⟩

end Marks

/-! ## Refused allocations -/

variable {state state' : KstackState Heap} {stack stack' : KernelStack} {error : KError}

/-- A refused allocation fails without effect. -/
theorem kstackAlloc_refused (refused : KstackRefused state stack) :
    ∃ error, kstackAlloc state stack = (.error error, stack, state) := by
  rw [kstackAlloc]
  split_ifs with used
  · exact ⟨_, rfl⟩
  · rw [not_or, not_not, not_not] at used
    rcases bitmapFindZero_cases state.bm with ⟨full, -⟩ | ⟨pos, found, pos_lt, clear, -⟩
    · rw [full]
      exact ⟨_, rfl⟩
    · obtain unused | unused | slots | frames := refused
      · exact absurd used.1 unused
      · exact absurd used.2 unused
      · rw [slots pos pos_lt] at clear
        cases clear
      · rcases pmmAllocAny_cases state.kernel.machine.pmm with
          ⟨failed, -⟩ | ⟨frame, -, below, unmarked⟩
        · rw [found]
          simp only [kstackMapPages, failed]
          exact ⟨_, rfl⟩
        · exact absurd (frames frame below) unmarked

/-- A failing allocation that is not refused has taken a frame. -/
theorem kstackAlloc_takes (call : kstackAlloc state stack = (.error error, stack', state'))
    (accepted : ¬ KstackRefused state stack) :
    ∃ frame, ¬ state.Marked frame ∧ state'.Marked frame := by
  simp only [KstackRefused, not_or, not_not] at accepted
  obtain ⟨base, size, slots, frames⟩ := accepted
  push Not at frames
  rw [kstackAlloc, if_neg (by simp [base, size])] at call
  rcases bitmapFindZero_cases state.bm with ⟨-, all⟩ | ⟨pos, found, -, -⟩
  · exact absurd all slots
  · rw [found] at call
    have taken := kstackMapPages_takes
      ((kernelStackBase + kernelStackPages * pos * archVmPageSize) % 2 ^ 32) 3 0 frames
    obtain ⟨⟨status, kernel⟩, ran⟩ : ∃ result, kstackMapPages
        ((kernelStackBase + kernelStackPages * pos * archVmPageSize) % 2 ^ 32) kernelStackPages 0
        state.kernel = result := ⟨_, rfl⟩
    rw [show 3 + 1 = kernelStackPages from rfl, ran] at taken
    simp only [ran] at call
    cases status with
    | ok => cases call
    | error error =>
        cases call
        exact taken

/-- In every state, a failing allocation changes nothing exactly if it was refused. -/
theorem kstackUnchanged_iff (call : kstackAlloc state stack = (.error error, stack', state')) :
    KstackUnchanged state state' stack stack' ↔ KstackRefused state stack := by
  constructor
  · intro unchanged
    by_contra accepted
    obtain ⟨frame, unmarked, marked⟩ := kstackAlloc_takes call accepted
    rw [KstackState.Marked, unchanged.pmm] at marked
    exact unmarked marked
  · intro refused
    obtain ⟨_, failed⟩ := kstackAlloc_refused refused
    rw [failed] at call
    cases call
    exact ⟨rfl, fun _ => rfl, rfl, rfl⟩

/-! ## Runs -/

/-- Steps in which a failing allocation was refused. -/
inductive KstackRefusalStep : KstackRun Heap → KstackRun Heap → Prop
  | step {run run' : KstackRun Heap} (step : KstackStep run run') : KstackRefusalStep run run'
  | refused {run : KstackRun Heap} {id : ℕ} {error : KError} {stack : KernelStack}
      {state : KstackState Heap}
      (call : kstackAlloc run.state (run.descriptors id) = (.error error, stack, state))
      (refused : KstackRefused run.state (run.descriptors id)) :
      KstackRefusalStep run
        { run with state := state, descriptors := Function.update run.descriptors id stack }

theorem KstackRun.Inv.refusalSteps {kernelDir : ℕ} {dirs : List ℕ} {run run' : KstackRun Heap}
    (inv : run.Inv kernelDir dirs) (steps : Relation.ReflTransGen KstackRefusalStep run run') :
    ∃ dirs', run'.Inv kernelDir dirs' := by
  induction steps with
  | refl => exact ⟨dirs, inv⟩
  | tail _ step induction =>
      obtain ⟨dirs', inv⟩ := induction
      cases step with
      | step step => exact inv.step step
      | refused call refused =>
          obtain ⟨_, failed⟩ := kstackAlloc_refused refused
          rw [failed] at call
          cases call
          rw [Function.update_eq_self]
          exact ⟨dirs', inv⟩

/-- In every run whose failing allocations were refused, an allocation with a free slot and four
free frames succeeds; and in every state, reached or not, a failing allocation changes nothing
exactly if it was refused. -/
theorem kstackAlloc_atomic_of_run {kernel kernel' : Kernel Heap} {sections : KernelSections}
    {run : KstackRun Heap} (total_lt : kernel.machine.pmm.totalFrames < 2 ^ 32)
    (init : vmKernInit sections kernel = (.ok (), kernel'))
    (steps : Relation.ReflTransGen KstackRefusalStep (kstackBoot kernel') run) :
    (∀ id, (run.descriptors id).Zeroed →
      (∃ pos < kernelStackMax, bitmapTest run.state.bm pos = false) →
      ∀ free : Finset ℕ, (∀ frame ∈ free, ¬ run.state.Marked frame ∧
          frame < run.state.kernel.machine.pmm.totalFrames) → kernelStackPages ≤ free.card →
        ∃ stack state, kstackAlloc run.state (run.descriptors id) = (.ok (), stack, state)) ∧
    ∀ (state : KstackState Heap) (stack : KernelStack) error stack' state',
      kstackAlloc state stack = (.error error, stack', state') →
        (KstackUnchanged state state' stack stack' ↔ KstackRefused state stack) := by
  refine ⟨fun id zeroed ⟨pos, pos_lt, clear⟩ free frames enough => ?_,
    fun state stack error stack' state' call => kstackUnchanged_iff call⟩
  obtain ⟨kernelDir, tables, -, unmapped⟩ := vmKernInit_eq_ok total_lt init
  obtain ⟨dirs, inv⟩ := (kstackBoot_inv tables unmapped).refusalSteps steps
  rcases kstackAlloc_cases inv.slots zeroed with
    ⟨-, all⟩ | ⟨_, -, -, few⟩ | ⟨_, _, _, -, -, call, -⟩
  · rw [all pos pos_lt] at clear
    cases clear
  · have := few free frames
    omega
  · exact ⟨_, _, call⟩

theorem kstackAlloc_atomic_of_run_small : ∃ kernel run stack state,
    vmKernInit smallSections smallKernel = (.ok (), kernel) ∧
      Relation.ReflTransGen KstackRefusalStep (kstackBoot kernel) run ∧
      kstackAlloc run.state (run.descriptors 0) = (.error .existing, stack, state) ∧
      KstackUnchanged run.state state (run.descriptors 0) stack := by
  obtain ⟨kernel, run, booted, steps, live⟩ := smallKernel_kstack
  have refusal_steps : Relation.ReflTransGen KstackRefusalStep (kstackBoot kernel) run :=
    steps.lift id fun _ _ step => KstackRefusalStep.step step
  have call : kstackAlloc run.state (run.descriptors 0) =
      (.error .existing, run.descriptors 0, run.state) := by
    rw [kstackAlloc, if_pos (.inl live.1)]
  exact ⟨kernel, run, _, _, booted, refusal_steps, call,
    ((kstackAlloc_atomic_of_run (by decide) booted refusal_steps).2 _ _ _ _ _ call).mpr
      (.inl live.1)⟩

/-- The small machine with so little memory that two frames are left after `vm_kern_init`. -/
def tightKernel : Kernel ℕ := limitedKernel smallKernel.machine.mem 515

theorem tightKernel_init :
    ∃ kernel, vmKernInit smallSections tightKernel = (.ok (), kernel) ∧
      kernel.machine.pmm.lowSet.card = 2 ∧ kernel.machine.pmm.totalFrames = 515 := by
  have lowmem : tightKernel.machine.pmm.lowSet.card = 259 := by decide +kernel
  have total_lt : tightKernel.machine.pmm.totalFrames < 2 ^ 32 := by decide
  obtain ⟨_, _, booted, _⟩ := vmKernInit_ok total_lt (by omega) smallSections_text
    smallSections_rodata
  obtain ⟨_, _, _, total, lowSet_eq, _⟩ := vmKernInit_kept total_lt booted
  exact ⟨_, booted, by omega, total⟩

/-- With two frames left, the allocation of a stack fails at its third page, and its first two
frames stay allocated. -/
theorem kstackAlloc_leaks : ∃ kernel stack state,
    vmKernInit smallSections tightKernel = (.ok (), kernel) ∧
      kstackAlloc (kstackBoot kernel).state ⟨0, 0, 0⟩ = (.error .nomem, stack, state) ∧
      ¬ KstackUnchanged (kstackBoot kernel).state state ⟨0, 0, 0⟩ stack := by
  obtain ⟨kernel, booted, lowmem, total⟩ := tightKernel_init
  obtain ⟨kernelDir, tables, -, unmapped⟩ := vmKernInit_eq_ok (by decide) booted
  have inv := kstackBoot_inv tables unmapped
  have low {frame : ℕ} (below : frame < kernel.machine.pmm.totalFrames)
      (unmarked : ¬ kernel.machine.pmm.Marked frame) : frame ∈ kernel.machine.pmm.lowSet := by
    rw [← @freshFrame_iff _ kernel.machine]
    exact ⟨by omega, below, unmarked⟩
  have zeroed : (⟨0, 0, 0⟩ : KernelStack).Zeroed := ⟨rfl, rfl⟩
  rcases kstackAlloc_cases inv.slots zeroed with
    ⟨_, all⟩ | ⟨kernel', call, _, _⟩ | ⟨_, _, frames, _, _, _, length, fresh⟩
  · have := all 0 (by decide)
    simp [kstackBoot, bitmapTest] at this
  · refine ⟨kernel, _, _, booted, call, fun unchanged => ?_⟩
    obtain base | size | slots | full := (kstackUnchanged_iff call).mp unchanged
    · exact base rfl
    · exact size rfl
    · have := slots 0 (show 0 < kernelStackMax by decide)
      simp [kstackBoot, bitmapTest] at this
    · obtain ⟨frame, member⟩ := Finset.card_pos.mp
        (show 0 < kernel.machine.pmm.lowSet.card by omega)
      have free := (@freshFrame_iff _ kernel.machine).mpr member
      exact free.free (full frame free.below)
  · have inside : frames.toFinset ⊆ kernel.machine.pmm.lowSet := by
      intro frame member
      obtain ⟨unmarked, below⟩ := fresh.fresh frame (List.mem_toFinset.mp member)
      exact low below unmarked
    have few := Finset.card_le_card inside
    rw [List.toFinset_card_of_nodup fresh.nodup, length, lowmem] at few
    exact absurd few (by decide)

end ItWorksOS
