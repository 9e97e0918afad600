import ItWorksOS.Mm.KernelVm

/-!
# Kernel stacks of `mm/kernel_stack.c`

A kernel stack is a slot of four pages in a region of its own. The slots in use are kept in a
bitmap, and the frames of a stack only in the kernel page tables, from which they are read back when
the stack is released.
-/

namespace ItWorksOS

/-- `VM_GROWSDOWN`. -/
abbrev vmGrowsdown : ℕ := 16

/-- `KERNEL_STACK_PAGES`. -/
abbrev kernelStackPages : ℕ := 4

/-- `KERNEL_STACK_BASE`. -/
abbrev kernelStackBase : ℕ := 0xF0000000

/-- `KERNEL_STACK_MAX`. -/
abbrev kernelStackMax : ℕ := 64

/-- `struct kernel_stack`. -/
structure KernelStack where
  /-- First address. -/
  base : ℕ
  /-- `stack_pointer`. -/
  stackPointer : ℕ
  /-- Size in bytes. -/
  size : ℕ
  deriving DecidableEq, Repr

/-- The kernel and `kernel_stack_bm`. -/
structure KstackState (Heap : Type*) where
  /-- Memory management. -/
  kernel : Kernel Heap
  /-- Slots in use. -/
  bm : Bitmap

variable {Heap : Type*}

/-- The kernel with another frame allocator. -/
def Kernel.setPmm (kernel : Kernel Heap) (pmm : Pmm) : Kernel Heap :=
  { kernel with machine := { kernel.machine with pmm := pmm } }

/-- Flags of the pages of a stack. -/
abbrev kstackFlags : ℕ := vmGrowsdown ||| vmRead ||| vmWrite

/-- The loop of `kstack_alloc` over `count` pages from page `i`. -/
def kstackMapPages (base : ℕ) : ℕ → ℕ → Kernel Heap → Status × Kernel Heap
  | 0, _, kernel => (.ok (), kernel)
  | count + 1, i, kernel =>
      match pmmAllocAny kernel.machine.pmm 1 with
      | (.error error, pmm) => (.error error, kernel.setPmm pmm)
      | (.ok frame, pmm) =>
          kerrTry (vmKernMap (kernel.setPmm pmm) ((base + i * archVmPageSize) % 2 ^ 32) frame
            archVmPageSize kstackFlags) fun kernel => kstackMapPages base count (i + 1) kernel

/-- `kstack_alloc`. -/
def kstackAlloc (state : KstackState Heap) (stack : KernelStack) :
    Status × KernelStack × KstackState Heap :=
  if stack.base ≠ 0 ∨ stack.size ≠ 0 then (.error .existing, stack, state)
  else
    match bitmapFindZero state.bm with
    | none => (.error .nospc, stack, state)
    | some pos =>
        let base := (kernelStackBase + kernelStackPages * pos * archVmPageSize) % 2 ^ 32
        match kstackMapPages base kernelStackPages 0 state.kernel with
        | (.error error, kernel) => (.error error, stack, { state with kernel := kernel })
        | (.ok (), kernel) =>
            (.ok (), { stack with base := base, size := kernelStackPages * archVmPageSize },
              { kernel := kernel, bm := bitmapSet state.bm pos })

/-- The loop of `kstack_free` over `count` pages from page `i`. -/
def kstackUnmapPages (base : ℕ) : ℕ → ℕ → Kernel Heap → Status × Kernel Heap
  | 0, _, kernel => (.ok (), kernel)
  | count + 1, i, kernel =>
      let virt := (base + i * archVmPageSize) % 2 ^ 32
      match vmKernTranslate kernel virt with
      | .error error => (.error error, kernel)
      | .ok phys =>
          kerrTry (vmKernUnmap kernel virt archVmPageSize) fun kernel =>
          kerrTry ((pmmFree kernel.machine.pmm phys 1).1,
            kernel.setPmm (pmmFree kernel.machine.pmm phys 1).2) fun kernel =>
          kstackUnmapPages base count (i + 1) kernel

/-- `kstack_free`. -/
def kstackFree (state : KstackState Heap) (stack : KernelStack) :
    Status × KernelStack × KstackState Heap :=
  if stack.base = 0 ∨ stack.size = 0 then (.error .noent, stack, state)
  else
    let pos :=
      (stack.base + 2 ^ 32 - kernelStackBase) % 2 ^ 32 / (kernelStackPages * archVmPageSize)
    match kstackUnmapPages stack.base kernelStackPages 0 state.kernel with
    | (.error error, kernel) => (.error error, stack, { state with kernel := kernel })
    | (.ok (), kernel) =>
        (.ok (), { base := 0, stackPointer := 0, size := 0 },
          { kernel := kernel, bm := bitmapClear state.bm pos })

/-! ## Mapping pages to fresh frames -/

section Pages

variable {kernelDir : ℕ} {dirs : List ℕ} {kernel mid kernel' : Kernel Heap} {first : ℕ}

/-- The allocator may change as long as the frames of page tables stay marked. -/
theorem KernelTables.setPmm (inv : KernelTables kernelDir dirs kernel) {pmm : Pmm}
    (total : pmm.totalFrames = kernel.machine.pmm.totalFrames)
    (marked : ∀ slot, Owned kernelDir dirs kernel.machine slot →
      pmm.Marked (slot.frame kernel.machine)) :
    KernelTables kernelDir dirs (kernel.setPmm pmm) := by
  have agree : ∀ slot, Owned kernelDir dirs kernel.machine slot → ByteMemory.AgreeOn
      kernel.machine.mem (kernel.setPmm pmm).machine.mem (slot.frame kernel.machine) :=
    fun _ _ _ _ => rfl
  obtain ⟨tables, ready, -⟩ := inv.tables.of_agree agree total marked
  exact ⟨tables, ready inv.ready, inv.kernelVm_eq⟩

/-- Consecutive kernel pages from an address have been mapped to fresh frames. -/
structure StackMapped (kernelDir : ℕ) (dirs : List ℕ) (kernel kernel' : Kernel Heap) (first : ℕ)
    (frames : List ℕ) : Prop where
  tables : KernelTables kernelDir dirs kernel'
  total : kernel'.machine.pmm.totalFrames = kernel.machine.pmm.totalFrames
  nodup : frames.Nodup
  fresh : ∀ frame ∈ frames, ¬ kernel.machine.pmm.Marked frame ∧
    frame < kernel.machine.pmm.totalFrames
  marked : ∀ frame, kernel'.machine.pmm.Marked frame ↔
    frame ∈ frames ∨ kernel.machine.pmm.Marked frame
  residue : ∀ frame, Residue kernelDir dirs kernel'.machine frame ↔
    frame ∈ frames ∨ Residue kernelDir dirs kernel.machine frame
  words : ∀ k frame, frames[k]? = some frame →
    pteWord kernel'.machine kernelDir (first + 4096 * k) = pteValue (frame * 4096) kstackFlags
  kept : ∀ va < 2 ^ 32, va < first ∨ first + 4096 * frames.length ≤ va →
    pteWord kernel'.machine kernelDir va = pteWord kernel.machine kernelDir va

theorem StackMapped.refl (inv : KernelTables kernelDir dirs kernel) :
    StackMapped kernelDir dirs kernel kernel first [] where
  tables := inv
  total := rfl
  nodup := List.nodup_nil
  fresh := by simp
  marked := by simp
  residue := by simp
  words := by simp
  kept _ _ _ := rfl

theorem StackMapped.cons {frame : ℕ} {frames : List ℕ}
    (page : StackMapped kernelDir dirs kernel mid first [frame])
    (rest : StackMapped kernelDir dirs mid kernel' (first + 4096) frames)
    (fits : first + 4096 * frames.length + 4096 ≤ 2 ^ 32) :
    StackMapped kernelDir dirs kernel kernel' first (frame :: frames) where
  tables := rest.tables
  total := rest.total.trans page.total
  nodup := by
    refine List.nodup_cons.mpr ⟨fun member => ?_, rest.nodup⟩
    exact (rest.fresh frame member).1 ((page.marked frame).mpr (.inl (List.mem_singleton_self _)))
  fresh := by
    rw [List.forall_mem_cons]
    refine ⟨page.fresh frame (List.mem_singleton_self _), fun other member => ?_⟩
    obtain ⟨free, below⟩ := rest.fresh other member
    exact ⟨fun marked => free ((page.marked other).mpr (.inr marked)), page.total ▸ below⟩
  marked other := by
    rw [rest.marked, page.marked, List.mem_singleton, List.mem_cons]
    exact or_left_comm.trans or_assoc.symm
  residue other := by
    rw [rest.residue, page.residue, List.mem_singleton, List.mem_cons]
    exact or_left_comm.trans or_assoc.symm
  words k other at_k := by
    cases k with
    | zero =>
        rw [rest.kept _ (by omega) (.inl (by omega))]
        exact page.words 0 other at_k
    | succ k =>
        rw [show first + 4096 * (k + 1) = first + 4096 + 4096 * k by omega]
        exact rest.words k other at_k
  kept va va_lt outside := by
    rw [List.length_cons, Nat.mul_succ, ← Nat.add_assoc] at outside
    have page_outside : va < first ∨ first + 4096 * [frame].length ≤ va := by
      rw [List.length_singleton]
      omega
    rw [rest.kept va va_lt (by omega), page.kept va va_lt page_outside]

/-- An unmapped kernel page can be mapped to a free frame. -/
theorem vmKernMap_page (inv : KernelTables kernelDir dirs kernel) {frame : ℕ}
    (aligned : first % 4096 = 0) (kernel_le : kernelVirtOffset ≤ first)
    (fits : first + 4096 ≤ 2 ^ 32) (free : ¬ kernel.machine.pmm.Marked frame)
    (below : frame < kernel.machine.pmm.totalFrames)
    (unmapped : ¬ EntryPresent (pteWord kernel.machine kernelDir first)) :
    ∃ kernel', vmKernMap (kernel.setPmm (pmmMark kernel.machine.pmm frame 1)) first (frame * 4096)
        archVmPageSize kstackFlags = (.ok (), kernel') ∧
      StackMapped kernelDir dirs kernel kernel' first [frame] := by
  have free_run : kernel.machine.pmm.FreeRun frame 1 := by
    intro other lower upper
    obtain rfl : other = frame := by omega
    exact free
  have marked_inv : KernelTables kernelDir dirs
      (kernel.setPmm (pmmMark kernel.machine.pmm frame 1)) := by
    refine inv.setPmm rfl fun slot owned => ?_
    rw [marked_pmmMark]
    exact .inr (inv.tables.placed slot owned).2.2
  have residue := residue_pmmMark inv.tables free_run
  have range : PageRange first archVmPageSize := ⟨aligned, by decide, by decide, fits⟩
  obtain ⟨machine, mapped, rewritten⟩ := vmKernMap_unmapped marked_inv range kernel_le
    (Nat.mul_mod_left frame 4096)
    (fun page page_lt => by obtain rfl : page = 0 := Nat.lt_one_iff.mp page_lt; exact unmapped)
    kstackFlags
  rw [show archVmPageSize / 4096 = 1 from rfl] at rewritten
  have sameTables := rewritten.sameTables (fun _ member => member)
    (List.nodup_cons.mp inv.tables.nodup).1
  refine ⟨{ kernel with machine := machine }, mapped, marked_inv.rewritten rewritten,
    rewritten.total, List.nodup_singleton frame, ?_, fun other => ?_, fun other => ?_, ?_, ?_⟩
  · simpa using ⟨free, below⟩
  · rw [sameTables.marked_iff marked_inv.tables rewritten.tables rewritten.residue, Kernel.setPmm,
      marked_pmmMark, List.mem_singleton]
    exact or_congr_left (by omega)
  · rw [rewritten.residue, Kernel.setPmm, residue, List.mem_singleton]
    exact or_congr_left (by omega)
  · intro k other at_k
    obtain ⟨rfl, rfl⟩ : k = 0 ∧ other = frame := by
      cases k with
      | zero => exact ⟨rfl, (Option.some.inj at_k).symm⟩
      | succ k => cases at_k
    have inside : (kernelDir, first) ∈ rangeOf kernelDir first 1 :=
      mem_rangeOf.mpr ⟨⟨le_rfl, by omega⟩, .inl rfl⟩
    rw [Nat.mul_zero, Nat.add_zero,
      rewritten.replaced kernelDir (List.mem_cons_self ..) first (by omega) inside, mapWord,
      Nat.div_mul_cancel (Nat.dvd_of_mod_eq_zero aligned), Nat.sub_self, Nat.add_zero]
  · intro va va_lt outside
    refine rewritten.kept kernelDir (List.mem_cons_self ..) va va_lt fun inside => ?_
    obtain ⟨⟨lower, upper⟩, -⟩ := mem_rangeOf.mp inside
    rw [List.length_singleton] at outside
    omega

/-- The loop of `kstack_alloc` maps its pages to fresh frames, unless there are too few of them. -/
theorem kstackMapPages_cases (inv : KernelTables kernelDir dirs kernel) {base count i : ℕ}
    (aligned : base % 4096 = 0) (kernel_le : kernelVirtOffset ≤ base)
    (fits : base + 4096 * i + 4096 * count ≤ 2 ^ 32)
    (unmapped : ∀ k < count, ¬ EntryPresent
      (pteWord kernel.machine kernelDir (base + 4096 * i + 4096 * k))) :
    (∃ kernel', kstackMapPages base count i kernel = (.error .nomem, kernel') ∧
        ∀ free : Finset ℕ, (∀ frame ∈ free, ¬ kernel.machine.pmm.Marked frame ∧
          frame < kernel.machine.pmm.totalFrames) → free.card < count) ∨
      ∃ kernel' frames, kstackMapPages base count i kernel = (.ok (), kernel') ∧
        frames.length = count ∧
        StackMapped kernelDir dirs kernel kernel' (base + 4096 * i) frames := by
  induction count generalizing i kernel with
  | zero => exact .inr ⟨kernel, [], rfl, rfl, .refl inv⟩
  | succ count induction =>
      rw [Nat.mul_succ, ← Nat.add_assoc] at fits
      rw [kstackMapPages]
      rcases pmmAllocAny_cases kernel.machine.pmm with
        ⟨failed, full⟩ | ⟨frame, allocated, below, free⟩
      · rw [failed]
        refine .inl ⟨_, rfl, fun free frames => ?_⟩
        rw [Finset.eq_empty_of_forall_notMem fun frame member =>
          (frames frame member).1 (full frame (frames frame member).2)]
        exact Nat.succ_pos count
      · have virt : (base + i * archVmPageSize) % 2 ^ 32 = base + 4096 * i := by
          rw [show archVmPageSize = 4096 from rfl]
          omega
        obtain ⟨mid, mapped, page⟩ := vmKernMap_page inv
          (show (base + 4096 * i) % 4096 = 0 by omega) (by omega) (by omega) free below
          (unmapped 0 (by omega))
        have later : ∀ k < count, ¬ EntryPresent
            (pteWord mid.machine kernelDir (base + 4096 * (i + 1) + 4096 * k)) := by
          intro k bound
          rw [Nat.mul_succ, ← Nat.add_assoc]
          rw [page.kept _ (by omega) (.inr (by rw [List.length_singleton]; omega))]
          have next := unmapped (k + 1) (by omega)
          rw [Nat.mul_succ, ← Nat.add_assoc, Nat.add_right_comm] at next
          exact next
        rw [allocated]
        simp only [virt, mapped, kerrTry_ok]
        rcases induction page.tables (i := i + 1) (by rw [Nat.mul_succ]; omega) later with
          ⟨kernel', failed, few⟩ | ⟨kernel', frames, ran, length, rest⟩
        · refine .inl ⟨kernel', failed, fun free frames => ?_⟩
          have fewer := few (free.erase frame) fun other member => by
            obtain ⟨differ, old⟩ := Finset.mem_erase.mp member
            rw [page.marked, List.mem_singleton, page.total]
            exact ⟨fun marked => (frames other old).1 (marked.resolve_left differ),
              (frames other old).2⟩
          have := Finset.pred_card_le_card_erase (s := free) (a := frame)
          omega
        · refine .inr ⟨kernel', frame :: frames, ran, by rw [List.length_cons, length], ?_⟩
          rw [Nat.mul_succ, ← Nat.add_assoc] at rest
          exact page.cons rest (by omega)

/-! ## Releasing pages -/

/-- Consecutive kernel pages from an address have been unmapped, and their frames released. -/
structure StackUnmapped (kernelDir : ℕ) (dirs : List ℕ) (kernel kernel' : Kernel Heap) (first : ℕ)
    (frames : List ℕ) : Prop where
  tables : KernelTables kernelDir dirs kernel'
  total : kernel'.machine.pmm.totalFrames = kernel.machine.pmm.totalFrames
  marked : ∀ frame, kernel'.machine.pmm.Marked frame ↔
    frame ∉ frames ∧ kernel.machine.pmm.Marked frame
  residue : ∀ frame, Residue kernelDir dirs kernel'.machine frame ↔
    frame ∉ frames ∧ Residue kernelDir dirs kernel.machine frame
  words : ∀ k < frames.length, pteWord kernel'.machine kernelDir (first + 4096 * k) = 0
  kept : ∀ va < 2 ^ 32, va < first ∨ first + 4096 * frames.length ≤ va →
    pteWord kernel'.machine kernelDir va = pteWord kernel.machine kernelDir va

theorem StackUnmapped.cons {frame : ℕ} {frames : List ℕ}
    (page : StackUnmapped kernelDir dirs kernel mid first [frame])
    (rest : StackUnmapped kernelDir dirs mid kernel' (first + 4096) frames)
    (fits : first + 4096 * frames.length + 4096 ≤ 2 ^ 32) :
    StackUnmapped kernelDir dirs kernel kernel' first (frame :: frames) where
  tables := rest.tables
  total := rest.total.trans page.total
  marked other := by
    rw [rest.marked, page.marked, List.mem_singleton, List.mem_cons, not_or]
    exact and_left_comm.trans and_assoc.symm
  residue other := by
    rw [rest.residue, page.residue, List.mem_singleton, List.mem_cons, not_or]
    exact and_left_comm.trans and_assoc.symm
  words k bound := by
    cases k with
    | zero =>
        rw [rest.kept _ (by omega) (.inl (by omega))]
        exact page.words 0 Nat.one_pos
    | succ k =>
        rw [Nat.mul_succ, ← Nat.add_assoc, Nat.add_right_comm]
        exact rest.words k (Nat.lt_of_succ_lt_succ bound)
  kept va va_lt outside := by
    rw [List.length_cons, Nat.mul_succ, ← Nat.add_assoc] at outside
    have page_outside : va < first ∨ first + 4096 * [frame].length ≤ va := by
      rw [List.length_singleton]
      omega
    rw [rest.kept va va_lt (by omega), page.kept va va_lt page_outside]

/-- A mapped kernel page with a frame of its own can be unmapped and its frame released. -/
theorem vmKernUnmap_page (inv : KernelTables kernelDir dirs kernel) {frame : ℕ}
    (aligned : first % 4096 = 0) (kernel_le : kernelVirtOffset ≤ first)
    (fits : first + 4096 ≤ 2 ^ 32)
    (mapped : EntryPresent (pteWord kernel.machine kernelDir first))
    (frame_eq : pteWord kernel.machine kernelDir first / 4096 = frame)
    (residue : Residue kernelDir dirs kernel.machine frame)
    (below : frame < kernel.machine.pmm.totalFrames) :
    vmKernTranslate kernel first = .ok (frame * 4096) ∧
    ∃ mid kernel', vmKernUnmap kernel first archVmPageSize = (.ok (), mid) ∧
      pmmFree mid.machine.pmm (frame * 4096) 1 = (.ok (), kernel'.machine.pmm) ∧
      mid.setPmm kernel'.machine.pmm = kernel' ∧
      StackUnmapped kernelDir dirs kernel kernel' first [frame] := by
  have valid : vmKernRangeValid first archVmPageSize = true :=
    vmKernRangeValid_iff.mpr
      ⟨by decide, kernel_le, by simp only [archVmPageSize, x86PageSize]; omega⟩
  have range : PageRange first archVmPageSize := ⟨aligned, by decide, by decide, fits⟩
  constructor
  · have single : vmKernRangeValid first 1 = true :=
      vmKernRangeValid_iff.mpr ⟨by decide, kernel_le, by omega⟩
    rw [vmKernTranslate, if_neg (by simp [single]), inv.kernelVm_eq,
      archVmTranslate_eq inv.tables (List.mem_cons_self ..) (by omega), if_pos mapped, frame_eq,
      aligned, Nat.add_zero]
  obtain ⟨done, machine, rewritten, -, ⟨passed, done_eq⟩ | ⟨-, done_lt, missing⟩⟩ :=
    archVmUnmap_cases inv.tables inv.ready (List.mem_cons_self ..) range
  · obtain rfl : done = 1 := done_eq
    have sameTables := rewritten.sameTables (fun _ member => member)
      (List.nodup_cons.mp inv.tables.nodup).1
    have mid_inv := inv.rewritten rewritten
    have mid_residue := (rewritten.residue frame).mpr residue
    have released : pmmFree machine.pmm (frame * 4096) 1 =
        (.ok (), pmmUnmark machine.pmm frame 1) := by
      refine pmmFree_of_marked (by decide) rewritten.tables.total_lt
        (by rw [rewritten.total]; omega)
        fun other lower upper => ?_
      obtain rfl : other = frame := by omega
      exact mid_residue.1
    have single (other : ℕ) : ¬ (frame ≤ other ∧ other < frame + 1) ↔ other ∉ [frame] := by
      rw [List.mem_singleton]
      omega
    have final_inv : KernelTables kernelDir dirs (Kernel.setPmm { kernel with machine := machine }
        (pmmUnmark machine.pmm frame 1)) := by
      refine mid_inv.setPmm rfl fun slot owned => ?_
      rw [marked_pmmUnmark, single, List.mem_singleton]
      exact ⟨mid_residue.2 slot owned, (mid_inv.tables.placed slot owned).2.2⟩
    refine ⟨{ kernel with machine := machine }, _, ?_, released, rfl, final_inv, rewritten.total,
      fun other => ?_, fun other => ?_, fun k bound => ?_, fun va va_lt outside => ?_⟩
    · rw [vmKernUnmap, if_neg (by simp [valid]), inv.kernelVm_eq, passed, Kernel.lift,
        ← inv.kernelVm_eq]
    · rw [Kernel.setPmm, marked_pmmUnmark, single,
        sameTables.marked_iff inv.tables rewritten.tables rewritten.residue]
    · rw [Kernel.setPmm, residue_pmmUnmark, single, rewritten.residue]
    · obtain rfl : k = 0 := Nat.lt_one_iff.mp bound
      have inside : (kernelDir, first) ∈ rangeOf kernelDir first 1 :=
        mem_rangeOf.mpr ⟨⟨le_rfl, by omega⟩, .inl rfl⟩
      rw [Nat.mul_zero, Nat.add_zero]
      exact rewritten.replaced kernelDir (List.mem_cons_self ..) first (by omega) inside
    · refine rewritten.kept kernelDir (List.mem_cons_self ..) va va_lt fun inside => ?_
      obtain ⟨⟨lower, upper⟩, -⟩ := mem_rangeOf.mp inside
      rw [List.length_singleton] at outside
      omega
  · obtain rfl : done = 0 := Nat.lt_one_iff.mp done_lt
    exact absurd mapped missing

/-- The loop of `kstack_free` releases the frames that its pages are mapped to. -/
theorem kstackUnmapPages_eq (inv : KernelTables kernelDir dirs kernel) {base i : ℕ}
    {frames : List ℕ} (aligned : base % 4096 = 0) (kernel_le : kernelVirtOffset ≤ base)
    (fits : base + 4096 * i + 4096 * frames.length ≤ 2 ^ 32) (nodup : frames.Nodup)
    (mapped : ∀ k frame, frames[k]? = some frame →
      EntryPresent (pteWord kernel.machine kernelDir (base + 4096 * i + 4096 * k)) ∧
        pteWord kernel.machine kernelDir (base + 4096 * i + 4096 * k) / 4096 = frame)
    (placed : ∀ frame ∈ frames, Residue kernelDir dirs kernel.machine frame ∧
      frame < kernel.machine.pmm.totalFrames) :
    ∃ kernel', kstackUnmapPages base frames.length i kernel = (.ok (), kernel') ∧
      StackUnmapped kernelDir dirs kernel kernel' (base + 4096 * i) frames := by
  induction frames generalizing i kernel with
  | nil =>
      exact ⟨kernel, rfl, inv, rfl, by simp, by simp, by simp, fun _ _ _ => rfl⟩
  | cons frame frames induction =>
      rw [List.length_cons, Nat.mul_succ, ← Nat.add_assoc] at fits
      rw [List.forall_mem_cons] at placed
      rw [List.nodup_cons] at nodup
      have virt : (base + i * archVmPageSize) % 2 ^ 32 = base + 4096 * i := by
        rw [show archVmPageSize = 4096 from rfl]
        omega
      obtain ⟨present, frame_eq⟩ := mapped 0 frame rfl
      obtain ⟨translated, mid, next, unmapped, released, next_eq, page⟩ := vmKernUnmap_page inv
        (show (base + 4096 * i) % 4096 = 0 by omega) (by omega) (by omega) present frame_eq
        placed.1.1 placed.1.2
      have later : ∀ k other, frames[k]? = some other →
          EntryPresent (pteWord next.machine kernelDir (base + 4096 * (i + 1) + 4096 * k)) ∧
            pteWord next.machine kernelDir (base + 4096 * (i + 1) + 4096 * k) / 4096 = other := by
        intro k other at_k
        have bound : k < frames.length := (List.getElem?_eq_some_iff.mp at_k).1
        have before := mapped (k + 1) other at_k
        rw [Nat.mul_succ, ← Nat.add_assoc, Nat.add_right_comm] at before
        rw [Nat.mul_succ, ← Nat.add_assoc,
          page.kept _ (by omega) (.inr (by rw [List.length_singleton]; omega))]
        exact before
      obtain ⟨kernel', ran, rest⟩ := induction page.tables (i := i + 1)
        (by rw [Nat.mul_succ]; omega) nodup.2 later fun other member => by
          obtain ⟨residue, below⟩ := placed.2 other member
          refine ⟨(page.residue other).mpr ⟨fun same => ?_, residue⟩, page.total ▸ below⟩
          exact nodup.1 (List.mem_singleton.mp same ▸ member)
      rw [Nat.mul_succ, ← Nat.add_assoc] at rest
      refine ⟨kernel', ?_, page.cons rest (by omega)⟩
      rw [List.length_cons, kstackUnmapPages]
      simp only [virt, translated, unmapped, kerrTry_ok, released, next_eq]
      exact ran

end Pages

end ItWorksOS
