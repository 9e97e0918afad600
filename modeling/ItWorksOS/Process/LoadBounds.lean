import ItWorksOS.Process.LoadEffect

/-!
# Accesses of the loader

The offset of a descriptor is not compared with the size of the image before it is subtracted from
it: the previous descriptor has been parsed, so the image reaches up to the next one. The size of a
segment is whole pages once `vm_map` has accepted it.
-/

namespace ItWorksOS

variable {Heap : Type*} {ops : HeapOps Heap}

/-- LowMem frames that are free. -/
structure FreeLowmem (pmm : Pmm) (phys pages : ℕ) : Prop where
  aligned : phys % 4096 = 0
  lowmem : phys + 4096 * pages ≤ kernelLowmemLimit
  free : pmm.FreeRun (phys / 4096) pages

/-- The frames that were received last. -/
def lastFrames : List LoadAccess → Option (ℕ × ℕ)
  | [] => none
  | .frames phys pages :: _ => some (phys, pages)
  | _ :: earlier => lastFrames earlier

/-- Reads stay inside an image of the given size, and writes inside the frames that the segment has
received, which were free before. The arithmetic of the descriptors does not wrap. -/
def LoadAccess.InBounds (image size : ℕ) (pmm : Pmm) (earlier : List LoadAccess) :
    LoadAccess → Prop
  | .read address => image ≤ address ∧ address < image + size
  | .write address => ∃ phys pages, lastFrames earlier = some (phys, pages) ∧
      phys ≤ address ∧ address < phys + 4096 * pages
  | .descriptor i segOff left =>
      segOff = iwbf32HdrSize + iwbf32SegmentHdrSize * i ∧ segOff + left = size
  | .frames phys pages => FreeLowmem pmm phys pages

/-- All accesses are in bounds, each at its time. -/
def AccessesInBounds (image size : ℕ) (pmm : Pmm) : List LoadAccess → Prop
  | [] => True
  | access :: earlier =>
      access.InBounds image size pmm earlier ∧ AccessesInBounds image size pmm earlier

/-- All accesses so far are in bounds, and no frame has been released. -/
structure LoadState.Bounded (image size : ℕ) (pmm : Pmm) (state : LoadState Heap) : Prop where
  accesses : AccessesInBounds image size pmm state.accesses
  marked : ∀ frame, pmm.Marked frame → state.kernel.machine.pmm.Marked frame

section Bounds

variable {image size i phys pages : ℕ} {pmm : Pmm} {state : LoadState Heap} {seg : Iwbf32SegmentHdr}

/-- `vm_map` releases no frame. -/
theorem vmMap_marked (ops : HeapOps Heap) {kernel : Kernel Heap} {frame : ℕ}
    (marked : kernel.machine.pmm.Marked frame)
    (vm : VmSpace) (virt phys size flags : ℕ) :
    (vmMap (x86Env ops) vm virt phys size flags kernel).2.2.machine.pmm.Marked frame := by
  rcases vmMap_cases (x86Env ops) vm virt phys size flags kernel with
    ⟨_, result⟩ | ⟨_, ⟨_, result⟩ | ⟨before, after, ptr, middle, _, allocated, outcome⟩⟩
  · rw [result]
    exact marked
  · rw [result]
    exact marked
  obtain ⟨_, rfl⟩ := Prod.mk.inj allocated
  have kept := archVmMap_marked marked vm.arch virt phys size flags
  rcases outcome with ⟨_, result⟩ | ⟨_, state', ⟨mapped, result⟩ | ⟨_, failed, result⟩⟩
  · rw [result]
    exact marked
  · obtain ⟨_, rfl⟩ := Prod.mk.inj mapped
    rw [result]
    exact kept
  · obtain ⟨_, rfl⟩ := Prod.mk.inj failed
    obtain ⟨_, _, _, removed⟩ := vmRemoveVma_heap ops
      { vm with vmas := before ++ ⟨virt, (virt + size) % 2 ^ 32, flags, ptr⟩ :: after } virt _
    rw [result, removed]
    exact kept

/-- Reads of a part of the image. -/
theorem LoadState.Bounded.reads (bounded : state.Bounded image size pmm) {buf len : ℕ}
    {reads : List LoadAccess} (inside : ReadsInside buf len reads) (lower : image ≤ buf)
    (upper : buf + len ≤ image + size) :
    LoadState.Bounded image size pmm { state with accesses := reads ++ state.accesses } := by
  refine ⟨?_, bounded.marked⟩
  induction reads with
  | nil => exact bounded.accesses
  | cons access reads induction =>
      obtain ⟨address, rfl, first, last⟩ := inside access (List.mem_cons_self ..)
      have earlier := induction fun other member => inside other (List.mem_cons_of_mem _ member)
      exact ⟨⟨by omega, by omega⟩, earlier⟩

/-- A copy from the image into the frames received last. -/
theorem LoadState.Bounded.memcpy (bounded : state.Bounded image size pmm)
    (received : lastFrames state.accesses = some (phys, pages)) {dst src n : ℕ}
    (src_lower : image ≤ src) (src_upper : src + n ≤ image + size) (dst_lower : phys ≤ dst)
    (dst_upper : dst + n ≤ phys + 4096 * pages) :
    (state.memcpy dst src n).Bounded image size pmm ∧
      lastFrames (state.memcpy dst src n).accesses = some (phys, pages) := by
  induction n with
  | zero => exact ⟨bounded, received⟩
  | succ n induction =>
      obtain ⟨copied, received'⟩ := induction (by omega) (by omega)
      have read : LoadAccess.InBounds image size pmm (state.memcpy dst src n).accesses
          (.read (src + n)) := ⟨by omega, by omega⟩
      exact ⟨⟨⟨⟨phys, pages, received', by omega, by omega⟩, read, copied.accesses⟩,
        copied.marked⟩, received'⟩

/-- A fill of the frames received last. -/
theorem LoadState.Bounded.memset (bounded : state.Bounded image size pmm)
    (received : lastFrames state.accesses = some (phys, pages)) {dst n : ℕ} (val : UInt8)
    (lower : phys ≤ dst) (upper : dst + n ≤ phys + 4096 * pages) :
    (state.memset dst val n).Bounded image size pmm ∧
      lastFrames (state.memset dst val n).accesses = some (phys, pages) := by
  induction n with
  | zero => exact ⟨bounded, received⟩
  | succ n induction =>
      obtain ⟨filled, received'⟩ := induction (by omega)
      exact ⟨⟨⟨⟨phys, pages, received', by omega, by omega⟩, filled.accesses⟩, filled.marked⟩,
        received'⟩

theorem copyFileData_bounded (bounded : state.Bounded image size pmm)
    (received : lastFrames state.accesses = some (phys, pages))
    (file : seg.fileOff.toNat + seg.fileSize.toNat ≤ size)
    (fits : seg.fileSize.toNat ≤ 4096 * pages) :
    (copyFileData image phys seg state).Bounded image size pmm ∧
      lastFrames (copyFileData image phys seg state).accesses = some (phys, pages) := by
  rw [copyFileData]
  split_ifs
  · exact bounded.memcpy received (by omega) (by omega) le_rfl (by omega)
  · exact ⟨bounded, received⟩

theorem fillRest_bounded (bounded : state.Bounded image size pmm)
    (received : lastFrames state.accesses = some (phys, pages))
    (fits : seg.memSize.toNat ≤ 4096 * pages) :
    (fillRest phys seg state).Bounded image size pmm := by
  rw [fillRest]
  split_ifs with rest
  · rw [UInt32.lt_iff_toNat_lt] at rest
    exact (bounded.memset received 0 (by omega) (by omega)).1
  · exact bounded

/-- A segment is copied into its frames only if it consists of whole pages. -/
theorem mapSegment_bounded (ops : HeapOps Heap) (bounded : state.Bounded image size pmm)
    (received : lastFrames state.accesses = some (phys, pages))
    (pages_eq : pages = seg.memSize.toNat / archVmPageSize)
    (file : seg.fileOff.toNat + seg.fileSize.toNat ≤ size)
    (sizes : seg.fileSize.toNat ≤ seg.memSize.toNat) :
    AccessesInBounds image size pmm (mapSegment ops image phys pages seg state).2.accesses ∧
      ((mapSegment ops image phys pages seg state).1 = .ok () →
        (mapSegment ops image phys pages seg state).2.Bounded image size pmm) := by
  obtain ⟨⟨status, vm, kernel⟩, call⟩ : ∃ result, vmMap (x86Env ops) state.vm seg.vaddr.toNat phys
      seg.memSize.toNat (segmentVmFlags seg.flags) state.kernel = result := ⟨_, rfl⟩
  have kept (frame : ℕ) (marked : pmm.Marked frame) : kernel.machine.pmm.Marked frame := by
    have later := vmMap_marked ops (bounded.marked frame marked) state.vm seg.vaddr.toNat
      phys seg.memSize.toNat (segmentVmFlags seg.flags)
    rw [call] at later
    exact later
  rw [mapSegment, call]
  cases status with
  | error error => exact ⟨bounded.accesses, fun passed => by cases passed⟩
  | ok =>
      have aligned := (vmMap_args call).size_mod
      have whole : seg.memSize.toNat = 4096 * pages := by
        rw [pages_eq, archVmPageSize]
        unfold x86PageSize
        omega
      have mapped : LoadState.Bounded image size pmm { state with vm := vm, kernel := kernel } :=
        ⟨bounded.accesses, kept⟩
      obtain ⟨copied, received'⟩ := copyFileData_bounded mapped received file (by omega)
      have filled := fillRest_bounded copied received' whole.le
      exact ⟨filled.accesses, fun _ => filled⟩

theorem placeSegment_bounded (ops : HeapOps Heap) (seg : Iwbf32SegmentHdr)
    (bounded : state.Bounded image size pmm) :
    AccessesInBounds image size pmm (placeSegment ops image size seg state).2.accesses ∧
      ((placeSegment ops image size seg state).1 = .ok () →
        (placeSegment ops image size seg state).2.Bounded image size pmm) := by
  rcases placeSegment_cases ops image size seg state with
    ⟨error, rejected, _⟩ | ⟨fits, first, pages, frames, _, mapping⟩
  · rw [rejected]
    exact ⟨bounded.accesses, nofun⟩
  · have lowmem := frames.lowmem
    have free : FreeLowmem pmm (first * 4096) pages := by
      refine ⟨Nat.mul_mod_left first 4096, ?_, ?_⟩
      · unfold kernelLowmemLimit
        omega
      · rw [Nat.mul_div_cancel _ (by decide)]
        exact fun frame lower upper marked => frames.free frame lower upper
          (bounded.marked frame marked)
    have claimed : (state.claim first pages).Bounded image size pmm := by
      refine ⟨⟨free, bounded.accesses⟩, fun frame marked => ?_⟩
      show (pmmMark state.kernel.machine.pmm first pages).Marked frame
      rw [marked_pmmMark]
      exact .inr (bounded.marked frame marked)
    rw [mapping, ← LoadState.claim]
    exact mapSegment_bounded ops claimed rfl frames.pages_eq fits.file fits.mem

/-- An iteration that starts inside the image parses its descriptor there, and leaves the next
position inside the image. -/
theorem processLoadSegment_bounded (ops : HeapOps Heap)
    (bounded : state.Bounded image size pmm) (size_lt : size < 2 ^ 32)
    (inside : iwbf32HdrSize + iwbf32SegmentHdrSize * i ≤ size) :
    AccessesInBounds image size pmm (processLoadSegment ops image size i state).2.accesses ∧
      ((processLoadSegment ops image size i state).1 = .ok () →
        (processLoadSegment ops image size i state).2.Bounded image size pmm ∧
          iwbf32HdrSize + iwbf32SegmentHdrSize * (i + 1) ≤ size) := by
  have segOff_eq := iwbfSegOff_eq inside size_lt
  rw [iwbfSegOff] at segOff_eq
  have left_eq : Word32.sub size (iwbf32HdrSize + iwbf32SegmentHdrSize * i) =
      size - (iwbf32HdrSize + iwbf32SegmentHdrSize * i) := Word32.sub_of_le inside size_lt
  rw [processLoadSegment]
  simp only [segOff_eq, left_eq]
  obtain ⟨segOff, segOff_def⟩ : ∃ segOff, segOff = iwbf32HdrSize + iwbf32SegmentHdrSize * i :=
    ⟨_, rfl⟩
  rw [← segOff_def] at inside ⊢
  have positioned : (state.record (.descriptor i segOff (size - segOff))).Bounded
      image size pmm := ⟨⟨⟨segOff_def, by omega⟩, bounded.accesses⟩, bounded.marked⟩
  obtain ⟨reads, parse_eq, reads_inside⟩ := LoadState.parse_segmentHdr
    (state.record (.descriptor i segOff (size - segOff))) (image + segOff) (size - segOff) default
  have recorded := positioned.reads reads_inside (by omega) (by omega)
  obtain ⟨⟨status, seg⟩, parsed⟩ : ∃ result, iwbfParseSegmentHdr
      (state.record (.descriptor i segOff (size - segOff))).kernel.machine.mem (image + segOff)
      (size - segOff) default = result := ⟨_, rfl⟩
  rw [parse_eq, parsed]
  cases status with
  | error error => exact ⟨recorded.accesses, fun passed => by cases passed⟩
  | ok =>
      have long := (iwbfParseSegmentHdr_ok_iff.mp parsed).1
      have placed := placeSegment_bounded ops seg recorded
      refine ⟨placed.1, fun passed => ⟨placed.2 passed, ?_⟩⟩
      rw [Nat.mul_succ, ← Nat.add_assoc, ← segOff_def]
      omega

theorem processLoadSegments_bounded (ops : HeapOps Heap) (count : ℕ)
    (bounded : state.Bounded image size pmm) (size_lt : size < 2 ^ 32)
    (inside : iwbf32HdrSize + iwbf32SegmentHdrSize * i ≤ size) :
    AccessesInBounds image size pmm
      (processLoadSegments ops image size count i state).2.accesses := by
  induction count generalizing i state with
  | zero => exact bounded.accesses
  | succ count induction =>
      have step := processLoadSegment_bounded ops bounded size_lt inside
      rw [processLoadSegments]
      obtain ⟨⟨status, state'⟩, ran⟩ : ∃ result,
          processLoadSegment ops image size i state = result :=
        ⟨_, rfl⟩
      rw [ran] at step ⊢
      cases status with
      | error error => exact step.1
      | ok =>
          obtain ⟨bounded', inside'⟩ := step.2 rfl
          exact induction bounded' inside'

end Bounds

/-- Whatever the image holds, every byte that `process_load` reads from it lies inside, no offset of
a descriptor wraps, and every byte that a copy or a fill writes lies in the frames that the segment
has received, which were free when the function was called. -/
theorem processLoad_in_bounds (ops : HeapOps Heap) (proc : Process) (image : ℕ) {size : ℕ}
    (size_lt : size < 2 ^ 32) (kernel : Kernel Heap) :
    AccessesInBounds image size kernel.machine.pmm
      (processLoad ops proc image size kernel).2.2.accesses := by
  rw [processLoad]
  split_ifs
  · exact trivial
  · exact trivial
  have fresh : LoadState.Bounded image size kernel.machine.pmm ⟨proc.vm, kernel, []⟩ :=
    ⟨trivial, fun _ marked => marked⟩
  obtain ⟨reads, parse_eq, reads_inside⟩ :=
    LoadState.parse_hdr ⟨proc.vm, kernel, []⟩ image size default
  have start := fresh.reads reads_inside le_rfl le_rfl
  obtain ⟨⟨status, hdr⟩, parsed⟩ : ∃ result,
      iwbfParseHdr kernel.machine.mem image size default = result := ⟨_, rfl⟩
  rw [parse_eq, parsed]
  cases status with
  | error error => exact start.accesses
  | ok =>
      have long := (iwbfParseHdr_ok_iff.mp parsed).1
      have run := processLoadSegments_bounded (i := 0) ops hdr.segmentCount.toNat start
        size_lt (by omega)
      dsimp only
      obtain ⟨⟨status, last⟩, ran⟩ : ∃ result, processLoadSegments ops image size
          hdr.segmentCount.toNat 0 ⟨proc.vm, kernel, reads ++ []⟩ = result := ⟨_, rfl⟩
      rw [ran] at run ⊢
      cases status with
      | error error => exact run
      | ok => exact run

/-- An image that ends inside its first descriptor is not read behind its header. -/
theorem processLoad_in_bounds_truncated :
    ∃ (proc : Process) (kernel : Kernel ℕ),
      (processLoad bumpHeap proc 0x1000 20 kernel).1 = .error .inval ∧
      (processLoad bumpHeap proc 0x1000 20 kernel).2.2.accesses = .descriptor 0 16 4 ::
        ((List.range 14).map fun offset => LoadAccess.read (0x1000 + offset)).reverse ∧
      AccessesInBounds 0x1000 20 kernel.machine.pmm
        (processLoad bumpHeap proc 0x1000 20 kernel).2.2.accesses :=
  ⟨⟨.created, ⟨[], ⟨0⟩⟩, ⟨0, 0, 0⟩, 0⟩,
    ⟨⟨fun address => bytesAtZero systemHdr.encode (address - 0x1000), smallPmm⟩, 0, ⟨0⟩⟩,
    rfl, rfl, processLoad_in_bounds bumpHeap _ 0x1000 (by decide) _⟩

end ItWorksOS
