import ItWorksOS.Mm.VmRefinement
import ItWorksOS.Process.LoadBounds

/-!
# Fidelity of the loader

After a successful `process_load`, each segment is found where its descriptor says. A segment that
has been placed stays in place, because later segments claim other frames and map other pages, and
the page tables they need are free frames as well.
-/

namespace ItWorksOS

variable {Heap : Type*} {ops : HeapOps Heap} {kernel kernel' : Kernel Heap}
  {kernelDir image size i first pages : ℕ} {dirs : List ℕ} {vm vm' : VmSpace} {claimed : Set ℕ}
  {seg : Iwbf32SegmentHdr} {data : ℕ → UInt8}

/-- A segment with the first of its frames. -/
structure PlacedSegment where
  seg : Iwbf32SegmentHdr
  first : ℕ

namespace PlacedSegment

/-- The virtual ranges and the frames of two segments are disjoint. -/
def Apart (left right : PlacedSegment) : Prop :=
  (left.seg.vaddr.toNat + left.seg.memSize.toNat ≤ right.seg.vaddr.toNat ∨
      right.seg.vaddr.toNat + right.seg.memSize.toNat ≤ left.seg.vaddr.toNat) ∧
    (left.first * 4096 + left.seg.memSize.toNat ≤ right.first * 4096 ∨
      right.first * 4096 + right.seg.memSize.toNat ≤ left.first * 4096)

/-- The frames of a segment. -/
def frames (placed : PlacedSegment) : Set ℕ :=
  frameRun placed.first (placed.seg.memSize.toNat / 4096)

/-- The byte of a segment at an offset: data of the file, and zeros behind it. -/
def byte (data : ℕ → UInt8) (seg : Iwbf32SegmentHdr) (offset : ℕ) : UInt8 :=
  if offset < seg.fileSize.toNat then data (seg.fileOff.toNat + offset) else 0

/-- Neither the frames nor the pages of a segment are in use. -/
structure Fresh (kernelDir : ℕ) (dirs : List ℕ) (vm : VmSpace) (kernel : Kernel Heap)
    (placed : PlacedSegment) : Prop where
  frames : ∀ frame ∈ placed.frames, ¬ Residue kernelDir dirs kernel.machine frame
  pages : ∀ offset < placed.seg.memSize.toNat,
    ¬ EntryPresent (pteWord kernel.machine vm.dir (placed.seg.vaddr.toNat + offset))

/-- The range of a segment shows its frames, which hold its data, and belongs to an area with its
permissions. -/
structure InPlace (kernelDir : ℕ) (dirs : List ℕ) (data : ℕ → UInt8) (vm : VmSpace)
    (kernel : Kernel Heap) (placed : PlacedSegment) : Prop where
  size_pos : 0 < placed.seg.memSize.toNat
  size_mod : placed.seg.memSize.toNat % 4096 = 0
  vaddr_mod : placed.seg.vaddr.toNat % 4096 = 0
  user : placed.seg.vaddr.toNat + placed.seg.memSize.toNat ≤ vmUserEnd
  lowmem : placed.first * 4096 + placed.seg.memSize.toNat ≤ kernelLowmemLimit
  frames : ∀ frame ∈ placed.frames, Residue kernelDir dirs kernel.machine frame
  words : ∀ offset < placed.seg.memSize.toNat,
    pteWord kernel.machine vm.dir (placed.seg.vaddr.toNat + offset) =
      mapWord placed.seg.vaddr.toNat (placed.first * 4096) (segmentVmFlags placed.seg.flags)
        (placed.seg.vaddr.toNat + offset)
  bytes : ∀ offset < placed.seg.memSize.toNat,
    kernel.machine.mem (placed.first * 4096 + offset) = byte data placed.seg offset
  area : ∃ ptr, ⟨placed.seg.vaddr.toNat, placed.seg.vaddr.toNat + placed.seg.memSize.toNat,
    segmentVmFlags placed.seg.flags, ptr⟩ ∈ vm.vmas

variable {placed other : PlacedSegment}

/-- What is not in use after loading was not in use before. -/
theorem Fresh.before (member : vm.dir ∈ dirs) (fresh : Fresh kernelDir dirs vm' kernel' placed)
    (effect : LoadEffect kernelDir dirs claimed vm vm' kernel kernel')
    (user : placed.seg.vaddr.toNat + placed.seg.memSize.toNat ≤ vmUserEnd) :
    Fresh kernelDir dirs vm kernel placed := by
  refine ⟨fun frame inside old => fresh.frames frame inside ((effect.residue frame).mpr (.inr old)),
    fun offset offset_lt present => fresh.pages offset offset_lt ?_⟩
  unfold vmUserEnd at user
  rw [effect.dir_eq, effect.mapped _ (List.mem_cons_of_mem _ member) _ (by omega) present]
  exact present

/-- A segment in place stays in place. -/
theorem InPlace.after (member : vm.dir ∈ dirs)
    (inPlace : InPlace kernelDir dirs data vm kernel placed)
    (effect : LoadEffect kernelDir dirs claimed vm vm' kernel kernel')
    (areas : vm.vmas ⊆ vm'.vmas) :
    InPlace kernelDir dirs data vm' kernel' placed := by
  obtain ⟨size_pos, size_mod, vaddr_mod, user, lowmem, frames, words, bytes, ptr, area⟩ := inPlace
  refine ⟨size_pos, size_mod, vaddr_mod, user, lowmem,
    fun frame inside => (effect.residue frame).mpr (.inr (frames frame inside)), ?_, ?_, ptr,
    areas area⟩
  · intro offset offset_lt
    have word_eq := words offset offset_lt
    unfold vmUserEnd at user
    rw [effect.dir_eq, effect.mapped _ (List.mem_cons_of_mem _ member) _ (by omega), word_eq]
    rw [word_eq]
    exact pteValue_present ..
  · intro offset offset_lt
    rw [← bytes offset offset_lt]
    refine effect.bytes _ (frames ((placed.first * 4096 + offset) / 4096) ⟨?_, ?_⟩) _ rfl <;> omega

/-- A segment in place and one whose frames and pages were not in use then lie apart. -/
theorem InPlace.apart {later : Kernel Heap} (inPlace : InPlace kernelDir dirs data vm kernel placed)
    (fresh : Fresh kernelDir dirs vm kernel other)
    (other_inPlace : InPlace kernelDir dirs data vm' later other) : placed.Apart other := by
  have size_pos := inPlace.size_pos
  have size_mod := inPlace.size_mod
  have other_pos := other_inPlace.size_pos
  have other_mod := other_inPlace.size_mod
  constructor
  · by_contra overlap
    obtain ⟨va, offset, offset', va_eq, va_eq', inside, inside'⟩ : ∃ va offset offset',
        va = placed.seg.vaddr.toNat + offset ∧ va = other.seg.vaddr.toNat + offset' ∧
        offset < placed.seg.memSize.toNat ∧ offset' < other.seg.memSize.toNat := by
      refine ⟨max placed.seg.vaddr.toNat other.seg.vaddr.toNat,
        max placed.seg.vaddr.toNat other.seg.vaddr.toNat - placed.seg.vaddr.toNat,
        max placed.seg.vaddr.toNat other.seg.vaddr.toNat - other.seg.vaddr.toNat, ?_⟩
      omega
    refine fresh.pages offset' inside' ?_
    rw [← va_eq', va_eq, inPlace.words offset inside]
    exact pteValue_present ..
  · by_contra overlap
    refine fresh.frames (max placed.first other.first) ?_ (inPlace.frames _ ?_)
    · exact ⟨le_max_right .., by omega⟩
    · exact ⟨le_max_left .., by omega⟩

end PlacedSegment

/-- The bytes of an image, which lies in frames that are no page tables. -/
structure ImageHeld (kernelDir : ℕ) (dirs : List ℕ) (image size : ℕ) (data : ℕ → UInt8)
    (kernel : Kernel Heap) : Prop where
  frames : ∀ offset < size, Residue kernelDir dirs kernel.machine ((image + offset) / 4096)
  bytes : ∀ offset < size, kernel.machine.mem (image + offset) = data offset

theorem ImageHeld.after (held : ImageHeld kernelDir dirs image size data kernel)
    (effect : LoadEffect kernelDir dirs claimed vm vm' kernel kernel') :
    ImageHeld kernelDir dirs image size data kernel' := by
  refine ⟨fun offset offset_lt => (effect.residue _).mpr (.inr (held.frames offset offset_lt)),
    fun offset offset_lt => ?_⟩
  rw [← held.bytes offset offset_lt]
  exact effect.bytes _ (held.frames offset offset_lt) _ rfl

/-- A descriptor is parsed from the image. -/
theorem ImageHeld.parse_same {start : ℕ} (held : ImageHeld kernelDir dirs image size data kernel)
    (inside : start ≤ size) : ∀ offset < size - start,
      kernel.machine.mem (image + start + offset) = data (start + offset) := by
  intro offset offset_lt
  rw [Nat.add_assoc]
  exact held.bytes _ (by omega)

section Segment

variable {state state' : LoadState Heap}

/-- What a successful `vm_map` for the frames of a segment leaves in the page tables and in the list
of areas. -/
theorem vmMap_claimed_words (inv : KernelTables kernelDir dirs state.kernel)
    (member : state.vm.dir ∈ dirs) (arch_eq : state.vm.arch = ⟨state.vm.dir * 4096⟩)
    (ok : VmasOk state.vm.vmas) (frames : SegmentFrames state.kernel.machine.pmm seg first pages)
    (call : vmMap (x86Env ops) state.vm seg.vaddr.toNat (first * 4096) seg.memSize.toNat
      (segmentVmFlags seg.flags) (state.claim first pages).kernel = (.ok (), vm, kernel)) :
    (∀ offset < seg.memSize.toNat,
        ¬ EntryPresent (pteWord state.kernel.machine state.vm.dir (seg.vaddr.toNat + offset)) ∧
        pteWord kernel.machine state.vm.dir (seg.vaddr.toNat + offset) =
          mapWord seg.vaddr.toNat (first * 4096) (segmentVmFlags seg.flags)
            (seg.vaddr.toNat + offset)) ∧
      VmasOk vm.vmas ∧ state.vm.vmas ⊆ vm.vmas ∧
      ∃ ptr, ⟨seg.vaddr.toNat, seg.vaddr.toNat + seg.memSize.toNat, segmentVmFlags seg.flags, ptr⟩ ∈
        vm.vmas := by
  obtain ⟨args, before, after, ptr, middle, position, allocated, _, mapped, rfl⟩ :=
    vmMap_eq_ok call
  obtain ⟨_, rfl⟩ := Prod.mk.inj allocated
  obtain ⟨passed, rfl⟩ := Prod.mk.inj mapped
  obtain ⟨size_pos, virt_lt, end_le⟩ := vmUserRangeValid_iff.mp args.user
  have inside := end_le.resolve_right (frames.no_wrap args)
  have fits : seg.vaddr.toNat + seg.memSize.toNat < 2 ^ 32 := by
    unfold vmUserEnd at inside
    omega
  have claimed := LoadEffect.claim inv state.vm frames.fits frames.free
  obtain ⟨split, inserted⟩ := vmasOk_insert ok args fits (segmentVmFlags seg.flags) ptr position
  rw [Nat.mod_eq_of_lt fits] at inserted ⊢
  refine ⟨?_, inserted, ?_, ptr, by simp⟩
  · have virt_mod := args.virt_mod
    have size_mod := args.size_mod
    have mapping := archVmMap_cases claimed.tables.tables claimed.tables.ready
      (.inl member : Mappable kernelDir dirs state.vm.dir seg.vaddr.toNat)
      ⟨virt_mod, size_mod, size_pos, userRange_fits args.user⟩ args.phys_mod
      (segmentVmFlags seg.flags)
    rw [← arch_eq] at mapping
    obtain ⟨done, machine, rewritten, absent, _, ⟨result, done_eq⟩ | ⟨_, failed, _⟩⟩ := mapping
    · intro offset offset_lt
      constructor
      · rw [pteWord_of_same_page _ _ (by omega : (seg.vaddr.toNat + offset) / 4096 =
          (seg.vaddr.toNat + 4096 * (offset / 4096)) / 4096)]
        exact absent (offset / 4096) (by omega)
      · refine Eq.trans ?_ (rewritten.replaced _ (List.mem_cons_of_mem _ member) _ (by omega)
          (mem_rangeOf.mpr ⟨by omega, .inl rfl⟩))
        exact congrArg (fun machine => pteWord machine state.vm.dir (seg.vaddr.toNat + offset))
          (congrArg Prod.snd result)
    · have status_eq := passed.symm.trans (congrArg Prod.fst failed)
      cases status_eq
  · rw [split]
    intro vma vma_mem
    simp only [List.mem_append, List.mem_cons] at vma_mem ⊢
    tauto

/-- A successful placement puts the segment in place, in frames and pages that were not in use. -/
theorem placeSegment_inPlace (state : LoadState Heap)
    (inv : KernelTables kernelDir dirs state.kernel)
    (member : state.vm.dir ∈ dirs) (arch_eq : state.vm.arch = ⟨state.vm.dir * 4096⟩)
    (ok : VmasOk state.vm.vmas) (held : ImageHeld kernelDir dirs image size data state.kernel)
    (loaded : placeSegment ops image size seg state = (.ok (), state')) :
    ∃ first claimed, LoadEffect kernelDir dirs claimed state.vm state'.vm state.kernel
      state'.kernel ∧
      PlacedSegment.Fresh kernelDir dirs state.vm state.kernel ⟨seg, first⟩ ∧
      PlacedSegment.InPlace kernelDir dirs data state'.vm state'.kernel ⟨seg, first⟩ ∧
      VmasOk state'.vm.vmas ∧ state.vm.vmas ⊆ state'.vm.vmas := by
  rcases placeSegment_cases ops image size seg state with
    ⟨error, rejected, _⟩ | ⟨segFits, first, pages, frames, _, mapping⟩
  · rw [rejected] at loaded
    cases loaded
  rw [mapping, ← LoadState.claim] at loaded
  obtain ⟨⟨status, vm, kernel⟩, call⟩ : ∃ result, vmMap (x86Env ops) state.vm seg.vaddr.toNat
      (first * 4096) seg.memSize.toNat (segmentVmFlags seg.flags)
      (state.claim first pages).kernel = result := ⟨_, rfl⟩
  cases status with
  | error error =>
      rw [(mapSegment_of_error inv member arch_eq image frames call).1] at loaded
      cases loaded
  | ok =>
      obtain ⟨whole, mem, accesses, result, effect, outside, filled⟩ :=
        mapSegment_of_ok inv member arch_eq image frames segFits.mem call
      rw [result] at loaded
      cases loaded
      have args := vmMap_args call
      have mapped := vmMap_claimed_effect inv member arch_eq frames call
      obtain ⟨words, ok', subset, area⟩ := vmMap_claimed_words inv member arch_eq ok frames call
      obtain ⟨size_pos, _, end_le⟩ := vmUserRangeValid_iff.mp args.user
      have pages_div : seg.memSize.toNat / 4096 = pages := frames.pages_eq.symm
      have frames_eq : PlacedSegment.frames ⟨seg, first⟩ = frameRun first pages := by
        rw [PlacedSegment.frames, pages_div]
      have lowmem := frames.lowmem
      refine ⟨first, _, effect, ⟨?_, fun offset offset_lt => (words offset offset_lt).1⟩,
        ⟨size_pos, args.size_mod, args.virt_mod, end_le.resolve_right (frames.no_wrap args), ?_, ?_,
          ?_, ?_, area⟩, ok', subset⟩
      · rw [frames_eq]
        exact fun frame inside old => frames.free frame inside.1 inside.2 old.1
      · unfold kernelLowmemLimit
        simp only
        omega
      · rw [frames_eq]
        exact fun frame inside => (effect.residue frame).mpr (.inl inside)
      · intro offset offset_lt
        have inside := end_le.resolve_right (frames.no_wrap args)
        unfold vmUserEnd at inside
        rw [mapped.dir_eq, (mapped.store_tables outside).2.2 _ (List.mem_cons_of_mem _ member) _
          (by simp only at offset_lt ⊢; omega)]
        exact (words offset offset_lt).2
      · intro offset offset_lt
        have image_frame (offset : ℕ) (file : offset < seg.fileSize.toNat) :
            seg.fileOff.toNat + offset < size := by
          have := segFits.file
          omega
        have apart (offset : ℕ) (file : offset < seg.fileSize.toNat) :
            (image + seg.fileOff.toNat + offset) / 4096 ∉ frameRun first pages := by
          intro inside
          refine mapped.fresh _ inside ?_
          rw [Nat.add_assoc]
          exact held.frames _ (image_frame offset file)
        rw [show (kernel.setMem mem).machine.mem = mem from rfl, filled apart offset offset_lt,
          PlacedSegment.byte]
        split_ifs with file
        · rw [Nat.add_assoc]
          exact (held.after mapped).bytes _ (image_frame offset file)
        · rfl

end Segment

/-! ## All segments -/

section Load

variable {state state' : LoadState Heap}

/-- After a successful loop, the segments of all its descriptors are in place, in frames and pages
that were not in use before. -/
theorem processLoadSegments_inPlace (count : ℕ) (inv : KernelTables kernelDir dirs state.kernel)
    (member : state.vm.dir ∈ dirs) (arch_eq : state.vm.arch = ⟨state.vm.dir * 4096⟩)
    (ok : VmasOk state.vm.vmas) (held : ImageHeld kernelDir dirs image size data state.kernel)
    (size_lt : size < 2 ^ 32) (inside : iwbf32HdrSize + iwbf32SegmentHdrSize * i ≤ size)
    (loaded : processLoadSegments ops image size count i state = (.ok (), state')) :
    ∃ (placed : List PlacedSegment) (claimed : Set ℕ),
      LoadEffect kernelDir dirs claimed state.vm state'.vm state.kernel state'.kernel ∧
      VmasOk state'.vm.vmas ∧ state.vm.vmas ⊆ state'.vm.vmas ∧ placed.length = count ∧
      (∀ k segment, placed[k]? = some segment →
        iwbfParseSegmentHdr data (iwbf32HdrSize + iwbf32SegmentHdrSize * (i + k))
          (size - (iwbf32HdrSize + iwbf32SegmentHdrSize * (i + k))) default =
            (.ok (), segment.seg)) ∧
      placed.Pairwise PlacedSegment.Apart ∧
      ∀ segment ∈ placed, PlacedSegment.Fresh kernelDir dirs state.vm state.kernel segment ∧
        PlacedSegment.InPlace kernelDir dirs data state'.vm state'.kernel segment := by
  induction count generalizing i state with
  | zero =>
      cases loaded
      exact ⟨[], ∅, .refl inv _, ok, List.Subset.refl _, rfl, by simp, .nil, by simp⟩
  | succ count induction =>
      obtain ⟨⟨status, middle⟩, ran⟩ : ∃ result,
          processLoadSegment ops image size i state = result :=
        ⟨_, rfl⟩
      rw [processLoadSegments, ran] at loaded
      cases status with
      | error error => cases loaded
      | ok =>
          obtain ⟨accesses, ⟨_, _, _, refused⟩ | ⟨seg, parsed, placing⟩⟩ :=
            processLoadSegment_cases ops image size i state
          · rw [refused] at ran
            cases ran
          rw [placing] at ran
          rw [iwbfSegOff_eq inside size_lt, Word32.sub_of_le inside size_lt,
            iwbfParseSegmentHdr_congr (held.parse_same inside)] at parsed
          have long := (iwbfParseSegmentHdr_ok_iff.mp parsed).1
          obtain ⟨first, claimed, effect, fresh, inPlace, ok', subset⟩ :=
            placeSegment_inPlace { state with accesses := accesses } inv member arch_eq ok held ran
          have member' : middle.vm.dir ∈ dirs := effect.dir_eq.symm ▸ member
          have arch_eq' : middle.vm.arch = ⟨middle.vm.dir * 4096⟩ := by
            rw [effect.arch, effect.dir_eq]
            exact arch_eq
          have inside' : iwbf32HdrSize + iwbf32SegmentHdrSize * (i + 1) ≤ size := by
            rw [Nat.mul_succ]
            omega
          obtain ⟨placed, claimed', effect', ok'', subset', length_eq, parses, apart, rest⟩ :=
            induction effect.tables member' arch_eq' ok' (held.after effect) inside' loaded
          refine ⟨⟨seg, first⟩ :: placed, _, effect.trans effect', ok'',
            List.Subset.trans subset subset', by rw [List.length_cons, length_eq], ?_, ?_, ?_⟩
          · intro k segment found
            cases k with
            | zero =>
                cases found
                exact parsed
            | succ k =>
                rw [← Nat.add_assoc, Nat.add_right_comm]
                exact parses k segment found
          · refine List.pairwise_cons.mpr ⟨fun other other_mem => ?_, apart⟩
            exact inPlace.apart (rest other other_mem).1 (rest other other_mem).2
          · refine List.forall_mem_cons.mpr ⟨⟨fresh, inPlace.after member' effect' subset'⟩,
              fun other other_mem => ⟨?_, (rest other other_mem).2⟩⟩
            exact (rest other other_mem).1.before member effect (rest other other_mem).2.user

/-- Permissions of the area of a segment. -/
def areaFlags (flags : UInt32) : ℕ :=
  vmUser + (if flags &&& iwbfSegFlagRead ≠ 0 then vmRead else 0) +
    (if flags &&& iwbfSegFlagWrite ≠ 0 then vmWrite else 0) +
    (if flags &&& iwbfSegFlagExec ≠ 0 then vmExec else 0)

theorem segmentVmFlags_eq (flags : UInt32) : segmentVmFlags flags = areaFlags flags := by
  rw [segmentVmFlags, areaFlags]
  split_ifs <;> rfl

/-- What a process sees of a segment in place. -/
theorem PlacedSegment.InPlace.translates {placed : PlacedSegment}
    (inPlace : placed.InPlace kernelDir dirs data vm kernel)
    (inv : KernelTables kernelDir dirs kernel) (member : vm.dir ∈ dirs)
    (arch_eq : vm.arch = ⟨vm.dir * 4096⟩) (ok : VmasOk vm.vmas) :
    ∀ offset < placed.seg.memSize.toNat,
      archVmTranslate kernel.machine vm.arch (placed.seg.vaddr.toNat + offset) =
          .ok (placed.first * 4096 + offset) ∧
        kernel.machine.mem (placed.first * 4096 + offset) = byte data placed.seg offset ∧
        ∃ vma, vmFindVma vm (placed.seg.vaddr.toNat + offset) = some vma ∧
          vma.flags = areaFlags placed.seg.flags := by
  intro offset offset_lt
  obtain ⟨ptr, area⟩ := inPlace.area
  have user := inPlace.user
  have lowmem := inPlace.lowmem
  unfold vmUserEnd at user
  unfold kernelLowmemLimit at lowmem
  refine ⟨?_, inPlace.bytes offset offset_lt,
    _, (vmFindVma_eq_some_iff ok).mpr ⟨area, by simp only; omega, by simp only; omega⟩,
    segmentVmFlags_eq _⟩
  rw [arch_eq, archVmTranslate_mapWord inv.tables (List.mem_cons_of_mem _ member) (by omega)
    inPlace.vaddr_mod (Nat.mul_mod_left _ _) (Nat.le_add_right _ _)
      (inPlace.words offset offset_lt),
    Nat.add_sub_cancel_left, Nat.mod_eq_of_lt (by omega)]

/-- Fidelity of `process_load` in every reachable state: for an image in frames that were reserved
at boot or belong to a caller, a process without areas that is loaded successfully sees in the range
of each descriptor the data of the file and zeros behind it, covered by an area with the permissions
of the descriptor. The ranges and the frames of the segments are disjoint, and execution starts at
the entry of the header. -/
theorem processLoad_faithful {boot booted : Kernel Heap} {sections : KernelSections}
    {system : VmSystem Heap} (total_lt : boot.machine.pmm.totalFrames < 2 ^ 32)
    (init : vmKernInit sections boot = (.ok (), booted))
    (run : Relation.ReflTransGen (VmStep ops) ⟨booted, [], ∅⟩ system) {proc proc' : Process}
    (space_mem : proc.vm ∈ system.spaces) (empty : proc.vm.vmas = []) (size_lt : size < 2 ^ 32)
    (reserved : ∀ offset < size, boot.machine.pmm.Marked ((image + offset) / 4096) ∨
      (image + offset) / 4096 ∈ system.callers)
    (loaded : processLoad ops proc image size system.kernel = (.ok (), proc', state)) :
    ∃ (hdr : Iwbf32Hdr) (placed : List PlacedSegment),
      iwbfParseHdr system.kernel.machine.mem image size default = (.ok (), hdr) ∧
      proc'.entry = hdr.entry.toNat ∧ placed.length = hdr.segmentCount.toNat ∧
      (∀ i segment, placed[i]? = some segment →
        iwbfParseSegmentHdr system.kernel.machine.mem (image + (16 + 20 * i))
          (size - (16 + 20 * i)) default = (.ok (), segment.seg)) ∧
      placed.Pairwise PlacedSegment.Apart ∧
      ∀ segment ∈ placed, ∀ offset < segment.seg.memSize.toNat,
        archVmTranslate state.kernel.machine proc'.vm.arch (segment.seg.vaddr.toNat + offset) =
            .ok (segment.first * 4096 + offset) ∧
          state.kernel.machine.mem (segment.first * 4096 + offset) =
            (if offset < segment.seg.fileSize.toNat then
              system.kernel.machine.mem (image + (segment.seg.fileOff.toNat + offset))
            else 0) ∧
          ∃ vma, vmFindVma proc'.vm (segment.seg.vaddr.toNat + offset) = some vma ∧
            vma.flags = areaFlags segment.seg.flags := by
  obtain ⟨kernelDir, start⟩ := vmKernInit_inv total_lt init
  have inv := start.steps run
  have member := VmSystem.dir_mem space_mem
  have arch_eq := inv.arch_eq _ space_mem
  have held : ImageHeld kernelDir system.dirs image size
      (fun offset => system.kernel.machine.mem (image + offset)) system.kernel :=
    ⟨fun offset offset_lt => (inv.residue _).mpr (reserved offset offset_lt), fun _ _ => rfl⟩
  rcases processLoad_cases ops proc image size system.kernel with
    ⟨error, accesses, _, refused⟩ | ⟨_, _, hdr, accesses, last, parsed, ⟨_, _, failed⟩ |
      ⟨ran, passed⟩⟩
  · rw [refused] at loaded
    cases loaded
  · rw [failed] at loaded
    cases loaded
  rw [passed] at loaded
  cases loaded
  have long := (iwbfParseHdr_ok_iff.mp parsed).1
  obtain ⟨placed, claimed, effect, ok, _, length_eq, parses, apart, all⟩ :=
    processLoadSegments_inPlace hdr.segmentCount.toNat inv.tables member arch_eq
      (empty ▸ VmasOk.nil) held size_lt long ran
  refine ⟨hdr, placed, parsed, rfl, length_eq, fun i segment found => ?_, apart,
    fun segment segment_mem => ?_⟩
  · rw [← parses i segment found, Nat.zero_add]
    refine iwbfParseSegmentHdr_congr (fun offset _ => ?_) _
    rw [Nat.add_assoc]
    rfl
  · have member' : state.vm.dir ∈ system.dirs := effect.dir_eq.symm ▸ member
    have arch_eq' : state.vm.arch = ⟨state.vm.dir * 4096⟩ := by
      rw [effect.arch, effect.dir_eq]
      exact arch_eq
    exact (all segment segment_mem).2.translates effect.tables member' arch_eq' ok

end Load

/-! ## The system image -/

section SystemImage

/-- A segment of one page is placed in an empty address space. -/
theorem placeSegment_one_page (ops : HeapOps Heap) (image : ℕ) (state : LoadState Heap) {ptr : ℕ}
    {heap : Heap} (inv : KernelTables kernelDir dirs state.kernel) (member : state.vm.dir ∈ dirs)
    (vm_eq : state.vm = ⟨[], ⟨state.vm.dir * 4096⟩⟩)
    (lowmem : 2 ≤ state.kernel.machine.pmm.lowSet.card) (fits : SegmentFits size seg)
    (one : seg.memSize.toNat = 4096) (vaddr_mod : seg.vaddr.toNat % 4096 = 0)
    (user : seg.vaddr.toNat + 4096 ≤ vmUserEnd)
    (unmapped : ¬ EntryPresent (pteWord state.kernel.machine state.vm.dir seg.vaddr.toNat))
    (allocated : ops.kmalloc state.kernel.heap vmaSize = (ptr, heap))
    (pointer : kerrPtrIsErr ptr = false) :
    ∃ state', placeSegment ops image size seg state = (.ok (), state') := by
  have arch_eq : state.vm.arch = ⟨state.vm.dir * 4096⟩ := congrArg VmSpace.arch vm_eq
  rcases placeSegment_cases ops image size seg state with
    ⟨error, _, unallocated⟩ | ⟨_, first, pages, frames, _, mapping⟩
  · obtain ⟨_, _, passed⟩ := pmmAllocLowmem_frame
      (Finset.card_pos.mp (by omega : 0 < state.kernel.machine.pmm.lowSet.card))
    rw [one] at unallocated
    exact absurd passed (unallocated fits _ _)
  · have pages_eq : pages = 1 := by
      rw [frames.pages_eq, one]
    subst pages_eq
    have lowmem' := frames.lowmem
    have fresh : FreshFrame state.kernel.machine first :=
      ⟨lowmem', frames.fits, frames.free first (Nat.le_refl _) (Nat.lt_succ_self _)⟩
    have card := lowSet_pmmMark fresh
    obtain ⟨other, other_mem⟩ : (pmmMark state.kernel.machine.pmm first 1).lowSet.Nonempty :=
      Finset.card_pos.mp (by omega)
    have other_fresh : FreshFrame (state.claim first 1).kernel.machine other :=
      freshFrame_iff.mpr other_mem
    have claimed := LoadEffect.claim inv state.vm frames.fits frames.free
    unfold vmUserEnd at user
    have args : VmMapArgs seg.vaddr.toNat (first * 4096) seg.memSize.toNat :=
      ⟨vaddr_mod, Nat.mul_mod_left _ _, by omega,
        vmUserRangeValid_iff.mpr (by unfold vmUserEnd; omega),
        (vmPhysRangeValid_iff (by omega)).mpr (by omega)⟩
    obtain ⟨vm', kernel', call, _⟩ :=
      vmMap_first_page claimed.tables member args (by omega) (by omega)
      other_fresh unmapped allocated pointer (segmentVmFlags seg.flags)
    rw [← vm_eq] at call
    obtain ⟨_, _, _, result, _⟩ := mapSegment_of_ok inv member arch_eq image frames fits.mem call
    exact ⟨_, mapping.trans result⟩

/-- The image of `user/system.asm`, with a number of segments in its header. -/
def systemImage (segmentCount : UInt32) : List UInt8 :=
  { systemHdr with segmentCount := segmentCount }.encode ++ systemSegmentHdr.encode ++ [0xEB, 0xFE]

/-- Memory with such an image in its first MiB. -/
def imageMemory (segmentCount : UInt32) : ByteMemory :=
  ByteMemory.blit (fun _ => 0) 0x70000 38 (bytesAtZero (systemImage segmentCount))

/-- The small machine with such an image. -/
def imageKernel (segmentCount : UInt32) : Kernel ℕ := smallKernelWith (imageMemory segmentCount)

theorem systemImage_hdr {mem : ByteMemory} {segmentCount : UInt32}
    (bytes : ∀ offset < 38, mem (0x70000 + offset) =
      bytesAtZero (systemImage segmentCount) offset) :
    iwbfParseHdr mem 0x70000 38 default =
      iwbfParseHdr (bytesAtZero (systemImage segmentCount)) 0 38 default := by
  refine iwbfParseHdr_congr (fun offset offset_lt => ?_) _
  rw [bytes offset offset_lt, Nat.zero_add]

/-- The descriptor that is parsed from such an image. -/
theorem systemImage_segment {mem : ByteMemory} {segmentCount : UInt32}
    (bytes : ∀ offset < 38, mem (0x70000 + offset) =
      bytesAtZero (systemImage segmentCount) offset) :
    iwbfParseSegmentHdr mem (0x70000 + 16) 22 default = (.ok (), systemSegmentHdr) := by
  have held := holds_bytesAtZero (systemImage segmentCount)
  rw [systemImage, holds_append, holds_append] at held
  have parsed : iwbfParseSegmentHdr (bytesAtZero (systemImage segmentCount)) 16 22 default =
      (.ok (), systemSegmentHdr) :=
    iwbfParseSegmentHdr_ok_iff.mpr ⟨by decide, by decide, segment_holds_iff.mp held.1.2⟩
  rw [← parsed]
  refine iwbfParseSegmentHdr_congr (fun offset offset_lt => ?_) _
  rw [Nat.add_assoc]
  exact bytes (16 + offset) (by omega)

theorem imageReserved {offset : ℕ} (offset_lt : offset < 38) :
    smallPmm.Marked ((0x70000 + offset) / 4096) := by
  rw [show (0x70000 + offset) / 4096 = 112 by omega]
  decide

/-- Memory that keeps the frames reserved at boot keeps the image. -/
theorem imageMemory_kept {mem : ByteMemory} {segmentCount : UInt32}
    (kept : ∀ frame, smallPmm.Marked frame →
      ByteMemory.AgreeOn (imageMemory segmentCount) mem frame)
    (offset : ℕ) (offset_lt : offset < 38) :
    mem (0x70000 + offset) = bytesAtZero (systemImage segmentCount) offset := by
  rw [kept _ (imageReserved offset_lt) _ rfl]
  exact ByteMemory.blit_of_inside offset_lt

/-- The first segment of the image is loaded into a fresh address space. -/
theorem imageKernel_first (segmentCount : UInt32) :
    ∃ kernelDir kernel frame kernel',
      vmKernInit smallSections (imageKernel segmentCount) = (.ok (), kernel) ∧
      vmSpaceInit (x86Env bumpHeap) kernel = (.ok ⟨[], ⟨frame * 4096⟩⟩, kernel') ∧
      KernelTables kernelDir [frame] kernel' ∧
      (∀ offset < 38,
        kernel'.machine.mem (0x70000 + offset) = bytesAtZero (systemImage segmentCount) offset) ∧
      ∀ accesses, ∃ middle, processLoadSegment bumpHeap 0x70000 38 0
        ⟨⟨[], ⟨frame * 4096⟩⟩, kernel', accesses⟩ = (.ok (), middle) := by
  obtain ⟨kernelDir, frame, kernel, kernel', space, lowmem⟩ :=
    smallKernelWith_attached (imageMemory segmentCount)
  have tables := space.tables
  have bytes := imageMemory_kept fun _ marked => space.bytes _ marked
  refine ⟨kernelDir, kernel, frame, kernel', space.booted, space.created, tables, bytes,
    fun accesses => ?_⟩
  have dir_eq := vmSpace_dir_eq [] frame
  have parsed : iwbfParseSegmentHdr kernel'.machine.mem (0x70000 + iwbfSegOff 0)
      (Word32.sub 38 (iwbfSegOff 0)) default = (.ok (), systemSegmentHdr) :=
    systemImage_segment bytes
  obtain ⟨accesses', ⟨_, _, failed, _⟩ | ⟨seg, parsed', placing⟩⟩ :=
    processLoadSegment_cases bumpHeap
    0x70000 38 0 ⟨⟨[], ⟨frame * 4096⟩⟩, kernel', accesses⟩
  · rw [parsed] at failed
    cases failed
  · rw [parsed] at parsed'
    cases parsed'
    rw [placing]
    exact placeSegment_one_page bumpHeap 0x70000 ⟨⟨[], ⟨frame * 4096⟩⟩, kernel', accesses'⟩ tables
      (by rw [dir_eq]; exact List.mem_singleton_self _) (by rw [dir_eq]) (by simp only; omega)
      ⟨by decide, by decide⟩ (by decide) (by decide) (by decide)
      (by rw [dir_eq]; exact space.unmapped (by decide)) rfl
      (by simp only [space.heap_eq]; exact (by decide : kerrPtrIsErr 0xD0000000 = false))

/-- The system image is loaded into a fresh process, which sees its code at the entry. -/
theorem processLoad_faithful_system :
    ∃ kernel vm kernel' proc' state, vmKernInit smallSections (imageKernel 1) = (.ok (), kernel) ∧
      vmSpaceInit (x86Env bumpHeap) kernel = (.ok vm, kernel') ∧
      processLoad bumpHeap ⟨.created, vm, ⟨0, 0, 0⟩, 0⟩ 0x70000 38 kernel' =
        (.ok (), proc', state) ∧ proc'.entry = 0x400000 ∧
      ∃ phys, archVmTranslate state.kernel.machine proc'.vm.arch 0x400001 = .ok phys ∧
        state.kernel.machine.mem phys = 0xFE := by
  obtain ⟨kernelDir, kernel, frame, kernel', booted, created, tables, bytes, first⟩ :=
    imageKernel_first 1
  have step : VmStep bumpHeap ⟨kernel, [], ∅⟩ _ := .spaceInit created
  have parsed : iwbfParseHdr kernel'.machine.mem 0x70000 38 default = (.ok (), systemHdr) :=
    (systemImage_hdr bytes).trans rfl
  have loaded : ∃ state, processLoad bumpHeap ⟨.created, ⟨[], ⟨frame * 4096⟩⟩, ⟨0, 0, 0⟩, 0⟩ 0x70000
      38 kernel' = (.ok (), ⟨.created, state.vm, ⟨0, 0, 0⟩, 0x400000⟩, state) := by
    rcases processLoad_cases bumpHeap ⟨.created, ⟨[], ⟨frame * 4096⟩⟩, ⟨0, 0, 0⟩, 0⟩ 0x70000 38
        kernel' with
      ⟨_, _, rejects, _⟩ | ⟨_, _, hdr, accesses, last, parsed', outcome⟩
    · exact absurd parsed (rejects (by decide) rfl systemHdr)
    rw [parsed] at parsed'
    cases parsed'
    obtain ⟨middle, ran⟩ := first accesses
    have looped : processLoadSegments bumpHeap 0x70000 38 1 0
        ⟨⟨[], ⟨frame * 4096⟩⟩, kernel', accesses⟩ = (.ok (), middle) := by
      rw [processLoadSegments, ran]
      rfl
    rcases outcome with ⟨_, failed, _⟩ | ⟨_, passed⟩
    · rw [show systemHdr.segmentCount.toNat = 1 from rfl, looped] at failed
      cases failed
    · exact ⟨last, passed⟩
  obtain ⟨state, loaded⟩ := loaded
  obtain ⟨hdr, placed, parsed', entry, length_eq, parses, _, sees⟩ := processLoad_faithful
    (by decide) booted (.single step) (List.mem_singleton_self _) rfl (by decide)
    (fun offset offset_lt => .inl (imageReserved offset_lt)) loaded
  rw [show (⟨kernel', [⟨[], ⟨frame * 4096⟩⟩], ∅⟩ : VmSystem ℕ).kernel = kernel' from rfl, parsed]
    at parsed'
  cases parsed'
  obtain ⟨segment, rfl⟩ := List.length_eq_one_iff.mp (length_eq.trans rfl)
  have descriptor := parses 0 segment rfl
  rw [show iwbfParseSegmentHdr _ _ _ _ = _ from systemImage_segment bytes] at descriptor
  obtain ⟨seg, page⟩ := segment
  cases descriptor
  obtain ⟨translated, byte_eq, _⟩ := sees _ (List.mem_singleton_self _) 1
    (by decide : 1 < systemSegmentHdr.memSize.toNat)
  refine ⟨kernel, _, kernel', _, state, booted, created, loaded, rfl, _, translated, ?_⟩
  exact byte_eq.trans ((if_pos (by decide : 1 < systemSegmentHdr.fileSize.toNat)).trans
    ((bytes 37 (by decide)).trans rfl))

end SystemImage

end ItWorksOS
