import ItWorksOS.Arch.X86.Mapping
import ItWorksOS.Mm.PmmOwnership

/-!
# Life cycle of page directories

Directories and their tables come from the PMM and go back to it. The operations below change the
set of live directories; everything outside the frames they allocate or release stays as it is.
-/

namespace ItWorksOS

variable {kernelDir dir va frame : ℕ} {dirs : List ℕ} {machine machine' : Machine}

/-! ## Frames that callers own -/

/-- Bytes outside the tables do not matter to the tables. -/
theorem PageTables.of_agree (tables : PageTables kernelDir dirs machine)
    (agree : ∀ slot, Owned kernelDir dirs machine slot →
      ByteMemory.AgreeOn machine.mem machine'.mem (slot.frame machine))
    (total : machine'.pmm.totalFrames = machine.pmm.totalFrames)
    (marked : ∀ slot, Owned kernelDir dirs machine slot →
      machine'.pmm.Marked (slot.frame machine)) :
    PageTables kernelDir dirs machine' ∧
      (KernelReady kernelDir machine → KernelReady kernelDir machine') ∧
      ∀ dir ∈ kernelDir :: dirs, ∀ va < 2 ^ 32,
        pteWord machine' dir va = pteWord machine dir va := by
  have words : ∀ dir ∈ kernelDir :: dirs, ∀ index < 1024,
      machine'.mem.word dir index = machine.mem.word dir index :=
    fun dir member index index_lt => (agree (.directory dir) member).word_eq index_lt
  refine ⟨tables.congr words total marked, ?_, ?_⟩
  · intro ready index kernel index_lt
    rw [words kernelDir (by simp) index index_lt]
    exact ready index kernel index_lt
  · intro dir member va va_lt
    have index_lt : va / 2 ^ 22 < 1024 := by omega
    simp only [pteWord, words dir member _ index_lt]
    by_cases present : EntryPresent (machine.mem.word dir (va / 2 ^ 22))
    · obtain ⟨owned, frame_eq⟩ := tables.canonical_owned member index_lt present
      rw [if_pos present, if_pos present, ← frame_eq]
      exact (agree _ owned).word_eq (Nat.mod_lt _ (by decide))
    · rw [if_neg present, if_neg present]

/-- Frames of a free run become residue once they are marked. -/
theorem residue_pmmMark {firstFrame pages : ℕ} (tables : PageTables kernelDir dirs machine)
    (free : machine.pmm.FreeRun firstFrame pages) (other : ℕ) :
    Residue kernelDir dirs { machine with pmm := pmmMark machine.pmm firstFrame pages } other ↔
      (firstFrame ≤ other ∧ other < firstFrame + pages) ∨ Residue kernelDir dirs machine other := by
  have same_owned (slot : TableSlot) : Owned kernelDir dirs
      { machine with pmm := pmmMark machine.pmm firstFrame pages } slot ↔
        Owned kernelDir dirs machine slot := by
    cases slot <;> exact Iff.rfl
  have same_frame (slot : TableSlot) : slot.frame
      { machine with pmm := pmmMark machine.pmm firstFrame pages } = slot.frame machine := by
    cases slot <;> rfl
  simp only [Residue, marked_pmmMark, same_owned, same_frame]
  constructor
  · rintro ⟨inside | marked, unowned⟩
    · exact Or.inl inside
    · exact Or.inr ⟨marked, unowned⟩
  · rintro (inside | ⟨marked, unowned⟩)
    · refine ⟨Or.inl inside, ?_⟩
      rintro slot owned rfl
      exact free _ inside.1 inside.2 (tables.placed slot owned).2.2
    · exact ⟨Or.inr marked, unowned⟩

/-- Residue frames that are released leave the residue. -/
theorem residue_pmmUnmark (kernelDir : ℕ) (dirs : List ℕ) (machine : Machine)
    (firstFrame pages other : ℕ) :
    Residue kernelDir dirs { machine with pmm := pmmUnmark machine.pmm firstFrame pages } other ↔
      ¬ (firstFrame ≤ other ∧ other < firstFrame + pages) ∧
        Residue kernelDir dirs machine other := by
  have same_owned (slot : TableSlot) : Owned kernelDir dirs
      { machine with pmm := pmmUnmark machine.pmm firstFrame pages } slot ↔
        Owned kernelDir dirs machine slot := by
    cases slot <;> exact Iff.rfl
  have same_frame (slot : TableSlot) : slot.frame
      { machine with pmm := pmmUnmark machine.pmm firstFrame pages } = slot.frame machine := by
    cases slot <;> rfl
  simp only [Residue, marked_pmmUnmark, same_owned, same_frame, and_assoc]

/-! ## New directories -/

/-- A fresh cleared frame. -/
def clearedFrame (machine : Machine) (frame : ℕ) : Machine where
  mem := memset machine.mem (frame * 4096) 0 x86PageSize
  pmm := pmmMark machine.pmm frame 1

theorem clearedFrame_agreeOn {other : ℕ} (distinct : other ≠ frame) :
    ByteMemory.AgreeOn machine.mem (clearedFrame machine frame).mem other :=
  ByteMemory.fill_agreeOn 0 distinct

theorem clearedFrame_word {index : ℕ} (index_lt : index < 1024) :
    (clearedFrame machine frame).mem.word frame index = 0 :=
  ByteMemory.word_fill_zero _ _ index_lt

/-- A cleared directory without address spaces is a well-formed start. -/
theorem pageTables_clearedFrame (fresh : FreshFrame machine frame)
    (total_lt : machine.pmm.totalFrames < 2 ^ 32) :
    PageTables frame [] (clearedFrame machine frame) ∧
      (∀ index < 1024, ¬ EntryPresent ((clearedFrame machine frame).mem.word frame index)) ∧
      (∀ va < 2 ^ 32, pteWord (clearedFrame machine frame) frame va = 0) ∧
      ∀ other, Residue frame [] (clearedFrame machine frame) other ↔ machine.pmm.Marked other := by
  have absent (index : ℕ) (index_lt : index < 1024) :
      ¬ EntryPresent ((clearedFrame machine frame).mem.word frame index) := by
    rw [clearedFrame_word index_lt]
    decide
  have only (slot : TableSlot) (owned : Owned frame [] (clearedFrame machine frame) slot) :
      slot = .directory frame := by
    cases slot with
    | directory dir => simpa [Owned] using owned
    | table dir index =>
        obtain ⟨present, place⟩ := owned
        simp only [List.not_mem_nil, false_and, false_or] at place
        obtain ⟨rfl, _, index_lt⟩ := place
        exact absurd present (absent index index_lt)
  refine ⟨⟨by simp, total_lt, ?_, ?_, ?_, ?_, by simp⟩, absent, ?_, ?_⟩
  · intro slot owned
    obtain rfl := only slot owned
    exact ⟨fresh.lowmem, fresh.below, (marked_pmmMark _ _ _ _).mpr (Or.inl
      ⟨Nat.le_refl _, Nat.lt_succ_self _⟩)⟩
  · intro left right left_owned right_owned _
    rw [only left left_owned, only right right_owned]
  · intro dir member index index_lt present
    obtain rfl := List.mem_singleton.mp member
    exact absurd present (absent index index_lt)
  · intro index user
    exact absent index (by omega)
  · intro va va_lt
    simp only [pteWord]
    rw [if_neg (absent _ (by omega))]
  · intro other
    have marked : (clearedFrame machine frame).pmm.Marked other ↔
        (frame ≤ other ∧ other < frame + 1) ∨ machine.pmm.Marked other := marked_pmmMark ..
    rw [Residue, marked]
    constructor
    · rintro ⟨inside | was_marked, unowned⟩
      · have same : frame = other := by omega
        exact absurd same (unowned (.directory frame) (List.mem_singleton_self _))
      · exact was_marked
    · intro was_marked
      refine ⟨Or.inr was_marked, fun slot owned => ?_⟩
      rw [only slot owned]
      rintro rfl
      exact fresh.free was_marked

/-- Copying kernel entries writes those of the new directory only. -/
theorem archVmCopyKernel_spec (distinct : frame ≠ kernelDir) (machine : Machine) {count : ℕ}
    (count_le : count ≤ 256) :
    (archVmCopyKernel ⟨frame * 4096⟩ ⟨kernelDir * 4096⟩ machine count).pmm = machine.pmm ∧
      (∀ other, other ≠ frame → ByteMemory.AgreeOn machine.mem
        (archVmCopyKernel ⟨frame * 4096⟩ ⟨kernelDir * 4096⟩ machine count).mem other) ∧
      ∀ index < 1024,
        (archVmCopyKernel ⟨frame * 4096⟩ ⟨kernelDir * 4096⟩ machine count).mem.word frame index =
          if 768 ≤ index ∧ index < 768 + count then machine.mem.word kernelDir index
          else machine.mem.word frame index := by
  induction count with
  | zero =>
      refine ⟨rfl, fun _ _ _ _ => rfl, fun index index_lt => ?_⟩
      rw [if_neg (by omega)]
      rfl
  | succ count induction =>
      obtain ⟨pmm_eq, agree, words⟩ := induction (by omega)
      have written : (archVmCopyKernel ⟨frame * 4096⟩ ⟨kernelDir * 4096⟩ machine (count + 1)).mem =
          (archVmCopyKernel ⟨frame * 4096⟩ ⟨kernelDir * 4096⟩ machine count).mem.setWord frame
            (768 + count) (machine.mem.word kernelDir (768 + count)) := by
        rw [← (agree kernelDir distinct.symm).word_eq (by omega : 768 + count < 1024)]
        rfl
      refine ⟨pmm_eq, ?_, ?_⟩
      · intro other other_ne
        rw [written]
        exact (agree other other_ne).trans
          (ByteMemory.setWord_agreeOn (by omega) other_ne)
      · intro index index_lt
        rw [written, ByteMemory.word_setWord (by omega) index_lt (ByteMemory.word_lt _ _ _),
          words index index_lt]
        by_cases last : index = 768 + count
        · rw [if_pos ⟨rfl, last⟩, if_pos (by omega), last]
        · rw [if_neg (by simp [last])]
          congr 1
          apply propext
          omega

/-- A fresh directory that shares the kernel entries. -/
@[irreducible] def attachedFrame (machine : Machine) (kernelDir frame : ℕ) : Machine :=
  archVmCopyKernel ⟨frame * 4096⟩ ⟨kernelDir * 4096⟩ (clearedFrame machine frame) 256

section Attach

variable (tables : PageTables kernelDir dirs machine) (fresh : FreshFrame machine frame)
include tables fresh

private theorem attached_facts :
    (attachedFrame machine kernelDir frame).pmm = pmmMark machine.pmm frame 1 ∧
      (∀ other, other ≠ frame →
        ByteMemory.AgreeOn machine.mem (attachedFrame machine kernelDir frame).mem other) ∧
      ∀ index < 1024, (attachedFrame machine kernelDir frame).mem.word frame index =
        if 768 ≤ index then machine.mem.word kernelDir index else 0 := by
  have distinct : frame ≠ kernelDir :=
    (fresh.ne_frame tables (PageTables.dir_owned (List.mem_cons_self ..))).symm
  obtain ⟨pmm_eq, agree, words⟩ :=
    archVmCopyKernel_spec distinct (clearedFrame machine frame) (Nat.le_refl 256)
  rw [attachedFrame]
  refine ⟨pmm_eq, fun other other_ne => ?_, fun index index_lt => ?_⟩
  · exact (clearedFrame_agreeOn other_ne).trans (agree other other_ne)
  · rw [words index index_lt, clearedFrame_word index_lt,
      (clearedFrame_agreeOn distinct.symm).word_eq index_lt]
    by_cases kernel : 768 ≤ index
    · rw [if_pos ⟨kernel, by omega⟩, if_pos kernel]
    · rw [if_neg (fun both => kernel both.1), if_neg kernel]

private theorem attached_words {dir' index : ℕ} (member : dir' ∈ kernelDir :: dirs)
    (index_lt : index < 1024) :
    (attachedFrame machine kernelDir frame).mem.word dir' index = machine.mem.word dir' index := by
  obtain ⟨_, agree, _⟩ := attached_facts tables fresh
  exact (agree dir' (fresh.ne_frame tables (PageTables.dir_owned member))).word_eq index_lt

private theorem attached_owned {slot : TableSlot} :
    Owned kernelDir (frame :: dirs) (attachedFrame machine kernelDir frame) slot ↔
      Owned kernelDir dirs machine slot ∨ slot = .directory frame := by
  obtain ⟨_, _, new_words⟩ := attached_facts tables fresh
  cases slot with
  | directory dir' =>
      simp only [Owned, List.mem_cons, TableSlot.directory.injEq]
      tauto
  | table dir' index =>
      simp only [Owned, List.mem_cons, reduceCtorEq, or_false]
      constructor
      · rintro ⟨present, ⟨rfl | dir_mem, user⟩ | ⟨rfl, kernel, index_lt⟩⟩
        · rw [new_words index (by omega), if_neg (by omega)] at present
          exact absurd present (by decide)
        · rw [attached_words tables fresh (by simp [dir_mem]) (by omega)] at present
          exact ⟨present, Or.inl ⟨dir_mem, user⟩⟩
        · rw [attached_words tables fresh (by simp) index_lt] at present
          exact ⟨present, Or.inr ⟨rfl, kernel, index_lt⟩⟩
      · rintro ⟨present, ⟨dir_mem, user⟩ | ⟨rfl, kernel, index_lt⟩⟩
        · rw [attached_words tables fresh (by simp [dir_mem]) (by omega)]
          exact ⟨present, Or.inl ⟨Or.inr dir_mem, user⟩⟩
        · rw [attached_words tables fresh (by simp) index_lt]
          exact ⟨present, Or.inr ⟨rfl, kernel, index_lt⟩⟩

private theorem attached_frame {slot : TableSlot} (owned : Owned kernelDir dirs machine slot) :
    slot.frame (attachedFrame machine kernelDir frame) = slot.frame machine := by
  cases slot with
  | directory dir' => rfl
  | table dir' index =>
      obtain ⟨_, ⟨dir_mem, user⟩ | ⟨rfl, _, index_lt⟩⟩ := owned
      · simp only [TableSlot.frame]
        rw [attached_words tables fresh (by simp [dir_mem]) (by omega)]
      · simp only [TableSlot.frame]
        rw [attached_words tables fresh (by simp) index_lt]

theorem attachedFrame_pmm :
    (attachedFrame machine kernelDir frame).pmm = pmmMark machine.pmm frame 1 :=
  (attached_facts tables fresh).1

/-- The user half of a fresh directory is empty. -/
theorem word_attachedFrame {index : ℕ} (user : index < 768) :
    (attachedFrame machine kernelDir frame).mem.word frame index = 0 := by
  rw [(attached_facts tables fresh).2.2 index (by omega), if_neg (by omega)]

/-- Attaching a fresh directory keeps the structure. -/
theorem pageTables_attachedFrame :
    PageTables kernelDir (frame :: dirs) (attachedFrame machine kernelDir frame) := by
  obtain ⟨pmm_eq, _, new_words⟩ := attached_facts tables fresh
  have frame_new (slot : TableSlot) (owned : Owned kernelDir dirs machine slot) :
      slot.frame machine ≠ frame := fresh.ne_frame tables owned
  have marked (other : ℕ) : (attachedFrame machine kernelDir frame).pmm.Marked other ↔
      other = frame ∨ machine.pmm.Marked other := by
    rw [pmm_eq, marked_pmmMark]
    refine or_congr_left ?_
    omega
  have nodup := tables.nodup
  refine ⟨?_, by rw [pmm_eq]; exact tables.total_lt, ?_, ?_, ?_, ?_, ?_⟩
  · have kernel_ne : kernelDir ≠ frame :=
      frame_new (.directory kernelDir) (PageTables.dir_owned (List.mem_cons_self ..))
    have frame_fresh : frame ∉ dirs := fun member =>
      frame_new (.directory frame) (PageTables.dir_owned (List.mem_cons_of_mem _ member)) rfl
    simp only [List.nodup_cons, List.mem_cons, not_or] at nodup ⊢
    exact ⟨⟨kernel_ne, nodup.1⟩, frame_fresh, nodup.2⟩
  · intro slot owned
    rw [marked, pmm_eq]
    rcases (attached_owned tables fresh).mp owned with before | rfl
    · obtain ⟨lowmem, below, was_marked⟩ := tables.placed slot before
      rw [attached_frame tables fresh before]
      exact ⟨lowmem, below, Or.inr was_marked⟩
    · exact ⟨fresh.lowmem, fresh.below, Or.inl rfl⟩
  · intro left right left_owned right_owned same
    rcases (attached_owned tables fresh).mp left_owned with left_before | rfl <;>
      rcases (attached_owned tables fresh).mp right_owned with right_before | rfl
    · rw [attached_frame tables fresh left_before, attached_frame tables fresh right_before] at same
      exact tables.injective left right left_before right_before same
    · rw [attached_frame tables fresh left_before] at same
      exact absurd same (frame_new left left_before)
    · rw [attached_frame tables fresh right_before] at same
      exact absurd same.symm (frame_new right right_before)
    · rfl
  · intro dir' member index index_lt present
    have cases_mem : dir' = frame ∨ dir' ∈ kernelDir :: dirs := by
      simp only [List.mem_cons] at member ⊢
      tauto
    rcases cases_mem with rfl | member'
    · rw [new_words index index_lt] at present ⊢
      split
      · rename_i kernel
        rw [if_pos kernel] at present
        exact tables.small kernelDir (by simp) index index_lt present
      · rfl
    · rw [attached_words tables fresh member' index_lt] at present ⊢
      exact tables.small dir' member' index index_lt present
  · intro index user
    rw [attached_words tables fresh (by simp) (by omega)]
    exact tables.kernelOnly index user
  · intro dir' member index kernel index_lt
    rw [attached_words tables fresh (List.mem_cons_self ..) index_lt]
    rcases List.mem_cons.mp member with rfl | member
    · rw [new_words index index_lt, if_pos kernel]
    · rw [attached_words tables fresh (List.mem_cons_of_mem _ member) index_lt]
      exact tables.shared dir' member index kernel index_lt

/-- A new directory is allocated from free frames, starts with an empty user half and shares the
kernel half; every other view stays. -/
theorem attachedFrame_spec :
    (KernelReady kernelDir machine →
        KernelReady kernelDir (attachedFrame machine kernelDir frame)) ∧
      (∀ other, Residue kernelDir (frame :: dirs) (attachedFrame machine kernelDir frame) other ↔
        Residue kernelDir dirs machine other) ∧
      (∀ other, machine.pmm.Marked other → ByteMemory.AgreeOn machine.mem
        (attachedFrame machine kernelDir frame).mem other) ∧
      (∀ dir ∈ kernelDir :: dirs, ∀ va < 2 ^ 32,
        pteWord (attachedFrame machine kernelDir frame) dir va = pteWord machine dir va) ∧
      ∀ va < 2 ^ 32, pteWord (attachedFrame machine kernelDir frame) frame va =
        if kernelVirtOffset ≤ va then pteWord machine kernelDir va else 0 := by
  obtain ⟨pmm_eq, agree, new_words⟩ := attached_facts tables fresh
  have marked (other : ℕ) : (attachedFrame machine kernelDir frame).pmm.Marked other ↔
      other = frame ∨ machine.pmm.Marked other := by
    rw [pmm_eq, marked_pmmMark]
    refine or_congr_left ?_
    omega
  have views (dir : ℕ) (member : dir ∈ kernelDir :: dirs) (va : ℕ) (va_lt : va < 2 ^ 32) :
      pteWord (attachedFrame machine kernelDir frame) dir va = pteWord machine dir va := by
    have index_lt : va / 2 ^ 22 < 1024 := by omega
    simp only [pteWord, attached_words tables fresh member index_lt]
    by_cases present : EntryPresent (machine.mem.word dir (va / 2 ^ 22))
    · obtain ⟨owned, frame_eq⟩ := tables.canonical_owned member index_lt present
      rw [if_pos present, if_pos present]
      exact (agree _ (frame_eq ▸ fresh.ne_frame tables owned)).word_eq (Nat.mod_lt _ (by decide))
    · rw [if_neg present, if_neg present]
  refine ⟨?_, ?_, ?_, views, ?_⟩
  · intro ready index kernel index_lt
    rw [attached_words tables fresh (by simp) index_lt]
    exact ready index kernel index_lt
  · intro other
    simp only [Residue, marked]
    constructor
    · rintro ⟨is_marked, unowned⟩
      have not_new : frame ≠ other :=
        unowned (.directory frame) ((attached_owned tables fresh).mpr (Or.inr rfl))
      refine ⟨is_marked.resolve_left not_new.symm, fun slot owned => ?_⟩
      rw [← attached_frame tables fresh owned]
      exact unowned slot ((attached_owned tables fresh).mpr (Or.inl owned))
    · rintro ⟨is_marked, unowned⟩
      refine ⟨Or.inr is_marked, fun slot owned => ?_⟩
      rcases (attached_owned tables fresh).mp owned with before | rfl
      · rw [attached_frame tables fresh before]
        exact unowned slot before
      · rintro rfl
        exact fresh.free is_marked
  · intro other is_marked
    apply agree
    rintro rfl
    exact fresh.free is_marked
  · intro va va_lt
    have index_lt : va / 2 ^ 22 < 1024 := by omega
    by_cases kernel : kernelVirtOffset ≤ va
    · have kernel_index : 768 ≤ va / 2 ^ 22 := by
        unfold kernelVirtOffset at kernel
        omega
      have same_word : (attachedFrame machine kernelDir frame).mem.word frame (va / 2 ^ 22) =
          (attachedFrame machine kernelDir frame).mem.word kernelDir (va / 2 ^ 22) := by
        rw [new_words _ index_lt, if_pos kernel_index,
          attached_words tables fresh (by simp) index_lt]
      rw [if_pos kernel, ← views kernelDir (by simp) va va_lt]
      simp only [pteWord, same_word]
    · have user_index : ¬ 768 ≤ va / 2 ^ 22 := by
        unfold kernelVirtOffset at kernel
        omega
      rw [if_neg kernel]
      simp only [pteWord, new_words _ index_lt, if_neg user_index]
      rw [if_neg (by decide)]

end Attach

/-- `arch_vm_space_init` takes a fresh cleared frame. -/
theorem archVmSpaceInit_cases (machine : Machine) :
    (archVmSpaceInit machine = (.error .nomem, machine) ∧ ∀ frame, ¬ FreshFrame machine frame) ∨
      ∃ frame, FreshFrame machine frame ∧
        archVmSpaceInit machine = (.ok ⟨frame * 4096⟩, clearedFrame machine frame) := by
  rcases archAllocTable_cases machine with ⟨failed, exhausted⟩ | ⟨frame, fresh, allocated⟩
  · exact Or.inl ⟨by rw [archVmSpaceInit, failed], exhausted⟩
  · exact Or.inr ⟨frame, fresh, by rw [archVmSpaceInit, allocated]; rfl⟩

theorem archVmSpaceAttachKernel_eq (machine : Machine) (frame kernelDir : ℕ) :
    archVmSpaceAttachKernel (clearedFrame machine frame) ⟨frame * 4096⟩ ⟨kernelDir * 4096⟩ =
      (.ok (), attachedFrame machine kernelDir frame) := by
  rw [attachedFrame]
  rfl

/-! ## Kernel tables -/

/-- Free LowMem frames. -/
def Pmm.lowSet (pmm : Pmm) : Finset ℕ :=
  (Finset.range (Nat.min 196608 pmm.totalFrames)).filter fun frame => ¬ pmm.Marked frame

theorem freshFrame_iff : FreshFrame machine frame ↔ frame ∈ machine.pmm.lowSet := by
  rw [Pmm.lowSet, Finset.mem_filter, Finset.mem_range]
  constructor
  · rintro ⟨lowmem, below, free⟩
    exact ⟨Nat.lt_min.mpr ⟨lowmem, below⟩, free⟩
  · rintro ⟨bounds, free⟩
    exact ⟨(Nat.lt_min.mp bounds).1, (Nat.lt_min.mp bounds).2, free⟩

/-- The frames of a clear word of the bitmap are free. -/
theorem mem_lowSet_of_clear {pmm : Pmm} (lowmem : frame < 196608) (below : frame < pmm.totalFrames)
    (clear : pmm.bm.data (frame / 32) = 0) : frame ∈ pmm.lowSet := by
  rw [Pmm.lowSet, Finset.mem_filter, Finset.mem_range]
  exact ⟨Nat.lt_min.mpr ⟨lowmem, below⟩, by simp [Pmm.Marked, bitmapTest, clear]⟩

/-- While LowMem has a free frame, an allocation of one page takes one. -/
theorem pmmAllocLowmem_frame {pmm : Pmm} (some : pmm.lowSet.Nonempty) :
    ∃ frame ∈ pmm.lowSet, pmmAllocLowmem pmm 1 = (.ok (frame * 4096), pmmMark pmm frame 1) := by
  obtain ⟨free, member⟩ := some
  rw [Pmm.lowSet, Finset.mem_filter, Finset.mem_range] at member
  rcases pmmAllocLowmem_cases pmm Nat.one_pos with
    ⟨-, exhausted⟩ | ⟨frame, allocated, lowmem, below, run⟩
  · refine absurd (fun other lower upper => ?_) (exhausted free member.1)
    rw [show other = free by omega]
    exact member.2
  · refine ⟨frame, ?_, allocated⟩
    rw [Pmm.lowSet, Finset.mem_filter, Finset.mem_range]
    exact ⟨Nat.lt_min.mpr ⟨lowmem, below⟩, run frame le_rfl (Nat.lt_succ_self _)⟩

/-- Marking a frame takes it from the free LowMem frames. -/
theorem lowSet_pmmMark_erase (pmm : Pmm) (frame : ℕ) :
    (pmmMark pmm frame 1).lowSet = pmm.lowSet.erase frame := by
  ext other
  simp only [Pmm.lowSet, Finset.mem_filter, Finset.mem_range, Finset.mem_erase, marked_pmmMark,
    totalFrames_pmmMark, not_or]
  constructor
  · rintro ⟨bounds, outside, free⟩
    exact ⟨by omega, bounds, free⟩
  · rintro ⟨distinct, bounds, free⟩
    exact ⟨bounds, by omega, free⟩

theorem lowSet_pmmMark (fresh : FreshFrame machine frame) :
    (pmmMark machine.pmm frame 1).lowSet.card + 1 = machine.pmm.lowSet.card := by
  rw [lowSet_pmmMark_erase]
  exact Finset.card_erase_add_one (freshFrame_iff.mp fresh)

/-- The kernel entries before an index are present and the others are not. -/
structure KernelFilled (machine : Machine) (kernelDir index : ℕ) : Prop where
  filled : ∀ other, 768 ≤ other → other < index →
    EntryPresent (machine.mem.word kernelDir other)
  absent : ∀ other, index ≤ other → other < 1024 →
    ¬ EntryPresent (machine.mem.word kernelDir other)

/-- Installing a table at the index moves it on. -/
theorem KernelFilled.install {index : ℕ} (entries : KernelFilled machine kernelDir index)
    (tables : PageTables kernelDir [] machine) (fresh : FreshFrame machine frame)
    (place : Installable kernelDir [] kernelDir index) :
    KernelFilled (installTable machine kernelDir index frame 3) kernelDir (index + 1) := by
  obtain ⟨_, index_lt⟩ := place.bounds
  have word_eq {other : ℕ} (other_lt : other < 1024) :
      (installTable machine kernelDir index frame 3).mem.word kernelDir other =
        if other = index then frame * 4096 + 3 else machine.mem.word kernelDir other := by
    rw [word_installTable tables fresh place (Or.inl rfl) (List.mem_cons_self ..) other_lt]
    simp only [true_and]
  constructor
  · intro other kernel other_lt
    rw [word_eq (by omega)]
    split
    · unfold EntryPresent
      omega
    · exact entries.filled other kernel (by omega)
  · intro other later other_lt
    rw [word_eq other_lt, if_neg (by omega)]
    exact entries.absent other (by omega) other_lt

theorem setEntry_eq_installTable (machine : Machine) (kernelDir index frame : ℕ) :
    (Machine.setEntry
      { mem := memset machine.mem (frame * 4096) 0 x86PageSize
        pmm := pmmMark machine.pmm frame 1 } (kernelDir * 4096) index
      (frame * 4096 ||| x86Present ||| x86Writable)) =
        installTable machine kernelDir index frame 3 := by
  have value_eq : frame * 4096 ||| x86Present ||| x86Writable = frame * 4096 + 3 := by
    rw [Nat.or_assoc, show x86Present ||| x86Writable = 3 from rfl, or_entryFlags _ (by decide)]
  rw [value_eq]
  rfl

/-- The loop of `arch_vm_kernel_prepare` fills the remaining kernel entries with empty tables, and
fails only when LowMem runs out. -/
theorem archVmKernelPrepareFrom_cases {count index : ℕ} (tables : PageTables kernelDir [] machine)
    (index_ge : 768 ≤ index) (sum : index + count = 1024)
    (entries : KernelFilled machine kernelDir index) :
    (∃ machine', archVmKernelPrepareFrom ⟨kernelDir * 4096⟩ count index machine =
        (.error .nomem, machine') ∧ machine.pmm.lowSet.card < count) ∨
      ∃ machine', archVmKernelPrepareFrom ⟨kernelDir * 4096⟩ count index machine =
          (.ok (), machine') ∧ PageTables kernelDir [] machine' ∧ KernelReady kernelDir machine' ∧
        machine'.pmm.totalFrames = machine.pmm.totalFrames ∧
        machine'.pmm.lowSet.card + count = machine.pmm.lowSet.card ∧
        (∀ va < 2 ^ 32, pteWord machine' kernelDir va = pteWord machine kernelDir va) ∧
        ∀ other, (Residue kernelDir [] machine' other ↔ Residue kernelDir [] machine other) ∧
          (Residue kernelDir [] machine other →
            ByteMemory.AgreeOn machine.mem machine'.mem other) := by
  induction count generalizing index machine with
  | zero =>
      refine Or.inr ⟨machine, rfl, tables, ?_, rfl, rfl, fun _ _ => rfl,
        fun _ => ⟨Iff.rfl, fun _ _ _ => rfl⟩⟩
      intro other kernel other_lt
      exact entries.filled other kernel (by omega)
  | succ count induction =>
      rw [archVmKernelPrepareFrom]
      rcases archAllocTable_cases machine with ⟨failed, exhausted⟩ | ⟨frame, fresh, allocated⟩
      · refine Or.inl ⟨machine, by rw [failed], ?_⟩
        have empty : machine.pmm.lowSet = ∅ :=
          Finset.eq_empty_of_forall_notMem fun frame member =>
            exhausted frame (freshFrame_iff.mpr member)
        simp [empty]
      · have place : Installable kernelDir [] kernelDir index :=
          Or.inr ⟨rfl, rfl, index_ge, by omega⟩
        have missing := entries.absent index (Nat.le_refl _) (by omega)
        have installed := pageTables_installTable tables fresh place missing (Or.inl rfl)
        have lowSet_eq : (installTable machine kernelDir index frame 3).pmm.lowSet.card + 1 =
            machine.pmm.lowSet.card := lowSet_pmmMark fresh
        rw [allocated]
        simp only [setEntry_eq_installTable]
        rcases induction installed (by omega) (by omega) (entries.install tables fresh place) with
          ⟨machine', failed, short⟩ |
          ⟨machine', passed, tables', ready', total', low', views', residue'⟩
        · exact Or.inl ⟨machine', failed, by omega⟩
        · have residue := residue_installTable tables fresh place missing (Or.inl rfl)
          refine Or.inr ⟨machine', passed, tables', ready', total', by omega, ?_, ?_⟩
          · intro va va_lt
            rw [views' va va_lt, pteWord_installTable tables fresh place missing (Or.inl rfl)
              (List.mem_cons_self ..) va_lt]
          · intro other
            refine ⟨(residue' other).1.trans (residue other).1, fun is_residue => ?_⟩
            exact ((residue other).2 is_residue).trans
              ((residue' other).2 ((residue other).1.mpr is_residue))

/-! ## Destruction -/

/-- Frames of the page tables behind `count` directory entries from `index`. -/
def userFrames (machine : Machine) (dir : ℕ) : ℕ → ℕ → List ℕ
  | 0, _ => []
  | count + 1, index =>
      if EntryPresent (machine.mem.word dir index) then
        machine.mem.word dir index / 4096 :: userFrames machine dir count (index + 1)
      else userFrames machine dir count (index + 1)

/-- All frames that an address space owns: its user page tables and its directory. -/
def spaceFrames (machine : Machine) (dir : ℕ) : List ℕ := userFrames machine dir 768 0 ++ [dir]

/-- Return single frames to the PMM, one after the other. -/
def pmmUnmarkAll (pmm : Pmm) (frames : List ℕ) : Pmm :=
  frames.foldl (fun pmm frame => pmmUnmark pmm frame 1) pmm

theorem mem_userFrames {count index : ℕ} :
    frame ∈ userFrames machine dir count index ↔ ∃ other, index ≤ other ∧ other < index + count ∧
      EntryPresent (machine.mem.word dir other) ∧ frame = machine.mem.word dir other / 4096 := by
  induction count generalizing index with
  | zero =>
      simp only [userFrames, List.not_mem_nil, false_iff]
      rintro ⟨other, lower, upper, _⟩
      omega
  | succ count induction =>
      rw [userFrames]
      constructor
      · intro member
        split at member
        · rename_i present
          rcases List.mem_cons.mp member with rfl | member
          · exact ⟨index, Nat.le_refl _, by omega, present, rfl⟩
          · obtain ⟨other, lower, upper, rest⟩ := induction.mp member
            exact ⟨other, by omega, by omega, rest⟩
        · obtain ⟨other, lower, upper, rest⟩ := induction.mp member
          exact ⟨other, by omega, by omega, rest⟩
      · rintro ⟨other, lower, upper, present, rfl⟩
        by_cases first : other = index
        · subst first
          rw [if_pos present]
          simp
        · have later : machine.mem.word dir other / 4096 ∈
              userFrames machine dir count (index + 1) :=
            induction.mpr ⟨other, by omega, by omega, present, rfl⟩
          split
          · exact List.mem_cons_of_mem _ later
          · exact later

/-- A fresh address space owns its directory only. -/
theorem spaceFrames_attachedFrame (tables : PageTables kernelDir dirs machine)
    (fresh : FreshFrame machine frame) :
    spaceFrames (attachedFrame machine kernelDir frame) frame = [frame] := by
  obtain ⟨_, _, words⟩ := attached_facts tables fresh
  rw [spaceFrames, List.append_left_eq_self, List.eq_nil_iff_forall_not_mem]
  intro other member
  obtain ⟨index, _, user, present, _⟩ := mem_userFrames.mp member
  rw [words index (by omega), if_neg (by omega)] at present
  exact absurd present (by decide)

theorem marked_pmmUnmarkAll (pmm : Pmm) (frames : List ℕ) (frame : ℕ) :
    (pmmUnmarkAll pmm frames).Marked frame ↔ frame ∉ frames ∧ pmm.Marked frame := by
  induction frames generalizing pmm with
  | nil => simp [pmmUnmarkAll]
  | cons first frames induction =>
      rw [pmmUnmarkAll, List.foldl_cons]
      rw [← pmmUnmarkAll, induction, marked_pmmUnmark, List.mem_cons]
      have single : (first ≤ frame ∧ frame < first + 1) ↔ frame = first := by omega
      rw [single]
      tauto

theorem totalFrames_pmmUnmarkAll (pmm : Pmm) (frames : List ℕ) :
    (pmmUnmarkAll pmm frames).totalFrames = pmm.totalFrames := by
  induction frames generalizing pmm with
  | nil => rfl
  | cons first frames induction =>
      rw [pmmUnmarkAll, List.foldl_cons]
      exact induction _

private theorem pmmFree_frame {pmm : Pmm} (marked : pmm.Marked frame)
    (below : frame < pmm.totalFrames) (total_lt : pmm.totalFrames < 2 ^ 32) :
    pmmFree pmm (frame * 4096) 1 = (.ok (), pmmUnmark pmm frame 1) := by
  refine pmmFree_of_marked (by decide) total_lt (by omega) fun other lower upper => ?_
  obtain rfl : other = frame := by omega
  exact marked

/-- The loop of `arch_vm_space_destroy` returns the frames of the present tables, provided they are
distinct and marked. -/
theorem archVmFreeTables_eq {count index : ℕ} {pmm : Pmm}
    (small : ∀ other, index ≤ other → other < index + count →
      EntryPresent (machine.mem.word dir other) → machine.mem.word dir other / 128 % 2 = 0)
    (nodup : (userFrames machine dir count index).Nodup)
    (marked : ∀ frame ∈ userFrames machine dir count index,
      pmm.Marked frame ∧ frame < pmm.totalFrames)
    (total_lt : pmm.totalFrames < 2 ^ 32) :
    archVmFreeTables ⟨dir * 4096⟩ count index { machine with pmm := pmm } =
      (.ok (), { machine with pmm := pmmUnmarkAll pmm (userFrames machine dir count index) }) := by
  induction count generalizing index pmm with
  | zero => rfl
  | succ count induction =>
      have entry_eq : Machine.entry { machine with pmm := pmm } (dir * 4096) index =
          machine.mem.word dir index := rfl
      have mask_eq : machine.mem.word dir index &&& x86PageMask =
          machine.mem.word dir index / 4096 * 4096 := by
        rw [and_pageMask, Nat.mod_eq_of_lt (ByteMemory.word_lt _ _ _)]
      have small' (other : ℕ) (lower : index + 1 ≤ other) (upper : other < index + 1 + count) :=
        small other (by omega) (by omega)
      rw [archVmFreeTables]
      simp only [entry_eq, and_present, ne_eq, and_pdePageSize, mask_eq]
      by_cases present : EntryPresent (machine.mem.word dir index)
      · have frames_eq : userFrames machine dir (count + 1) index =
            machine.mem.word dir index / 4096 :: userFrames machine dir count (index + 1) := by
          rw [userFrames, if_pos present]
        rw [frames_eq] at nodup marked ⊢
        obtain ⟨first_new, rest_nodup⟩ := List.nodup_cons.mp nodup
        obtain ⟨first_marked, first_below⟩ := marked _ (List.mem_cons_self ..)
        rw [if_neg (not_not.mpr present),
          if_neg (not_not.mpr (small index (Nat.le_refl _) (by omega) present)),
          pmmFree_frame first_marked first_below total_lt]
        refine induction small' rest_nodup (fun frame member => ?_) total_lt
        obtain ⟨was_marked, below⟩ := marked frame (List.mem_cons_of_mem _ member)
        refine ⟨(marked_pmmUnmark _ _ _ _).mpr ⟨fun inside => ?_, was_marked⟩, below⟩
        obtain rfl : frame = machine.mem.word dir index / 4096 := by omega
        exact first_new member
      · have frames_eq : userFrames machine dir (count + 1) index =
            userFrames machine dir count (index + 1) := by
          rw [userFrames, if_neg present]
        rw [frames_eq] at nodup marked ⊢
        rw [if_pos present]
        exact induction small' nodup marked total_lt

section Destroy

variable {before after : List ℕ} (tables : PageTables kernelDir (before ++ dir :: after) machine)

private theorem member_dirs (kernelDir dir : ℕ) (before after : List ℕ) :
    dir ∈ kernelDir :: (before ++ dir :: after) := by simp

include tables

/-- A frame of the space is the frame of a slot that only the space owns. -/
theorem mem_spaceFrames_iff : frame ∈ spaceFrames machine dir ↔
    ∃ slot, Owned kernelDir (before ++ dir :: after) machine slot ∧ slot.frame machine = frame ∧
      (slot = .directory dir ∨ ∃ index < 768, slot = .table dir index) := by
  rw [spaceFrames, List.mem_append, mem_userFrames, List.mem_singleton]
  constructor
  · rintro (⟨index, _, user, present, rfl⟩ | rfl)
    · exact ⟨.table dir index, ⟨present, Or.inl ⟨by simp, by omega⟩⟩, rfl,
        Or.inr ⟨index, by omega, rfl⟩⟩
    · exact ⟨.directory frame, member_dirs .., rfl, Or.inl rfl⟩
  · rintro ⟨slot, owned, rfl, rfl | ⟨index, user, rfl⟩⟩
    · exact Or.inr rfl
    · exact Or.inl ⟨index, Nat.zero_le _, by omega, owned.1, rfl⟩

private theorem userFrames_nodup {count index : ℕ} (fits : index + count ≤ 768) :
    (userFrames machine dir count index).Nodup := by
  induction count generalizing index with
  | zero => exact List.nodup_nil
  | succ count induction =>
      rw [userFrames]
      split
      · rename_i present
        refine List.nodup_cons.mpr ⟨fun member => ?_, induction (by omega)⟩
        obtain ⟨other, lower, upper, present', same⟩ := mem_userFrames.mp member
        have indices := ((tables.table_eq_iff (member_dirs ..) (member_dirs ..) (by omega)
          (by omega) present' present).mp same).1
        omega
      · exact induction (by omega)

/-- The frames of a space are pairwise distinct. -/
theorem spaceFrames_nodup : (spaceFrames machine dir).Nodup := by
  rw [spaceFrames, List.nodup_append]
  refine ⟨userFrames_nodup tables (by omega), by simp, ?_⟩
  intro frame member other other_mem
  obtain rfl := List.mem_singleton.mp other_mem
  obtain ⟨index, _, user, present, rfl⟩ := mem_userFrames.mp member
  exact tables.table_ne_dir (member_dirs ..) (by omega) present (member_dirs ..)

theorem spaceFrames_placed (member : frame ∈ spaceFrames machine dir) :
    frame < 196608 ∧ frame < machine.pmm.totalFrames ∧ machine.pmm.Marked frame := by
  obtain ⟨slot, owned, rfl, _⟩ := (mem_spaceFrames_iff tables).mp member
  exact tables.placed slot owned

/-- `arch_vm_space_destroy` succeeds and returns each frame of the space once. -/
theorem archVmSpaceDestroy_eq :
    archVmSpaceDestroy machine ⟨dir * 4096⟩ =
      (.ok (), ⟨0⟩,
        { machine with pmm := pmmUnmarkAll machine.pmm (spaceFrames machine dir) }) := by
  have nodup := spaceFrames_nodup tables
  rw [spaceFrames, List.nodup_append] at nodup
  have freed : archVmFreeTables ⟨dir * 4096⟩ x86KernelPdeBase 0 machine =
      (.ok (), { machine with
        pmm := pmmUnmarkAll machine.pmm (userFrames machine dir 768 0) }) := by
    refine archVmFreeTables_eq ?_ nodup.1 ?_ tables.total_lt
    · intro index _ user present
      unfold x86KernelPdeBase at user
      exact tables.small dir (member_dirs ..) index (by omega) present
    · intro frame member
      have placed := spaceFrames_placed tables
        (by simp [spaceFrames, member] : frame ∈ spaceFrames machine dir)
      exact ⟨placed.2.2, placed.2.1⟩
  have placed := spaceFrames_placed tables
    (by simp [spaceFrames] : dir ∈ spaceFrames machine dir)
  have dir_marked : (pmmUnmarkAll machine.pmm (userFrames machine dir 768 0)).Marked dir :=
    (marked_pmmUnmarkAll _ _ _).mpr
      ⟨fun member => nodup.2.2 dir member dir (by simp) rfl, placed.2.2⟩
  have dir_freed := pmmFree_frame dir_marked
    (by rw [totalFrames_pmmUnmarkAll]; exact placed.2.1)
    (by rw [totalFrames_pmmUnmarkAll]; exact tables.total_lt)
  rw [archVmSpaceDestroy, freed]
  simp only [dir_freed]
  rw [spaceFrames, pmmUnmarkAll, pmmUnmarkAll, List.foldl_append]
  rfl

private theorem dirs_nodup : (dir :: kernelDir :: (before ++ after)).Nodup := by
  refine List.Perm.nodup ?_ tables.nodup
  exact (List.perm_middle.cons kernelDir).trans (List.Perm.swap _ _ _)

private theorem kernelDir_ne : kernelDir ≠ dir := by
  rintro rfl
  exact (List.nodup_cons.mp (dirs_nodup tables)).1 (List.mem_cons_self ..)

private theorem mem_others_iff {other : ℕ} :
    other ∈ before ++ after ↔ other ∈ before ++ dir :: after ∧ other ≠ dir := by
  have nodup := (List.nodup_cons.mp (dirs_nodup tables)).1
  simp only [List.mem_append, List.mem_cons, not_or] at nodup ⊢
  constructor
  · rintro (member | member)
    · exact ⟨Or.inl member, fun same => nodup.2.1 (same ▸ member)⟩
    · exact ⟨Or.inr (Or.inr member), fun same => nodup.2.2 (same ▸ member)⟩
  · rintro ⟨member | same | member, distinct⟩
    · exact Or.inl member
    · exact absurd same distinct
    · exact Or.inr member

/-- The other spaces own the slots that the space does not. -/
theorem owned_others_iff (slot : TableSlot) : Owned kernelDir (before ++ after) machine slot ↔
    Owned kernelDir (before ++ dir :: after) machine slot ∧
      ¬ (slot = .directory dir ∨ ∃ index < 768, slot = .table dir index) := by
  have kernel_ne := kernelDir_ne tables
  cases slot with
  | directory other =>
      simp only [Owned, List.mem_cons, mem_others_iff tables, TableSlot.directory.injEq,
        reduceCtorEq, and_false, exists_false, or_false]
      constructor
      · rintro (rfl | ⟨member, distinct⟩)
        · exact ⟨Or.inl rfl, kernel_ne⟩
        · exact ⟨Or.inr member, distinct⟩
      · rintro ⟨rfl | member, distinct⟩
        · exact Or.inl rfl
        · exact Or.inr ⟨member, distinct⟩
  | table other index =>
      simp only [Owned, mem_others_iff tables, reduceCtorEq, false_or, TableSlot.table.injEq,
        not_exists, not_and]
      constructor
      · rintro ⟨present, ⟨⟨member, distinct⟩, user⟩ | ⟨rfl, kernel⟩⟩
        · exact ⟨⟨present, Or.inl ⟨member, user⟩⟩, fun _ _ same => absurd same distinct⟩
        · exact ⟨⟨present, Or.inr ⟨rfl, kernel⟩⟩, fun _ _ same => absurd same kernel_ne⟩
      · rintro ⟨⟨present, ⟨member, user⟩ | ⟨rfl, kernel⟩⟩, remains⟩
        · have distinct : other ≠ dir := fun same => remains index user same rfl
          exact ⟨present, Or.inl ⟨⟨member, distinct⟩, user⟩⟩
        · exact ⟨present, Or.inr ⟨rfl, kernel⟩⟩

/-- Destroying a space keeps the structure of the others. -/
theorem pageTables_destroyed :
    PageTables kernelDir (before ++ after)
        { machine with pmm := pmmUnmarkAll machine.pmm (spaceFrames machine dir) } ∧
      ∀ frame, Residue kernelDir (before ++ after)
          { machine with pmm := pmmUnmarkAll machine.pmm (spaceFrames machine dir) } frame ↔
        Residue kernelDir (before ++ dir :: after) machine frame := by
  have owned_iff (slot : TableSlot) : Owned kernelDir (before ++ after)
      { machine with pmm := pmmUnmarkAll machine.pmm (spaceFrames machine dir) } slot ↔
        Owned kernelDir (before ++ dir :: after) machine slot ∧
          ¬ (slot = .directory dir ∨ ∃ index < 768, slot = .table dir index) :=
    owned_others_iff tables slot
  have frame_eq (slot : TableSlot) : slot.frame
      { machine with pmm := pmmUnmarkAll machine.pmm (spaceFrames machine dir) } =
        slot.frame machine := by
    cases slot <;> rfl
  have spared {slot : TableSlot} (owned : Owned kernelDir (before ++ dir :: after) machine slot)
      (remains : ¬ (slot = .directory dir ∨ ∃ index < 768, slot = .table dir index)) :
      slot.frame machine ∉ spaceFrames machine dir := by
    intro member
    obtain ⟨other, other_owned, same, kind⟩ := (mem_spaceFrames_iff tables).mp member
    exact remains (tables.injective other slot other_owned owned same ▸ kind)
  constructor
  · refine ⟨(List.nodup_cons.mp (dirs_nodup tables)).2, ?_, ?_, ?_, ?_, tables.kernelOnly, ?_⟩
    · rw [totalFrames_pmmUnmarkAll]
      exact tables.total_lt
    · intro slot owned
      obtain ⟨was_owned, remains⟩ := (owned_iff slot).mp owned
      obtain ⟨lowmem, below, marked⟩ := tables.placed slot was_owned
      rw [frame_eq, totalFrames_pmmUnmarkAll, marked_pmmUnmarkAll]
      exact ⟨lowmem, below, spared was_owned remains, marked⟩
    · intro left right left_owned right_owned same
      rw [frame_eq, frame_eq] at same
      exact tables.injective left right ((owned_iff left).mp left_owned).1
        ((owned_iff right).mp right_owned).1 same
    · intro other member index index_lt present
      refine tables.small other ?_ index index_lt present
      rw [List.mem_cons, mem_others_iff tables] at member
      exact List.mem_cons.mpr (member.imp id And.left)
    · intro other member index kernel index_lt
      exact tables.shared other ((mem_others_iff tables).mp member).1 index kernel index_lt
  · intro frame
    simp only [Residue, marked_pmmUnmarkAll, frame_eq]
    constructor
    · rintro ⟨⟨not_freed, marked⟩, unowned⟩
      refine ⟨marked, fun slot owned same => ?_⟩
      by_cases kind : slot = .directory dir ∨ ∃ index < 768, slot = .table dir index
      · exact not_freed ((mem_spaceFrames_iff tables).mpr ⟨slot, owned, same, kind⟩)
      · exact unowned slot ((owned_iff slot).mpr ⟨owned, kind⟩) same
    · rintro ⟨marked, unowned⟩
      refine ⟨⟨fun member => ?_, marked⟩, fun slot owned => ?_⟩
      · obtain ⟨slot, owned, same, _⟩ := (mem_spaceFrames_iff tables).mp member
        exact unowned slot owned same
      · exact unowned slot ((owned_iff slot).mp owned).1

end Destroy

end ItWorksOS
