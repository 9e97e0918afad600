import ItWorksOS.Foundation.WordStack
import ItWorksOS.Mm.KernelStackRun
import ItWorksOS.Process.Process

/-!
# The first frame on a kernel stack

`arch_process_stack_prepare` stores through the kernel's own mapping of the stack. The stack is seen
as one linear memory: a store to a word of it changes that word in the linear view and nothing else,
because its pages lie in different frames and none of these frames holds a page table.
-/

namespace ItWorksOS

variable {Heap : Type*}

/-- What the kernel reads at its virtual addresses. -/
def kernelView (kernel : Kernel Heap) : ByteMemory := fun va =>
  match vmKernTranslate kernel va with
  | .ok phys => kernel.machine.mem phys
  | .error _ => 0

section Slot

variable {kernelDir pos : ℕ} {dirs : List ℕ} {kernel : Kernel Heap} {bm : Bitmap}

/-- Frame under an offset of a slot. -/
def stackFrame (kernelDir : ℕ) (kernel : Kernel Heap) (pos offset : ℕ) : ℕ :=
  kstackWord kernelDir kernel pos (offset / 4096) / 4096

theorem KstackSlots.translate_offset (slots : KstackSlots kernelDir dirs kernel bm)
    (pos_lt : pos < kernelStackMax) (set : bitmapTest bm pos = true) {offset : ℕ}
    (inside : offset < 16384) :
    vmKernTranslate kernel (kstackSlot pos + offset) =
      .ok (stackFrame kernelDir kernel pos offset * 4096 + offset % 4096) := by
  obtain ⟨aligned, lower, upper⟩ := kstackSlot_bounds pos_lt
  have page : offset / 4096 < kernelStackPages := by
    unfold kernelStackPages
    omega
  have present := (slots.mapped pos pos_lt _ page).mpr set
  have same : pteWord kernel.machine kernelDir (kstackSlot pos + offset) =
      kstackWord kernelDir kernel pos (offset / 4096) := by
    have large : (kstackSlot pos + offset) / 2 ^ 22 =
        (kstackSlot pos + 4096 * (offset / 4096)) / 2 ^ 22 := by omega
    have small : (kstackSlot pos + offset) / 4096 % 1024 =
        (kstackSlot pos + 4096 * (offset / 4096)) / 4096 % 1024 := by omega
    unfold kstackWord pteWord
    rw [large, small]
  have low : (kstackSlot pos + offset) % 4096 = offset % 4096 := by omega
  rw [vmKernTranslate_eq slots.tables (show 0xC0000000 ≤ _ by omega) (by omega), same,
    if_pos present, low, stackFrame]

/-- Different pages of stacks in use lie in different frames. -/
theorem KstackSlots.stackFrame_inj (slots : KstackSlots kernelDir dirs kernel bm)
    (pos_lt : pos < kernelStackMax) (set : bitmapTest bm pos = true) {offset other : ℕ}
    (inside : offset < 16384) (inside' : other < 16384)
    (same : stackFrame kernelDir kernel pos offset = stackFrame kernelDir kernel pos other) :
    offset / 4096 = other / 4096 := by
  unfold stackFrame at same
  have page : offset / 4096 < kernelStackPages := by
    unfold kernelStackPages
    omega
  have page' : other / 4096 < kernelStackPages := by
    unfold kernelStackPages
    omega
  exact (slots.distinct pos pos_lt pos pos_lt _ page _ page' set set same).2

/-- Stores to the frames of a stack keep all stacks mapped as they are. -/
theorem KstackSlots.store (slots : KstackSlots kernelDir dirs kernel bm)
    (pos_lt : pos < kernelStackMax) (set : bitmapTest bm pos = true) {offset : ℕ}
    (inside : offset < 16384) {mem : ByteMemory}
    (outside : ∀ frame, frame ≠ stackFrame kernelDir kernel pos offset →
      ByteMemory.AgreeOn kernel.machine.mem mem frame) :
    KstackSlots kernelDir dirs (kernel.setMem mem) bm ∧
      ∀ pos' < kernelStackMax, ∀ i < kernelStackPages,
        kstackWord kernelDir (kernel.setMem mem) pos' i = kstackWord kernelDir kernel pos' i := by
  have page : offset / 4096 < kernelStackPages := by
    unfold kernelStackPages
    omega
  have free := (slots.placed pos pos_lt set _ page).1
  have spared (slot : TableSlot) (owned : Owned kernelDir dirs kernel.machine slot) :
      ByteMemory.AgreeOn kernel.machine.mem (kernel.setMem mem).machine.mem
        (slot.frame kernel.machine) := outside _ (free.2 slot owned)
  have words (dir : ℕ) (member : dir ∈ kernelDir :: dirs) (index : ℕ) (index_lt : index < 1024) :
      mem.word dir index = kernel.machine.mem.word dir index :=
    (spared (.directory dir) member).word_eq index_lt
  obtain ⟨stored, ready, view⟩ := slots.tables.tables.of_agree spared rfl
    fun slot owned => (slots.tables.tables.placed slot owned).2.2
  have same (pos' : ℕ) (pos_lt' : pos' < kernelStackMax) (i : ℕ) (i_lt : i < kernelStackPages) :
      kstackWord kernelDir (kernel.setMem mem) pos' i = kstackWord kernelDir kernel pos' i :=
    view kernelDir (List.mem_cons_self ..) _ (kstackPage_lt pos_lt' i_lt)
  refine ⟨⟨⟨stored, ready slots.tables.ready, slots.tables.kernelVm_eq⟩, slots.nbits, ?_, ?_, ?_⟩,
    same⟩
  · intro pos' pos_lt' i i_lt
    rw [same pos' pos_lt' i i_lt]
    exact slots.mapped pos' pos_lt' i i_lt
  · intro pos' pos_lt' set' i i_lt
    rw [same pos' pos_lt' i i_lt]
    obtain ⟨residue, below⟩ := slots.placed pos' pos_lt' set' i i_lt
    have kept (frame : ℕ) : Residue kernelDir dirs (kernel.setMem mem).machine frame ↔
        Residue kernelDir dirs kernel.machine frame :=
      PageTables.residue_congr words frame Iff.rfl
    exact ⟨(kept _).mpr residue, below⟩
  · intro left left_lt right right_lt i i_lt i' i_lt' used used' equal
    rw [same left left_lt i i_lt, same right right_lt i' i_lt'] at equal
    exact slots.distinct left left_lt right right_lt i i_lt i' i_lt' used used' equal

/-- A store to an aligned word of a stack, in the linear view of that stack. -/
theorem kernelStore32_view (slots : KstackSlots kernelDir dirs kernel bm)
    (pos_lt : pos < kernelStackMax) (set : bitmapTest bm pos = true) {offset : ℕ} (value : ℕ)
    (inside : offset + 4 ≤ 16384) (aligned : offset % 4 = 0) :
    KstackSlots kernelDir dirs (kernelStore32 kernel (kstackSlot pos + offset) value) bm ∧
      ((kernelView kernel).write32 (kstackSlot pos + offset) value).AgreeBetween
        (kernelView (kernelStore32 kernel (kstackSlot pos + offset) value)) (kstackSlot pos)
        (kstackSlot pos + 16384) := by
  have stored : kernelStore32 kernel (kstackSlot pos + offset) value =
      kernel.setMem (kernel.machine.mem.write32
        (stackFrame kernelDir kernel pos offset * 4096 + offset % 4096) value) := by
    rw [kernelStore32, slots.translate_offset pos_lt set (by omega)]
  have outside (frame : ℕ) (differ : frame ≠ stackFrame kernelDir kernel pos offset) :
      ByteMemory.AgreeOn kernel.machine.mem (kernel.machine.mem.write32
        (stackFrame kernelDir kernel pos offset * 4096 + offset % 4096) value) frame := by
    intro address member
    exact ByteMemory.write32_of_outside (by omega)
  obtain ⟨kept, words⟩ := slots.store pos_lt set (by omega : offset < 16384) outside
  rw [stored]
  refine ⟨kept, ?_⟩
  intro target lower upper
  obtain ⟨other, rfl⟩ := Nat.exists_eq_add_of_le lower
  have other_lt : other < 16384 := by omega
  have page : other / 4096 < kernelStackPages := by
    unfold kernelStackPages
    omega
  have frame_eq : stackFrame kernelDir (kernel.setMem (kernel.machine.mem.write32
      (stackFrame kernelDir kernel pos offset * 4096 + offset % 4096) value)) pos other =
        stackFrame kernelDir kernel pos other := by
    rw [stackFrame, words pos pos_lt _ page, stackFrame]
  have apart := slots.stackFrame_inj pos_lt set (by omega : offset < 16384) other_lt
  have after : kernelView (kernel.setMem (kernel.machine.mem.write32
      (stackFrame kernelDir kernel pos offset * 4096 + offset % 4096) value))
        (kstackSlot pos + other) = (kernel.machine.mem.write32
      (stackFrame kernelDir kernel pos offset * 4096 + offset % 4096) value)
        (stackFrame kernelDir kernel pos other * 4096 + other % 4096) := by
    rw [kernelView, kept.translate_offset pos_lt set other_lt, frame_eq]
    rfl
  have before : kernelView kernel (kstackSlot pos + other) =
      kernel.machine.mem (stackFrame kernelDir kernel pos other * 4096 + other % 4096) := by
    rw [kernelView, slots.translate_offset pos_lt set other_lt]
  rw [after]
  by_cases hit : offset ≤ other ∧ other < offset + 4
  · -- an aligned word does not cross a page
    have page : offset / 4096 = other / 4096 := by omega
    have same : stackFrame kernelDir kernel pos other = stackFrame kernelDir kernel pos offset := by
      unfold stackFrame
      rw [page]
    have distance : kstackSlot pos + other - (kstackSlot pos + offset) =
        stackFrame kernelDir kernel pos offset * 4096 + other % 4096 -
          (stackFrame kernelDir kernel pos offset * 4096 + offset % 4096) := by omega
    rw [ByteMemory.write32, if_pos (by omega), ByteMemory.write32, same, if_pos (by omega),
      distance]
  · rw [ByteMemory.write32_of_outside (by omega), before, ByteMemory.write32_of_outside]
    by_cases same : stackFrame kernelDir kernel pos offset = stackFrame kernelDir kernel pos other
    · have page := apart same
      rw [same]
      omega
    · omega

/-- One store of `arch_process_stack_prepare`. -/
def kernelPush (stack : ℕ × Kernel Heap) (value : ℕ) : ℕ × Kernel Heap :=
  (Word32.sub stack.1 4, kernelStore32 stack.2 (Word32.sub stack.1 4) value)

/-- Words pushed through the mapping of a stack, in its linear view. -/
theorem kernelPush_view (slots : KstackSlots kernelDir dirs kernel bm)
    (pos_lt : pos < kernelStackMax) (set : bitmapTest bm pos = true) {offset : ℕ} {words : List ℕ}
    (room : 4 * words.length ≤ offset) (inside : offset ≤ 16384) (aligned : offset % 4 = 0) :
    let pushed := words.foldl kernelPush (kstackSlot pos + offset, kernel)
    pushed.1 = kstackSlot pos + (offset - 4 * words.length) ∧
      KstackSlots kernelDir dirs pushed.2 bm ∧
      ((kernelView kernel).pushWords (kstackSlot pos + offset) words).AgreeBetween
        (kernelView pushed.2) (kstackSlot pos) (kstackSlot pos + 16384) := by
  induction words generalizing kernel offset with
  | nil => exact ⟨rfl, slots, ByteMemory.AgreeBetween.refl _ _ _⟩
  | cons word words induction =>
      rw [List.length_cons] at room
      obtain ⟨-, -, upper⟩ := kstackSlot_bounds pos_lt
      have lowered : Word32.sub (kstackSlot pos + offset) 4 = kstackSlot pos + (offset - 4) := by
        rw [Word32.sub_of_le (by omega) (by omega)]
        omega
      have target : kstackSlot pos + offset - 4 = kstackSlot pos + (offset - 4) := by omega
      obtain ⟨kept, first⟩ := kernelStore32_view slots pos_lt set word
        (by omega : (offset - 4) + 4 ≤ 16384) (by omega)
      obtain ⟨esp, final, view⟩ := induction kept (by omega : 4 * words.length ≤ offset - 4)
        (by omega) (by omega)
      have step : (word :: words).foldl kernelPush (kstackSlot pos + offset, kernel) =
          words.foldl kernelPush (kstackSlot pos + (offset - 4),
            kernelStore32 kernel (kstackSlot pos + (offset - 4)) word) := by
        rw [List.foldl_cons, kernelPush, lowered]
      rw [step]
      refine ⟨?_, final, ?_⟩
      · rw [esp, List.length_cons]
        omega
      · rw [ByteMemory.pushWords, target]
        exact (first.pushWords _ words).trans view

/-- Words that `arch_process_stack_prepare` stores, the first one at the top. -/
def startWords (entry : ℕ) : List ℕ :=
  [0x20 ||| 3, userStackTop, 2 ^ 9 ||| 2 ^ 1, 0x18 ||| 3, entry]

/-- The frame for the first return to a process lies at the top of its kernel stack, and nothing
else on the stack changes. -/
theorem archProcessStackPrepare_view (slots : KstackSlots kernelDir dirs kernel bm)
    (pos_lt : pos < kernelStackMax) (set : bitmapTest bm pos = true) {proc : Process}
    (base : proc.kstack.base = kstackSlot pos) (size : proc.kstack.size = 16384) :
    ∃ kernel', archProcessStackPrepare proc kernel =
        (.ok (), { proc with kstack :=
          { proc.kstack with stackPointer := kstackSlot pos + 16364 } }, kernel') ∧
      KstackSlots kernelDir dirs kernel' bm ∧
      ((kernelView kernel).pushWords (kstackSlot pos + 16384) (startWords proc.entry)).AgreeBetween
        (kernelView kernel') (kstackSlot pos) (kstackSlot pos + 16384) := by
  obtain ⟨-, -, upper⟩ := kstackSlot_bounds pos_lt
  have top : Word32.add proc.kstack.base proc.kstack.size = kstackSlot pos + 16384 := by
    rw [base, size, Word32.add_of_lt (by omega)]
  have room : 4 * (startWords proc.entry).length ≤ 16384 := by
    simp [startWords]
  have run : archProcessStackPrepare proc kernel =
      (.ok (), { proc with kstack := { proc.kstack with
        stackPointer := ((startWords proc.entry).foldl kernelPush
          (kstackSlot pos + 16384, kernel)).1 } },
        ((startWords proc.entry).foldl kernelPush (kstackSlot pos + 16384, kernel)).2) := by
    rw [archProcessStackPrepare, top]
    rfl
  obtain ⟨esp, kept, view⟩ := kernelPush_view slots pos_lt set room le_rfl (by decide)
  have low : 16384 - 4 * (startWords proc.entry).length = 16364 := rfl
  rw [low] at esp
  rw [esp] at run
  exact ⟨_, run, kept, view⟩

end Slot

end ItWorksOS
