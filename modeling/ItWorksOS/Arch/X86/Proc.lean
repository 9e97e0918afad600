import ItWorksOS.Arch.X86.Nesting
import ItWorksOS.Process.StackFrame

/-!
# Starting a process: `proc.c`

`arch_process_start` returns from an interrupt that never happened, through the frame that
`arch_process_stack_prepare` left at the top of the kernel stack of the process. From then on every
interrupt of the process starts at that top again.
-/

namespace ItWorksOS

/-- `arch_process_start`. -/
def archProcessStart (tables : X86Tables) (proc : Process) (cpu : Cpu) : Option Cpu :=
  let stackTop := UInt32.ofNat (Word32.add proc.kstack.base proc.kstack.size)
  Cpu.iretd { cpu with
    esp := UInt32.ofNat proc.kstack.stackPointer
    mem := x86TssSetKernelStack tables.tss.toNat stackTop cpu.mem }

/-- The processor when a process starts. -/
def startedCpu (tables : X86Tables) (entry top : ℕ) (cpu : Cpu) : Cpu :=
  { cpu with
    esp := UInt32.ofNat userStackTop
    ds := 0
    es := 0
    fs := 0
    gs := 0
    ss := x86GdtSelectorUserData
    cs := x86GdtSelectorUserCode
    eip := UInt32.ofNat entry
    eflags := eflagsIf ||| 2
    mem := x86TssSetKernelStack tables.tss.toNat (UInt32.ofNat top) cpu.mem }

section Start

variable {tables : X86Tables} {cpu : Cpu} {entry top : ℕ}

theorem x86TssSetKernelStack_of_outside {tss target : ℕ} {esp0 : UInt32} {memory : ByteMemory}
    (outside : target < tss + 4 ∨ tss + 8 ≤ target) :
    x86TssSetKernelStack tss esp0 memory target = memory target :=
  ByteMemory.store_of_outside outside

theorem x86TssSetKernelStack_esp0 (tss : ℕ) (esp0 : UInt32) (memory : ByteMemory) :
    (x86TssSetKernelStack tss esp0 memory).read32 (tss + 4) = esp0.toNat := by
  have read := holds_le32_iff.mp (holds_store memory (tss + 4) (le32 esp0))
  rw [← readLe32_toNat, x86TssSetKernelStack, read]

/-- A new stack for ring 0 keeps the tables. -/
theorem stored_setKernelStack {memory : ByteMemory} (stored : tables.Stored memory)
    (esp0 : UInt32) : tables.Stored (x86TssSetKernelStack tables.tss.toNat esp0 memory) :=
  stored.congr fun target _ free => (x86TssSetKernelStack_of_outside (by omega)).symm

/-- The frame is popped in ring 0, and the segments of the kernel are not left to the process. -/
theorem iretd_start (context : X86Context tables cpu) (ring : cpu.cs = x86GdtSelectorKernCode)
    (data : ∀ selector ∈ [cpu.ds, cpu.es, cpu.fs, cpu.gs], selector = x86GdtSelectorKernData)
    (nested : (cpu.eflags &&& eflagsNt) = 0) (inside : cpu.esp.toNat + 20 < 2 ^ 32)
    (words : cpu.mem.WordsAt cpu.esp.toNat (startWords entry).reverse) :
    cpu.iretd = some { cpu with
      esp := UInt32.ofNat userStackTop
      ds := 0
      es := 0
      fs := 0
      gs := 0
      ss := x86GdtSelectorUserData
      cs := x86GdtSelectorUserCode
      eip := UInt32.ofNat entry
      eflags := eflagsIf ||| 2 } := by
  simp only [startWords, List.reverse_cons, List.reverse_nil, List.nil_append, List.cons_append,
    ByteMemory.wordsAt_cons, Nat.add_assoc, Nat.reduceAdd] at words
  obtain ⟨eip, cs, eflags, esp, ss, -⟩ := words
  have word (count : UInt32) (small : count.toNat < 20) :
      (cpu.drop count).top = UInt32.ofNat (cpu.mem.read32 (cpu.esp.toNat + count.toNat)) :=
    cpu.top_drop rfl (by omega)
  have popEip : cpu.top = UInt32.ofNat entry := by rw [Cpu.top, eip]
  have popCs : (cpu.drop 4).top.toUInt16 = x86GdtSelectorUserCode := by
    rw [word 4 (by decide), show (4 : UInt32).toNat = 4 from rfl, cs]
    decide
  have popEflags : (cpu.drop (4 + 4)).top = eflagsIf ||| 2 := by
    rw [word _ (by decide), show (4 + 4 : UInt32).toNat = 8 from rfl, eflags]
    decide
  have popEsp : (cpu.drop (4 + 4 + 4)).top = UInt32.ofNat userStackTop := by
    rw [word _ (by decide), show (4 + 4 + 4 : UInt32).toNat = 12 from rfl, esp]
  have popSs : (cpu.drop (4 + 4 + 4 + 4)).top.toUInt16 = x86GdtSelectorUserData := by
    rw [word _ (by decide), show (4 + 4 + 4 + 4 : UInt32).toNat = 16 from rfl, ss]
    decide
  have segmented := context.installed.segmented
  have returns := codeReturns_user segmented ring
  have dropped : tables.Segmented (cpu.drop (4 + 4 + 4)) :=
    ⟨segmented.gdtr, segmented.segments⟩
  have stack := stackLoads_user dropped
  have three : x86GdtSelectorUserCode.toNat % 4 = 3 := by decide
  have level : ¬x86GdtSelectorUserCode.toNat % 4 = cpu.cpl := by
    rw [Cpu.cpl, ring]
    decide
  have flags : ¬((cpu.eflags &&& eflagsNt) ≠ 0 ∨ ((eflagsIf ||| 2) &&& eflagsVm) ≠ 0) := by
    rintro (set | set)
    · exact set nested
    · exact set (by decide)
  have hidden (selector : UInt16) (member : selector ∈ [cpu.ds, cpu.es, cpu.fs, cpu.gs]) :
      (cpu.drop (4 + 4 + 4)).outerSegment 3 selector = 0 := by
    rw [data selector member, Cpu.outerSegment, dropped.kernData]
    decide
  simp only [List.forall_mem_cons] at hidden
  obtain ⟨ds, es, fs, gs, -⟩ := hidden
  rw [Cpu.iretd]
  simp only [Cpu.drop_drop, popEip, popCs, popEflags]
  rw [if_neg flags, if_pos returns, if_neg level, Cpu.returnOuter]
  simp only [Cpu.drop_drop, popEsp, popSs, three, stack, if_true, Option.some_inj]
  exact Cpu.ext rfl rfl rfl rfl rfl rfl rfl rfl ds es fs gs rfl rfl rfl rfl rfl rfl rfl rfl

/-- The processor is in the kernel, with its data segments. -/
structure KernelData (tables : X86Tables) (cpu : Cpu) : Prop where
  context : X86Context tables cpu
  code : cpu.cs = x86GdtSelectorKernCode
  data : ∀ selector ∈ [cpu.ds, cpu.es, cpu.fs, cpu.gs], selector = x86GdtSelectorKernData
  nested : (cpu.eflags &&& eflagsNt) = 0

/-- The process starts in ring 3, at its entry and on its own stack. -/
theorem archProcessStart_eq {proc : Process} (kernel : KernelData tables cpu)
    (size : Word32.add proc.kstack.base proc.kstack.size = top)
    (pointer : proc.kstack.stackPointer + 20 = top) (bounded : top < 2 ^ 32)
    (apart : ∀ target, top - 20 ≤ target → target < top → ¬tables.Covers target)
    (words : cpu.mem.WordsAt (top - 20) (startWords proc.entry).reverse) :
    archProcessStart tables proc cpu = some (startedCpu tables proc.entry top cpu) := by
  have pointer_eq : proc.kstack.stackPointer = top - 20 := by omega
  have low : (UInt32.ofNat (top - 20)).toNat = top - 20 := by
    rw [UInt32.toNat_ofNat']
    omega
  have context : X86Context tables { cpu with
      esp := UInt32.ofNat (top - 20)
      mem := x86TssSetKernelStack tables.tss.toNat (UInt32.ofNat top) cpu.mem } := by
    have stores := kernel.context.withMem
      (x86TssSetKernelStack tables.tss.toNat (UInt32.ofNat top) cpu.mem)
      fun target fixed => x86TssSetKernelStack_of_outside (by
        have free := fixed.2
        omega)
    have installed := stores.installed
    exact ⟨⟨installed.gdtr, installed.idtr, installed.tr, installed.stored⟩, stores.level,
      stores.segments, stores.vm⟩
  have agree : cpu.mem.AgreeBetween
      (x86TssSetKernelStack tables.tss.toNat (UInt32.ofNat top) cpu.mem) (top - 20) top := by
    intro target lower upper
    have free := apart target lower upper
    refine (x86TssSetKernelStack_of_outside ?_).symm
    by_contra inside
    exact free (Or.inr (Or.inr ⟨by omega, by omega⟩))
  have stored := words.congr agree (by
    have length : (startWords proc.entry).reverse.length = 5 := rfl
    omega)
  have run := iretd_start context kernel.code kernel.data kernel.nested
    (by rw [low]; omega) (by rw [low]; exact stored)
  rw [archProcessStart, size, pointer_eq, run]
  rfl

/-- A program of ring 3, whose interrupts are taken on a stack with a given top. -/
structure UserState (tables : X86Tables) (top : ℕ) (cpu : Cpu) : Prop where
  context : X86Context tables cpu
  ring : cpu.cpl = 3
  top : trapTop tables cpu = top

/-- A process that just started is such a program. -/
theorem startedCpu_user (context : X86Context tables cpu) (bounded : top < 2 ^ 32) :
    UserState tables top (startedCpu tables entry top cpu) where
  context :=
    ⟨⟨context.installed.gdtr, context.installed.idtr, context.installed.tr,
      stored_setKernelStack context.installed.stored _⟩, Or.inr ⟨rfl, rfl⟩,
      fun selector member => Or.inl (by simpa [startedCpu] using member),
      show ((eflagsIf ||| 2) &&& eflagsVm) = 0 by decide⟩
  ring := by
    change x86GdtSelectorUserCode.toNat % 4 = 3
    decide
  top := by
    have outer : ¬(startedCpu tables entry top cpu).cpl = 0 := by
      change ¬x86GdtSelectorUserCode.toNat % 4 = 0
      decide
    rw [trapTop, if_neg outer, startedCpu, x86TssSetKernelStack_esp0, UInt32.toNat_ofNat']
    omega

end Start

/-- Code of ring 3 goes from one state to another: it stays in ring 3, and cannot store to what is
kept in the kernel half. -/
structure UserStep (tables : X86Tables) (kept : Set ℕ) (top : ℕ) (before after : Cpu) : Prop where
  state : UserState tables top after
  kept : ∀ target ∈ kept, after.mem target = before.mem target

/-- A program of ring 3 with interrupts at any point. -/
inductive UserRun (tables : X86Tables) (isr : IsrCode) (kept : Set ℕ) (floor top : ℕ) :
    Cpu → Cpu → Prop
  | done (cpu : Cpu) : UserRun tables isr kept floor top cpu cpu
  | code {cpu next last : Cpu} (step : UserStep tables kept top cpu next)
      (rest : UserRun tables isr kept floor top next last) :
      UserRun tables isr kept floor top cpu last
  | interrupt {cpu entered returned resumed last : Cpu} {event : X86Event}
      (reaches : event.Reaches cpu.cpl) (taken : trapEnter isr cpu event = some entered)
      (handler : KernelRun tables isr floor
        (kept ∪ {target | trapFrame tables cpu ≤ target ∧ target < top})
        (trapFrame tables cpu) entered returned)
      (back : returned.esp = entered.esp + 4)
      (leave : x86IsrCommonLeave returned = some resumed)
      (rest : UserRun tables isr kept floor top resumed last) :
      UserRun tables isr kept floor top cpu last

section Run

variable {tables : X86Tables} {isr : IsrCode} {kept : Set ℕ} {floor top : ℕ} {cpu last : Cpu}
  {event : X86Event}

theorem UserState.takes (state : UserState tables top cpu) (reaches : event.Reaches cpu.cpl)
    (room : floor + 84 ≤ top) : Takes tables floor top cpu event :=
  ⟨state.context, reaches, state.top ▸ room, state.top.le⟩

/-- The stack for interrupts stays the one of the process. -/
theorem UserState.withMem (state : UserState tables top cpu) {mem : ByteMemory}
    (context : X86Context tables { cpu with mem := mem })
    (task : ∀ target, tables.tss.toNat + 4 ≤ target → target < tables.tss.toNat + 8 →
      mem target = cpu.mem target) : UserState tables top { cpu with mem := mem } where
  context := context
  ring := state.ring
  top := by
    have inner : ¬cpu.cpl = 0 := by
      rw [state.ring]
      decide
    have before : cpu.mem.read32 (tables.tss.toNat + 4) = top := by
      rw [← state.top, trapTop, if_neg inner]
    have same : mem.read32 (tables.tss.toNat + 4) = cpu.mem.read32 (tables.tss.toNat + 4) :=
      ByteMemory.read32_congr fun target lower upper => task target lower (by omega)
    have outer : ¬Cpu.cpl { cpu with mem := mem } = 0 := inner
    rw [trapTop, if_neg outer, same, before]

/-- Every state of a run is one of the process, with the tables as they were. -/
theorem UserRun.sound (run : UserRun tables isr kept floor top cpu last)
    (guards : tables.Guards kept floor top)
    (task : ∀ target, tables.tss.toNat + 4 ≤ target → target < tables.tss.toNat + 8 →
      target ∈ kept)
    (room : floor + 84 ≤ top) (state : UserState tables top cpu) :
    UserState tables top last ∧ ∀ target ∈ kept, last.mem target = cpu.mem target := by
  induction run with
  | done cpu => exact ⟨state, fun _ _ => rfl⟩
  | code step rest induction =>
      obtain ⟨final, stores⟩ := induction step.state
      exact ⟨final, fun target member => (stores target member).trans (step.kept target member)⟩
  | @interrupt cpu entered returned resumed last event reaches taken handler back leave rest
      induction =>
      have takes : Takes tables floor top cpu event := state.takes reaches room
      obtain rfl : trapState tables isr cpu event = entered :=
        Option.some_inj.mp ((takes.enter guards).symm.trans taken)
      obtain ⟨handled, stores⟩ :=
        handler.sound (takes.handlerGuards guards) (takes.handlerState guards)
      obtain ⟨resumes, context, same⟩ := takes.resumes guards handled stores back
      obtain rfl : { cpu with mem := returned.mem } = resumed :=
        Option.some_inj.mp (resumes.symm.trans leave)
      have next : UserState tables top { cpu with mem := returned.mem } :=
        state.withMem context fun target lower upper =>
          same target (Or.inl (task target lower upper))
      obtain ⟨final, later⟩ := induction next
      exact ⟨final, fun target member =>
        (later target member).trans (same target (Or.inl member))⟩

end Run

section Process

variable {Heap : Type*} {tables : X86Tables} {kernelDir pos : ℕ} {dirs : List ℕ}
  {kernel : Kernel Heap} {bm : Bitmap}

/-- Addresses of the tables, which the stack of the process does not overlap. -/
theorem guards_covers (pos_lt : pos < kernelStackMax)
    (apart : ∀ target, tables.Covers target →
      target < kstackSlot pos ∨ kstackSlot pos + 16384 ≤ target) :
    tables.Guards {target | tables.Covers target} (kstackSlot pos) (kstackSlot pos + 16384) where
  fixed target fixed := fixed.1
  apart target lower upper := by
    have uncovered : ¬tables.Covers target := by
      intro covered
      have outside := apart target covered
      omega
    exact ⟨uncovered, uncovered⟩
  bounded := by
    obtain ⟨-, -, upper⟩ := kstackSlot_bounds pos_lt
    omega

/-- What `arch_process_stack_prepare` stores on the kernel stack of a process makes
`arch_process_start` enter ring 3 at the entry of its program, on its user stack and with interrupts
enabled; and in every state that the process reaches, with any interrupts on the way, the next one
is taken at the top of that kernel stack and leaves the process as it was. -/
theorem process_runs (tables : X86Tables) (isr : IsrCode) (proc : Process)
    (slots : KstackSlots kernelDir dirs kernel bm) (pos_lt : pos < kernelStackMax)
    (set : bitmapTest bm pos = true) (base : proc.kstack.base = kstackSlot pos)
    (size : proc.kstack.size = 16384) (entry_lt : proc.entry < 2 ^ 32)
    (apart : ∀ target, tables.Covers target →
      target < kstackSlot pos ∨ kstackSlot pos + 16384 ≤ target) :
    ∃ proc' kernel', archProcessStackPrepare proc kernel = (.ok (), proc', kernel') ∧
      ∀ cpu, KernelData tables cpu →
        (kernelView kernel').AgreeBetween cpu.mem (kstackSlot pos) (kstackSlot pos + 16384) →
        ∃ started, archProcessStart tables proc' cpu = some started ∧ started.cpl = 3 ∧
          started.eip = UInt32.ofNat proc.entry ∧ started.esp = UInt32.ofNat userStackTop ∧
          started.eflags = (eflagsIf ||| 2) ∧
          ∀ last, UserRun tables isr {target | tables.Covers target} (kstackSlot pos)
              (kstackSlot pos + 16384) started last →
            ∀ event, event.Reaches 3 →
              ∃ entered, trapEnter isr last event = some entered ∧
                entered.esp.toNat = kstackSlot pos + 16384 - 84 ∧
                X86InterruptFrame.read entered.mem (kstackSlot pos + 16384 - 76) =
                  savedFrame tables last event ∧
                ∀ returned, KernelRun tables isr (kstackSlot pos)
                    ({target | tables.Covers target} ∪
                      {target | kstackSlot pos + 16384 - 76 ≤ target ∧
                        target < kstackSlot pos + 16384})
                    (kstackSlot pos + 16384 - 76) entered returned →
                  returned.esp = entered.esp + 4 →
                  x86IsrCommonLeave returned = some { last with mem := returned.mem } := by
  obtain ⟨-, -, upper⟩ := kstackSlot_bounds pos_lt
  obtain ⟨kernel', prepared, -, view⟩ := archProcessStackPrepare_view slots pos_lt set base size
  refine ⟨_, kernel', prepared, fun cpu data mapped => ?_⟩
  have guards := guards_covers pos_lt apart
  have small : ∀ word ∈ startWords proc.entry, word < 2 ^ 32 := by
    simp only [startWords, List.forall_mem_cons, List.not_mem_nil, false_implies, implies_true,
      and_true]
    exact ⟨by decide, by decide, by decide, by decide, entry_lt⟩
  have length : (startWords proc.entry).length = 5 := rfl
  have room : 4 * (startWords proc.entry).length ≤ kstackSlot pos + 16384 := by omega
  have words := ByteMemory.wordsAt_pushWords (kernelView kernel) (startWords proc.entry) room small
  rw [length] at words
  have stored := words.congr ((view.trans mapped).mono (by omega) le_rfl)
    (by rw [List.length_reverse, length]; omega)
  have spared (target : ℕ) (lower : kstackSlot pos + 16384 - 20 ≤ target)
      (below : target < kstackSlot pos + 16384) : ¬tables.Covers target :=
    (guards.apart target (by omega) below).2
  have start : archProcessStart tables { proc with kstack :=
      { proc.kstack with stackPointer := kstackSlot pos + 16364 } } cpu =
        some (startedCpu tables proc.entry (kstackSlot pos + 16384) cpu) :=
    archProcessStart_eq data (by rw [base, size, Word32.add_of_lt (by omega)]) rfl (by omega)
      spared stored
  have first : UserState tables (kstackSlot pos + 16384)
      (startedCpu tables proc.entry (kstackSlot pos + 16384) cpu) :=
    startedCpu_user data.context (by omega)
  refine ⟨_, start, first.ring, rfl, rfl, rfl, fun last run event reaches => ?_⟩
  obtain ⟨state, -⟩ := run.sound guards
    (fun target lower below => Or.inr (Or.inr ⟨by omega, by omega⟩)) (by omega) first
  have takes : Takes tables (kstackSlot pos) (kstackSlot pos + 16384) last event :=
    state.takes (state.ring ▸ reaches) (by omega)
  have outer : last.cpl ≠ 0 := by
    rw [state.ring]
    decide
  have frame : trapFrame tables last = kstackSlot pos + 16384 - 76 := by
    have full := (trapFrame_add takes).2.2.2 outer
    rw [state.top] at full
    omega
  have entry_esp : (trapState tables isr last event).esp.toNat =
      kstackSlot pos + 16384 - 84 := by
    change (UInt32.ofNat (trapFrame tables last - 8)).toNat = _
    rw [UInt32.toNat_ofNat', frame]
    omega
  have read := (trapState_frame isr event state.context (by rw [state.top]; omega)).2
  rw [frame] at read
  refine ⟨trapState tables isr last event, takes.enter guards, entry_esp, read,
    fun returned handler back => ?_⟩
  rw [← frame] at handler
  obtain ⟨handled, stores⟩ :=
    handler.sound (takes.handlerGuards guards) (takes.handlerState guards)
  exact (takes.resumes guards handled stores back).1

end Process

/-- The kernel after `arch_init`, with a stack as some kernel sees it. -/
def stackCpu {Heap : Type*} (kernel : Kernel Heap) (base : ℕ) : Cpu :=
  { archReady lowTables bootCpu with
    mem := fun target =>
      if base ≤ target then kernelView kernel target
      else (archReady lowTables bootCpu).mem target }

theorem stackCpu_data {Heap : Type*} (kernel : Kernel Heap) {base : ℕ} (above : 0x4000 ≤ base) :
    KernelData lowTables (stackCpu kernel base) := by
  have gdt : lowTables.gdt.toNat = 0x1000 := rfl
  have idt : lowTables.idt.toNat = 0x2000 := rfl
  have tss : lowTables.tss.toNat = 0x3000 := rfl
  have context : X86Context lowTables (stackCpu kernel base) := by
    apply (archReady_context lowTables (by decide)).withMem
    rintro target ⟨⟨-, below⟩ | ⟨-, below⟩ | ⟨-, below⟩, -⟩ <;> exact if_neg (by omega)
  exact ⟨context, rfl, fun selector member => by simpa [stackCpu, archReady] using member,
    show ((archReady lowTables bootCpu).eflags &&& eflagsNt) = 0 by decide⟩

theorem process_runs_small : ∃ (kernel : Kernel ℕ) (proc : Process),
    proc.entry = 0x400000 ∧ ∃ proc' kernel', archProcessStackPrepare proc kernel =
      (.ok (), proc', kernel') ∧
      ∃ started, archProcessStart lowTables proc' (stackCpu kernel' proc.kstack.base) =
        some started ∧ started.cpl = 3 ∧ started.eip = 0x400000 ∧
        ∃ entered, trapEnter { handler := 0x200000, next := 0x200100 } started (.external 0x20) =
          some entered := by
  obtain ⟨kernel, run, booted, steps, live⟩ := smallKernel_kstack
  have total_lt : smallKernel.machine.pmm.totalFrames < 2 ^ 32 := by decide
  obtain ⟨kernelDir, tables, -, unmapped⟩ := vmKernInit_eq_ok total_lt booted
  obtain ⟨dirs, inv⟩ := (kstackBoot_inv tables unmapped).steps steps
  obtain ⟨pos, pos_lt, base, size, set, -⟩ := inv.slot live
  obtain ⟨-, low, -⟩ := kstackSlot_bounds pos_lt
  let proc : Process :=
    { state := .created, vm := { arch := ⟨0⟩, vmas := [] }, kstack := run.descriptors 0,
      entry := 0x400000 }
  have apart (target : ℕ) (covered : lowTables.Covers target) :
      target < kstackSlot pos ∨ kstackSlot pos + 16384 ≤ target := by
    have gdt : lowTables.gdt.toNat = 0x1000 := rfl
    have idt : lowTables.idt.toNat = 0x2000 := rfl
    have tss : lowTables.tss.toNat = 0x3000 := rfl
    obtain ⟨-, below⟩ | ⟨-, below⟩ | ⟨-, below⟩ := covered <;> omega
  obtain ⟨proc', kernel', prepared, starts⟩ :=
    process_runs lowTables { handler := 0x200000, next := 0x200100 } proc inv.slots pos_lt set base
      size (show 0x400000 < 2 ^ 32 by decide) apart
  have view : (kernelView kernel').AgreeBetween (stackCpu kernel' proc.kstack.base).mem
      (kstackSlot pos) (kstackSlot pos + 16384) := by
    intro target lower upper
    exact (if_pos (base ▸ lower)).symm
  obtain ⟨started, start, ring, eip, -, -, runs⟩ := starts (stackCpu kernel' proc.kstack.base)
    (stackCpu_data kernel' (base ▸ by omega)) view
  obtain ⟨entered, enter, -⟩ := runs started (UserRun.done started) (.external 0x20)
    (show 32 ≤ (0x20 : UInt8).toNat by decide)
  exact ⟨_, proc, rfl, proc', kernel', prepared, started, start, ring, eip, entered, enter⟩

end ItWorksOS
