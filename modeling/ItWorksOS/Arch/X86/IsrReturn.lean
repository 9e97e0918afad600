import ItWorksOS.Arch.X86.Isr

/-!
# Leaving an interrupt

What `x86_isr_common` does after the call depends on the frame alone: every register the interrupted
program can observe is loaded from it, whatever the handler left in the processor.
-/

namespace ItWorksOS

namespace X86InterruptFrame

/-- The registers that a frame is restored to, on the stack of the frame. -/
def restore (frame : X86InterruptFrame) (cpu : Cpu) : Cpu :=
  { cpu with
    eax := frame.eax
    ecx := frame.ecx
    edx := frame.edx
    ebx := frame.ebx
    ebp := frame.ebp
    esi := frame.esi
    edi := frame.edi
    ds := frame.ds.toUInt16
    es := frame.es.toUInt16
    fs := frame.fs.toUInt16
    gs := frame.gs.toUInt16 }

/-- The data segment selectors of a frame. -/
def selectors (frame : X86InterruptFrame) : List UInt16 :=
  [frame.ds.toUInt16, frame.es.toUInt16, frame.fs.toUInt16, frame.gs.toUInt16]

end X86InterruptFrame

section Leave

variable {tables : X86Tables} {cpu : Cpu} {frame : X86InterruptFrame} {base : ℕ}

/-- A word above the stack pointer. -/
theorem Cpu.top_drop (cpu : Cpu) {count : UInt32} (esp : cpu.esp.toNat = base)
    (inside : base + count.toNat < 2 ^ 32) :
    (cpu.drop count).top = UInt32.ofNat (cpu.mem.read32 (base + count.toNat)) := by
  rw [Cpu.top, Cpu.drop, UInt32.toNat_add, esp, Nat.mod_eq_of_lt inside]

theorem Cpu.drop_drop (cpu : Cpu) (first second : UInt32) :
    (cpu.drop first).drop second = cpu.drop (first + second) := by
  simp only [Cpu.drop, UInt32.add_assoc]

/-- The saved registers are popped, the stack pointer of `pushad` is skipped, and so are the vector
and the error code. -/
theorem popRegisters (esp : cpu.esp.toNat = base) (inside : base + 76 < 2 ^ 32)
    (read : X86InterruptFrame.read cpu.mem base = frame)
    (loads : ∀ selector ∈ frame.selectors, cpu.dataLoads selector = true) :
    (popSegments cpu).map (fun cpu => cpu.popad.drop 8) = some ((frame.restore cpu).drop 56) := by
  subst read
  have word (count : UInt32) (small : count.toNat < 76) :
      (cpu.drop count).top = UInt32.ofNat (cpu.mem.read32 (base + count.toNat)) :=
    cpu.top_drop esp (by omega)
  have gs : cpu.top = (X86InterruptFrame.read cpu.mem base).gs := by
    rw [Cpu.top, esp]
    rfl
  have fs : (cpu.drop 4).top = (X86InterruptFrame.read cpu.mem base).fs := word 4 (by decide)
  have es : (cpu.drop 8).top = (X86InterruptFrame.read cpu.mem base).es := word 8 (by decide)
  have ds : (cpu.drop 12).top = (X86InterruptFrame.read cpu.mem base).ds := word 12 (by decide)
  have later (first second : UInt32) (small : (first + second).toNat < 76) :
      ((cpu.drop first).drop second).top =
        UInt32.ofNat (cpu.mem.read32 (base + (first + second).toNat)) := by
    rw [Cpu.drop_drop, word _ small]
  have popped : popSegments cpu = some { cpu.drop 16 with
      ds := (X86InterruptFrame.read cpu.mem base).ds.toUInt16
      es := (X86InterruptFrame.read cpu.mem base).es.toUInt16
      fs := (X86InterruptFrame.read cpu.mem base).fs.toUInt16
      gs := (X86InterruptFrame.read cpu.mem base).gs.toUInt16 } := by
    simp only [X86InterruptFrame.selectors, List.forall_mem_cons] at loads
    obtain ⟨loadDs, loadEs, loadFs, loadGs, -⟩ := loads
    rw [popSegments]
    simp only [gs, fs, es, ds, loadDs, loadEs, loadFs, loadGs, Bool.and_self, if_true]
  rw [popped, Option.map_some, Option.some_inj]
  refine Cpu.ext (later 16 28 (by decide)) (later 16 24 (by decide)) (later 16 20 (by decide))
    (later 16 16 (by decide)) ?_ (later 16 8 (by decide)) (later 16 4 (by decide))
    (word 16 (by decide)) rfl rfl rfl rfl rfl rfl rfl rfl rfl rfl rfl rfl
  change cpu.esp + 16 + 32 + 8 = cpu.esp + 56
  rw [UInt32.add_assoc, UInt32.add_assoc]
  rfl

/-- What the last instruction of `x86_isr_common` finds. -/
structure Returnable (cpu : Cpu) (frame : X86InterruptFrame) : Prop where
  loads : ∀ selector ∈ frame.selectors, cpu.dataLoads selector = true
  nested : (cpu.eflags &&& eflagsNt) = 0
  vm : (frame.eflags &&& eflagsVm) = 0

theorem leave_eq (esp : (cpu.drop 4).esp.toNat = base) (inside : base + 76 < 2 ^ 32)
    (read : X86InterruptFrame.read cpu.mem base = frame)
    (loads : ∀ selector ∈ frame.selectors, cpu.dataLoads selector = true) :
    x86IsrCommonLeave cpu = ((frame.restore (cpu.drop 4)).drop 56).iretd := by
  obtain ⟨popped, segments, registers⟩ := Option.map_eq_some_iff.mp
    (popRegisters esp inside read loads)
  rw [x86IsrCommonLeave, segments, ← registers]

/-- Return addresses and flags above the saved registers. -/
theorem restore_words (esp : (cpu.drop 4).esp.toNat = base) (inside : base + 76 < 2 ^ 32)
    (read : X86InterruptFrame.read cpu.mem base = frame) :
    let last := (frame.restore (cpu.drop 4)).drop 56
    last.top = frame.eip ∧ (last.drop 4).top = frame.cs ∧
      ((last.drop 4).drop 4).top = frame.eflags ∧
      (((last.drop 4).drop 4).drop 4).top = frame.userEsp ∧
      ((((last.drop 4).drop 4).drop 4).drop 4).top = frame.userSs := by
  have word (count : UInt32) (small : count.toNat < 76) :
      (((frame.restore (cpu.drop 4)).drop count)).top =
        UInt32.ofNat (cpu.mem.read32 (base + count.toNat)) :=
    (frame.restore (cpu.drop 4)).top_drop esp (by omega)
  subst read
  simp only [Cpu.drop_drop]
  exact ⟨word 56 (by decide), word 60 (by decide), word 64 (by decide), word 68 (by decide),
    word 72 (by decide)⟩

theorem codeReturns_kernel (segmented : tables.Segmented cpu)
    (ring : cpu.cs = x86GdtSelectorKernCode) :
    cpu.codeReturns x86GdtSelectorKernCode = true := by
  rw [Cpu.codeReturns, segmented.kernCode, Cpu.cpl, ring]
  decide

theorem codeReturns_user (segmented : tables.Segmented cpu)
    (ring : cpu.cs = x86GdtSelectorKernCode) :
    cpu.codeReturns x86GdtSelectorUserCode = true := by
  rw [Cpu.codeReturns, segmented.userCode, Cpu.cpl, ring]
  decide

theorem stackLoads_user (segmented : tables.Segmented cpu) :
    cpu.stackLoads 3 x86GdtSelectorUserData = true := by
  rw [Cpu.stackLoads, segmented.userData]
  decide

/-- Leaving with a frame of the kernel. -/
theorem leave_kernel (installed : tables.Installed cpu) (ring : cpu.cs = x86GdtSelectorKernCode)
    (esp : (cpu.drop 4).esp.toNat = base) (inside : base + 76 < 2 ^ 32)
    (read : X86InterruptFrame.read cpu.mem base = frame) (returnable : Returnable cpu frame)
    (code : frame.cs.toUInt16 = x86GdtSelectorKernCode) :
    x86IsrCommonLeave cpu =
      some { frame.restore (cpu.drop 72) with
        cs := x86GdtSelectorKernCode, eip := frame.eip, eflags := frame.eflags } := by
  obtain ⟨eip, cs, eflags, -, -⟩ := restore_words esp inside read
  have segmented : tables.Segmented ((frame.restore (cpu.drop 4)).drop 56) :=
    ⟨installed.gdtr, installed.stored.segments⟩
  have returns := codeReturns_kernel segmented ring
  have level : x86GdtSelectorKernCode.toNat % 4 = ((frame.restore (cpu.drop 4)).drop 56).cpl := by
    change _ = cpu.cs.toNat % 4
    rw [ring]
  have flags : ¬((((frame.restore (cpu.drop 4)).drop 56).eflags &&& eflagsNt) ≠ 0 ∨
      (frame.eflags &&& eflagsVm) ≠ 0) := by
    rintro (nested | vm)
    · exact nested returnable.nested
    · exact vm returnable.vm
  rw [leave_eq esp inside read returnable.loads, Cpu.iretd]
  simp only [eip, cs, eflags, code]
  rw [if_neg flags, if_pos returns, if_pos level]
  have lifted : (((((frame.restore (cpu.drop 4)).drop 56).drop 4).drop 4).drop 4).esp =
      (frame.restore (cpu.drop 72)).esp := by
    change cpu.esp + 4 + 56 + 4 + 4 + 4 = cpu.esp + 72
    simp only [UInt32.add_assoc]
    rfl
  rw [Option.some_inj]
  exact Cpu.ext rfl rfl rfl rfl lifted rfl rfl rfl rfl rfl rfl rfl rfl rfl rfl rfl rfl rfl rfl rfl

/-- Leaving with a frame of a process. -/
theorem leave_user (installed : tables.Installed cpu) (ring : cpu.cs = x86GdtSelectorKernCode)
    (esp : (cpu.drop 4).esp.toNat = base) (inside : base + 76 < 2 ^ 32)
    (read : X86InterruptFrame.read cpu.mem base = frame) (returnable : Returnable cpu frame)
    (code : frame.cs.toUInt16 = x86GdtSelectorUserCode)
    (stack : frame.userSs.toUInt16 = x86GdtSelectorUserData)
    (kept : ∀ selector ∈ frame.selectors, cpu.outerSegment 3 selector = selector) :
    x86IsrCommonLeave cpu =
      some { frame.restore cpu with
        esp := frame.userEsp, ss := x86GdtSelectorUserData, cs := x86GdtSelectorUserCode
        eip := frame.eip, eflags := frame.eflags } := by
  obtain ⟨eip, cs, eflags, userEsp, userSs⟩ := restore_words esp inside read
  have segmented (other : Cpu) (gdtr : other.gdtr = cpu.gdtr) (mem : other.mem = cpu.mem) :
      tables.Segmented other :=
    ⟨gdtr.trans installed.gdtr, mem ▸ installed.stored.segments⟩
  have returns : ((frame.restore (cpu.drop 4)).drop 56).codeReturns x86GdtSelectorUserCode = true :=
    codeReturns_user (segmented _ rfl rfl) ring
  have loads : (((((frame.restore (cpu.drop 4)).drop 56).drop 4).drop 4).drop 4).stackLoads 3
      x86GdtSelectorUserData = true := stackLoads_user (segmented _ rfl rfl)
  have level : ¬x86GdtSelectorUserCode.toNat % 4 = ((frame.restore (cpu.drop 4)).drop 56).cpl := by
    change ¬_ = cpu.cs.toNat % 4
    rw [ring]
    decide
  have three : x86GdtSelectorUserCode.toNat % 4 = 3 := by decide
  have flags : ¬((((frame.restore (cpu.drop 4)).drop 56).eflags &&& eflagsNt) ≠ 0 ∨
      (frame.eflags &&& eflagsVm) ≠ 0) := by
    rintro (nested | vm)
    · exact nested returnable.nested
    · exact vm returnable.vm
  simp only [X86InterruptFrame.selectors, List.forall_mem_cons] at kept
  obtain ⟨ds, es, fs, gs, -⟩ := kept
  rw [leave_eq esp inside read returnable.loads, Cpu.iretd]
  simp only [eip, cs, eflags, code]
  rw [if_neg flags, if_pos returns, if_neg level, Cpu.returnOuter]
  simp only [userEsp, userSs, stack, three, loads, if_true, Option.some_inj]
  exact Cpu.ext rfl rfl rfl rfl rfl rfl rfl rfl ds es fs gs rfl rfl rfl rfl rfl rfl rfl rfl

end Leave

end ItWorksOS
