import ItWorksOS.Arch.X86.IsrReturn

/-!
# Interrupts inside interrupts

A handler runs below its frame, and may be interrupted at any point, and so may the handler of that
interrupt. However deep this goes, the program that was interrupted first continues with the
registers and the stack it had: each level leaves everything above its own window as it was.
-/

namespace ItWorksOS

namespace X86Tables

/-- An address holds a table, apart from the stack pointer of ring 0 in the task state segment. -/
def Fixed (tables : X86Tables) (target : ℕ) : Prop :=
  tables.Covers target ∧ ¬(tables.tss.toNat + 4 ≤ target ∧ target < tables.tss.toNat + 8)

/-- A window of the kernel stack, and addresses outside it that nothing running there stores to. -/
structure Guards (tables : X86Tables) (kept : Set ℕ) (floor limit : ℕ) : Prop where
  fixed : ∀ target, tables.Fixed target → target ∈ kept
  apart : ∀ target, floor ≤ target → target < limit → target ∉ kept ∧ ¬tables.Covers target
  bounded : limit + 8 < 2 ^ 32

end X86Tables

/-- The kernel runs in a window of its stack. -/
structure KernelState (tables : X86Tables) (floor limit : ℕ) (cpu : Cpu) : Prop where
  context : X86Context tables cpu
  code : cpu.cs = x86GdtSelectorKernCode
  nested : (cpu.eflags &&& eflagsNt) = 0
  floor : floor ≤ cpu.esp.toNat
  limit : cpu.esp.toNat ≤ limit

/-- Code of the kernel goes from one state to another: it stays in its window, and stores to nothing
that is kept. -/
structure KernelStep (tables : X86Tables) (kept : Set ℕ) (floor limit : ℕ) (before after : Cpu) :
    Prop where
  state : KernelState tables floor limit after
  kept : ∀ target ∈ kept, after.mem target = before.mem target

/-- Code of the kernel with interrupts at any point: each one is entered through its stub, its
handler runs below the frame until it returns, and `x86_isr_common` continues. -/
inductive KernelRun (tables : X86Tables) (isr : IsrCode) (floor : ℕ) :
    Set ℕ → ℕ → Cpu → Cpu → Prop
  | done (kept : Set ℕ) (limit : ℕ) (cpu : Cpu) : KernelRun tables isr floor kept limit cpu cpu
  | code {kept : Set ℕ} {limit : ℕ} {cpu next last : Cpu}
      (step : KernelStep tables kept floor limit cpu next)
      (rest : KernelRun tables isr floor kept limit next last) :
      KernelRun tables isr floor kept limit cpu last
  | interrupt {kept : Set ℕ} {limit : ℕ} {cpu entered returned resumed last : Cpu}
      {event : X86Event} (reaches : event.Reaches cpu.cpl) (room : floor + 84 ≤ cpu.esp.toNat)
      (taken : trapEnter isr cpu event = some entered)
      (handler : KernelRun tables isr floor
        (kept ∪ {target | trapFrame tables cpu ≤ target ∧ target < limit})
        (trapFrame tables cpu) entered returned)
      (back : returned.esp = entered.esp + 4)
      (leave : x86IsrCommonLeave returned = some resumed)
      (rest : KernelRun tables isr floor kept limit resumed last) :
      KernelRun tables isr floor kept limit cpu last

section Selectors

variable {tables : X86Tables} {left right : Cpu} {selector : UInt16}

/-- A selector names the same segment as long as the table is kept. -/
theorem descriptor_congr (installed : tables.Installed left) (gdtr : right.gdtr = left.gdtr)
    (mem : ∀ target, tables.Fixed target → right.mem target = left.mem target) :
    right.descriptor selector = left.descriptor selector := by
  have table := installed.gdtr
  have limit : (47 : UInt16).toNat = 47 := rfl
  have gdtTss := tables.gdtTss
  rw [Cpu.descriptor, Cpu.descriptor, gdtr, table, limit]
  by_cases inside : 47 < selector.toNat / 8 * 8 + 7
  · simp only [if_pos inside]
  · have byte (offset : ℕ) (small : offset < 8) :
        right.mem (tables.gdt.toNat + selector.toNat / 8 * 8 + offset) =
          left.mem (tables.gdt.toNat + selector.toNat / 8 * 8 + offset) :=
      mem _ ⟨Or.inl ⟨by omega, by omega⟩, by omega⟩
    have same : Descriptor.decode right.mem (tables.gdt.toNat + selector.toNat / 8 * 8) =
        Descriptor.decode left.mem (tables.gdt.toNat + selector.toNat / 8 * 8) := by
      have first := byte 0 (by decide)
      rw [Nat.add_zero] at first
      simp only [Descriptor.decode, first, byte 1 (by decide), byte 2 (by decide),
        byte 3 (by decide), byte 4 (by decide), byte 5 (by decide), byte 6 (by decide),
        byte 7 (by decide)]
    rw [same]

/-- What loads at some privilege level loads in ring 0. -/
theorem dataLoads_ring0 (same : right.descriptor selector = left.descriptor selector)
    (ring : right.cpl = 0) (loads : left.dataLoads selector = true) :
    right.dataLoads selector = true := by
  unfold Cpu.dataLoads at loads ⊢
  rw [same, ring]
  cases found : left.descriptor selector with
  | none => simpa [found] using loads
  | some descriptor =>
      simp only [found, Bool.or_eq_true, Bool.and_eq_true, decide_eq_true_eq] at loads ⊢
      obtain null | ⟨usable, conforming | ⟨level, requested⟩⟩ := loads
      · exact Or.inl null
      · exact Or.inr ⟨usable, Or.inl conforming⟩
      · exact Or.inr ⟨usable, Or.inr ⟨Nat.zero_le _, requested⟩⟩

/-- A selector of a program of ring 3 survives the return to it. -/
theorem outerSegment_eq (same : right.descriptor selector = left.descriptor selector)
    (ring : left.cpl = 3)
    (usable : selector = 0 ∨ 4 ≤ selector.toNat ∧ left.dataLoads selector = true) :
    right.outerSegment 3 selector = selector := by
  unfold Cpu.outerSegment
  rw [same]
  obtain rfl | ⟨nonnull, loads⟩ := usable
  · have null : left.descriptor 0 = none := if_pos (by decide)
    rw [null]
  · unfold Cpu.dataLoads at loads
    rw [ring] at loads
    cases found : left.descriptor selector with
    | none =>
        simp only [found, Bool.or_false, decide_eq_true_eq] at loads
        omega
    | some descriptor =>
        simp only [found, Bool.or_eq_true, Bool.and_eq_true, decide_eq_true_eq] at loads
        obtain null | ⟨-, ⟨executable, conforming⟩ | ⟨level, -⟩⟩ := loads
        · omega
        · simp [executable, conforming]
        · simp only
          rw [if_neg (by omega : ¬descriptor.dpl < 3)]
          split <;> rfl

end Selectors

section Nesting

variable {tables : X86Tables} {isr : IsrCode} {kept : Set ℕ} {floor limit : ℕ}
  {cpu returned : Cpu} {event : X86Event}

/-- An event is taken in the window: the stack has room, and its top is inside. -/
structure Takes (tables : X86Tables) (floor limit : ℕ) (cpu : Cpu) (event : X86Event) : Prop where
  context : X86Context tables cpu
  reaches : event.Reaches cpu.cpl
  room : floor + 84 ≤ trapTop tables cpu
  inside : trapTop tables cpu ≤ limit

theorem Takes.enter (takes : Takes tables floor limit cpu event)
    (guards : tables.Guards kept floor limit) :
    trapEnter isr cpu event = some (trapState tables isr cpu event) := by
  have room := takes.room
  have inside := takes.inside
  exact trapEnter_eq isr takes.context takes.reaches (by omega) fun target lower upper =>
    (guards.apart target (by omega) (by omega)).2

/-- Entry stores only in the window, below the old top of the stack. -/
theorem trapState_mem (takes : Takes tables floor limit cpu event) {target : ℕ}
    (outside : target < floor ∨ trapTop tables cpu ≤ target) :
    (trapState tables isr cpu event).mem target = cpu.mem target := by
  have room := takes.room
  have few := outerWords_length cpu
  have length := trapWords_length tables cpu event
  apply ByteMemory.pushWords_of_outside
  · simp only [List.length_map, List.length_append, length, List.length_cons, List.length_nil]
    omega
  · simp only [List.length_map, List.length_append, length, List.length_cons, List.length_nil]
    omega

theorem X86Tables.Guards.outside (guards : tables.Guards kept floor limit) {target : ℕ}
    (member : target ∈ kept) : target < floor ∨ limit ≤ target := by
  by_contra inside
  rw [not_or, not_lt, not_le] at inside
  exact (guards.apart target inside.1 inside.2).1 member

theorem gate_clears (tables : X86Tables) (cpu : Cpu) (vector : UInt8) {flag : UInt32}
    (listed : ~~~ eflagsGateMask &&& flag = 0) :
    ((cpu.enter (tables.gate vector) 0).eflags &&& flag) = 0 := by
  have masked : (cpu.eflags &&& ~~~ eflagsGateMask) &&& flag = 0 := by
    rw [UInt32.and_assoc, listed, UInt32.and_zero]
  unfold Cpu.enter
  dsimp only
  split
  · calc (cpu.eflags &&& ~~~ eflagsGateMask &&& ~~~ eflagsIf) &&& flag
        = (cpu.eflags &&& ~~~ eflagsGateMask &&& flag) &&& ~~~ eflagsIf := by ac_rfl
      _ = 0 := by rw [masked, UInt32.zero_and]
  · exact masked

theorem trapFrame_add (takes : Takes tables floor limit cpu event) :
    floor + 8 ≤ trapFrame tables cpu ∧ trapFrame tables cpu + 68 ≤ trapTop tables cpu ∧
      (cpu.cpl = 0 → trapFrame tables cpu + 68 = trapTop tables cpu) ∧
      (cpu.cpl ≠ 0 → trapFrame tables cpu + 76 = trapTop tables cpu) := by
  have room := takes.room
  unfold trapFrame outerWords
  by_cases ring : cpu.cpl = 0
  · rw [if_pos ring]
    simp only [List.length_nil]
    omega
  · rw [if_neg ring]
    simp only [List.length_cons, List.length_nil]
    omega

/-- The handler starts in the window below the frame. -/
theorem Takes.handlerState (takes : Takes tables floor limit cpu event)
    (guards : tables.Guards kept floor limit) :
    KernelState tables floor (trapFrame tables cpu) (trapState tables isr cpu event) := by
  have frame := trapFrame_add takes
  have inside := takes.inside
  have bounded := guards.bounded
  have mem (target : ℕ) (fixed : tables.Fixed target) :
      (trapState tables isr cpu event).mem target = cpu.mem target := by
    apply trapState_mem takes
    have outside := guards.outside (guards.fixed target fixed)
    omega
  have installed : tables.Installed (trapState tables isr cpu event) :=
    ⟨takes.context.installed.gdtr, takes.context.installed.idtr, takes.context.installed.tr,
      takes.context.installed.stored.congr fun target covered free =>
        (mem target ⟨covered, free⟩).symm⟩
  have esp : (trapState tables isr cpu event).esp.toNat = trapFrame tables cpu - 8 := by
    change (UInt32.ofNat (trapFrame tables cpu - 8)).toNat = _
    rw [UInt32.toNat_ofNat']
    omega
  refine ⟨⟨installed, Or.inl ⟨rfl, rfl⟩, ?_, ?_⟩, rfl, ?_, ?_, ?_⟩
  · intro selector member
    have kernel : selector = x86GdtSelectorKernData := by
      simpa [trapState] using member
    subst kernel
    have ring : (trapState tables isr cpu event).cpl = 0 := by
      change x86GdtSelectorKernCode.toNat % 4 = 0
      decide
    exact Or.inr ⟨by decide, installed.segmented.dataLoads ring⟩
  · exact gate_clears tables cpu event.vector (by decide)
  · exact gate_clears tables cpu event.vector (by decide)
  · rw [esp]
    omega
  · rw [esp]
    omega

/-- Below the frame, the frame and the rest of the window are guarded as well. -/
theorem Takes.handlerGuards (takes : Takes tables floor limit cpu event)
    (guards : tables.Guards kept floor limit) :
    tables.Guards (kept ∪ {target | trapFrame tables cpu ≤ target ∧ target < limit}) floor
      (trapFrame tables cpu) where
  fixed target fixed := Or.inl (guards.fixed target fixed)
  apart target lower upper := by
    have frame := trapFrame_add takes
    have inside := takes.inside
    obtain ⟨free, uncovered⟩ := guards.apart target lower (by omega)
    refine ⟨?_, uncovered⟩
    rintro (member | ⟨above, -⟩)
    · exact free member
    · omega
  bounded := by
    have frame := trapFrame_add takes
    have inside := takes.inside
    have bounded := guards.bounded
    omega

/-- The parts of a frame that were pushed at every privilege level. -/
def X86InterruptFrame.inner (frame : X86InterruptFrame) : X86InterruptFrame :=
  { frame with userEsp := 0, userSs := 0 }

theorem read_inner {left right : ByteMemory} {base : ℕ}
    (agree : left.AgreeBetween right base (base + 68)) :
    (X86InterruptFrame.read left base).inner = (X86InterruptFrame.read right base).inner := by
  have word (offset : ℕ) (small : offset + 4 ≤ 68) :
      left.read32 (base + offset) = right.read32 (base + offset) :=
    ByteMemory.read32_congr fun target lower upper => agree target (by omega) (by omega)
  simp only [X86InterruptFrame.read, X86InterruptFrame.inner, word 0 (by decide),
    word 4 (by decide), word 8 (by decide), word 12 (by decide), word 16 (by decide),
    word 20 (by decide), word 24 (by decide), word 28 (by decide), word 32 (by decide),
    word 36 (by decide), word 40 (by decide), word 44 (by decide), word 48 (by decide),
    word 52 (by decide), word 56 (by decide), word 60 (by decide), word 64 (by decide)]

theorem read_outer {left right : ByteMemory} {base : ℕ}
    (agree : left.AgreeBetween right base (base + 76)) :
    X86InterruptFrame.read left base = X86InterruptFrame.read right base := by
  have inner := read_inner (agree.mono le_rfl (by omega : base + 68 ≤ base + 76))
  have word (offset : ℕ) (small : offset + 4 ≤ 76) :
      left.read32 (base + offset) = right.read32 (base + offset) :=
    ByteMemory.read32_congr fun target lower upper => agree target (by omega) (by omega)
  have userEsp : (X86InterruptFrame.read left base).userEsp =
      (X86InterruptFrame.read right base).userEsp := congrArg UInt32.ofNat (word 68 (by decide))
  have userSs : (X86InterruptFrame.read left base).userSs =
      (X86InterruptFrame.read right base).userSs := congrArg UInt32.ofNat (word 72 (by decide))
  calc X86InterruptFrame.read left base
      = { (X86InterruptFrame.read left base).inner with
          userEsp := (X86InterruptFrame.read left base).userEsp
          userSs := (X86InterruptFrame.read left base).userSs } := rfl
    _ = { (X86InterruptFrame.read right base).inner with
          userEsp := (X86InterruptFrame.read right base).userEsp
          userSs := (X86InterruptFrame.read right base).userSs } := by rw [inner, userEsp, userSs]
    _ = X86InterruptFrame.read right base := rfl

/-- What the handler has to leave for its interrupt to be resumed. -/
structure Returns (tables : X86Tables) (isr : IsrCode) (floor limit : ℕ) (cpu : Cpu)
    (event : X86Event) (returned : Cpu) : Prop where
  state : KernelState tables floor (trapFrame tables cpu) returned
  fixed : ∀ target, tables.Fixed target → returned.mem target = cpu.mem target
  frame : ∀ target, trapFrame tables cpu ≤ target → target < limit →
    returned.mem target = (trapState tables isr cpu event).mem target
  back : returned.esp = (trapState tables isr cpu event).esp + 4

theorem Returns.esp (takes : Takes tables floor limit cpu event)
    (returns : Returns tables isr floor limit cpu event returned) (bounded : limit + 8 < 2 ^ 32) :
    returned.esp.toNat = trapFrame tables cpu - 4 := by
  have frame := trapFrame_add takes
  have inside := takes.inside
  have low : (UInt32.ofNat (trapFrame tables cpu - 8)).toNat = trapFrame tables cpu - 8 := by
    rw [UInt32.toNat_ofNat']
    omega
  have four : (4 : UInt32).toNat = 4 := rfl
  rw [returns.back, UInt32.toNat_add]
  change ((UInt32.ofNat (trapFrame tables cpu - 8)).toNat + _) % 2 ^ 32 = _
  rw [low, four]
  omega

/-- The frame in memory still holds the interrupted registers. -/
theorem Returns.read (takes : Takes tables floor limit cpu event)
    (returns : Returns tables isr floor limit cpu event returned) :
    (X86InterruptFrame.read returned.mem (trapFrame tables cpu)).inner =
      (savedFrame tables cpu event).inner := by
  have frame := trapFrame_add takes
  have inside := takes.inside
  have room := takes.room
  have start := (trapState_frame isr event takes.context (by omega)).2
  rw [← start]
  exact read_inner fun target lower upper => returns.frame target lower (by omega)

theorem Returns.descriptor (takes : Takes tables floor limit cpu event)
    (returns : Returns tables isr floor limit cpu event returned) (selector : UInt16) :
    returned.descriptor selector = cpu.descriptor selector :=
  descriptor_congr takes.context.installed
    (returns.state.context.installed.gdtr.trans takes.context.installed.gdtr.symm) returns.fixed

theorem Returns.cpl (returns : Returns tables isr floor limit cpu event returned) :
    returned.cpl = 0 := by
  rw [Cpu.cpl, returns.state.code]
  decide

theorem Returns.returnable (takes : Takes tables floor limit cpu event)
    (returns : Returns tables isr floor limit cpu event returned) :
    Returnable returned (savedFrame tables cpu event) where
  loads selector member := by
    have own : selector ∈ [cpu.ds, cpu.es, cpu.fs, cpu.gs] := by
      simpa [X86InterruptFrame.selectors, savedFrame] using member
    obtain rfl | ⟨-, loads⟩ := takes.context.segments selector own
    · simp [Cpu.dataLoads]
    · exact dataLoads_ring0 (returns.descriptor takes selector) returns.cpl loads
  nested := returns.state.nested
  vm := takes.context.vm

/-- The selectors and flags of a frame are in its inner part. -/
theorem Returnable.congr {left right : X86InterruptFrame} (returnable : Returnable cpu left)
    (same : right.inner = left.inner) : Returnable cpu right where
  loads selector member := by
    have selectors : right.inner.selectors = left.inner.selectors := by rw [same]
    have member : selector ∈ right.inner.selectors := member
    rw [selectors] at member
    exact returnable.loads selector member
  nested := returnable.nested
  vm := by
    have flags : right.inner.eflags = left.inner.eflags := by rw [same]
    calc (right.eflags &&& eflagsVm) = right.inner.eflags &&& eflagsVm := rfl
      _ = left.eflags &&& eflagsVm := by rw [flags]; rfl
      _ = 0 := returnable.vm

/-- The registers that are restored are those that were saved. -/
theorem restore_eq (event : X86Event) {other : Cpu} {frame : X86InterruptFrame}
    (same : frame.inner = (savedFrame tables cpu event).inner) :
    frame.restore other =
      { other with
        eax := cpu.eax, ecx := cpu.ecx, edx := cpu.edx, ebx := cpu.ebx
        ebp := cpu.ebp, esi := cpu.esi, edi := cpu.edi
        ds := cpu.ds, es := cpu.es, fs := cpu.fs, gs := cpu.gs } := by
  calc frame.restore other = frame.inner.restore other := rfl
    _ = (savedFrame tables cpu event).inner.restore other := by rw [same]
    _ = _ := by
      simp only [X86InterruptFrame.restore, X86InterruptFrame.inner, savedFrame,
        UInt16.toUInt16_toUInt32]

/-- An interrupted program continues with its registers, on its stack. -/
theorem Returns.resume (takes : Takes tables floor limit cpu event)
    (returns : Returns tables isr floor limit cpu event returned) (bounded : limit + 8 < 2 ^ 32) :
    x86IsrCommonLeave returned = some { cpu with mem := returned.mem } := by
  obtain ⟨low, below, kernelTop, userTop⟩ := trapFrame_add takes
  have inside := takes.inside
  have esp := returns.esp takes bounded
  have installed := returns.state.context.installed
  have four : (4 : UInt32).toNat = 4 := rfl
  have argument : (returned.drop 4).esp.toNat = trapFrame tables cpu := by
    change (returned.esp + 4).toNat = _
    rw [UInt32.toNat_add, esp, four]
    omega
  have gdtr := installed.gdtr.trans takes.context.installed.gdtr.symm
  have idtr := installed.idtr.trans takes.context.installed.idtr.symm
  have tr := installed.tr.trans takes.context.installed.tr.symm
  have same := returns.read takes
  obtain ring | ring := takes.context.cpl
  · obtain ⟨cs, ss⟩ := takes.context.kernel ring
    have code : (X86InterruptFrame.read returned.mem (trapFrame tables cpu)).cs =
        cpu.cs.toUInt32 := congrArg X86InterruptFrame.cs same
    have eip : (X86InterruptFrame.read returned.mem (trapFrame tables cpu)).eip = cpu.eip :=
      congrArg X86InterruptFrame.eip same
    have eflags : (X86InterruptFrame.read returned.mem (trapFrame tables cpu)).eflags =
        cpu.eflags := congrArg X86InterruptFrame.eflags same
    have stack : returned.esp + 72 = cpu.esp := by
      have top : trapTop tables cpu = cpu.esp.toNat := if_pos ring
      have size : (72 : UInt32).toNat = 72 := rfl
      apply UInt32.toNat_inj.mp
      rw [UInt32.toNat_add, esp, size]
      have full := kernelTop ring
      omega
    have kernel : returned.ss = x86GdtSelectorKernData :=
      (returns.state.context.kernel returns.cpl).2
    rw [leave_kernel installed returns.state.code argument (by omega) rfl
      ((returns.returnable takes).congr same) (by rw [code, UInt16.toUInt16_toUInt32, cs]),
      restore_eq event same, Option.some_inj]
    exact Cpu.ext rfl rfl rfl rfl stack rfl rfl rfl rfl rfl rfl rfl (kernel.trans ss.symm) cs.symm
      eip eflags gdtr idtr tr rfl
  · have outer : cpu.cpl ≠ 0 := by omega
    have full := userTop outer
    obtain ⟨cs, ss⟩ := takes.context.user ring
    have whole : X86InterruptFrame.read returned.mem (trapFrame tables cpu) =
        savedFrame tables cpu event := by
      have room := takes.room
      rw [← (trapState_frame isr event takes.context (by omega)).2]
      exact read_outer fun target lower upper => returns.frame target lower (by omega)
    have esp : (savedFrame tables cpu event).userEsp = cpu.esp := if_neg outer
    have stack : (savedFrame tables cpu event).userSs.toUInt16 = x86GdtSelectorUserData := by
      rw [← ss, ← UInt16.toUInt16_toUInt32 cpu.ss]
      exact congrArg UInt32.toUInt16 (if_neg outer)
    have code : (savedFrame tables cpu event).cs.toUInt16 = x86GdtSelectorUserCode := by
      rw [← cs, ← UInt16.toUInt16_toUInt32 cpu.cs]
      rfl
    have selectors (selector : UInt16)
        (member : selector ∈ (savedFrame tables cpu event).selectors) :
        returned.outerSegment 3 selector = selector := by
      have own : selector ∈ [cpu.ds, cpu.es, cpu.fs, cpu.gs] := by
        simpa [X86InterruptFrame.selectors, savedFrame] using member
      exact outerSegment_eq (returns.descriptor takes selector) ring
        (takes.context.segments selector own)
    rw [leave_user installed returns.state.code argument (by omega) whole
      (returns.returnable takes) code stack selectors, restore_eq event rfl,
      Option.some_inj]
    exact Cpu.ext rfl rfl rfl rfl esp rfl rfl rfl rfl rfl rfl rfl ss.symm cs.symm rfl rfl gdtr idtr
      tr rfl

/-- Stores that spare the tables keep a context. -/
theorem X86Context.withMem (context : X86Context tables cpu) (mem : ByteMemory)
    (same : ∀ target, tables.Fixed target → mem target = cpu.mem target) :
    X86Context tables { cpu with mem := mem } where
  installed := ⟨context.installed.gdtr, context.installed.idtr, context.installed.tr,
    context.installed.stored.congr fun target covered free => (same target ⟨covered, free⟩).symm⟩
  level := context.level
  segments selector member := by
    obtain null | ⟨nonnull, loads⟩ := context.segments selector member
    · exact Or.inl null
    · have found : Cpu.descriptor { cpu with mem := mem } selector = cpu.descriptor selector :=
        descriptor_congr context.installed rfl same
      refine Or.inr ⟨nonnull, ?_⟩
      rw [← loads, Cpu.dataLoads, Cpu.dataLoads, found]
      rfl
  vm := context.vm

/-- One interrupt, when its handler kept to its window: the program is where it was, and nothing
that is kept has changed. -/
theorem Takes.resumes (takes : Takes tables floor limit cpu event)
    (guards : tables.Guards kept floor limit)
    (state : KernelState tables floor (trapFrame tables cpu) returned)
    (stores : ∀ target ∈ kept ∪ {target | trapFrame tables cpu ≤ target ∧ target < limit},
      returned.mem target = (trapState tables isr cpu event).mem target)
    (back : returned.esp = (trapState tables isr cpu event).esp + 4) :
    x86IsrCommonLeave returned = some { cpu with mem := returned.mem } ∧
      X86Context tables { cpu with mem := returned.mem } ∧
      ∀ target ∈ kept ∪ {target | trapTop tables cpu ≤ target ∧ target < limit},
        returned.mem target = cpu.mem target := by
  have inside := takes.inside
  have frame := trapFrame_add takes
  have same (target : ℕ) (member : target ∈ kept) : returned.mem target = cpu.mem target := by
    have outside := guards.outside member
    rw [stores target (Or.inl member), trapState_mem takes (by omega)]
  have fixed (target : ℕ) (fixed : tables.Fixed target) : returned.mem target = cpu.mem target :=
    same target (guards.fixed target fixed)
  have returns : Returns tables isr floor limit cpu event returned :=
    ⟨state, fixed, fun target lower upper => stores target (Or.inr ⟨lower, upper⟩), back⟩
  refine ⟨returns.resume takes guards.bounded, takes.context.withMem _ fixed, ?_⟩
  rintro target (member | ⟨above, below⟩)
  · exact same target member
  · have live : trapFrame tables cpu ≤ target := by omega
    rw [stores target (Or.inr ⟨live, below⟩), trapState_mem takes (Or.inr above)]

/-- Interrupts at any point of a run, nested to any depth, keep the window: what the code above it
relies on is unchanged. -/
theorem KernelRun.sound {last : Cpu} (run : KernelRun tables isr floor kept limit cpu last)
    (guards : tables.Guards kept floor limit) (state : KernelState tables floor limit cpu) :
    KernelState tables floor limit last ∧ ∀ target ∈ kept, last.mem target = cpu.mem target := by
  induction run with
  | done kept limit cpu => exact ⟨state, fun _ _ => rfl⟩
  | code step rest induction =>
      obtain ⟨final, stores⟩ := induction guards step.state
      exact ⟨final, fun target member => (stores target member).trans (step.kept target member)⟩
  | @interrupt kept limit cpu entered returned resumed last event reaches room taken handler back
      leave rest handlerInduction restInduction =>
      have ring : cpu.cpl = 0 := by
        rw [Cpu.cpl, state.code]
        decide
      have top : trapTop tables cpu = cpu.esp.toNat := if_pos ring
      have takes : Takes tables floor limit cpu event :=
        ⟨state.context, reaches, top ▸ room, top ▸ state.limit⟩
      obtain rfl : trapState tables isr cpu event = entered :=
        Option.some_inj.mp ((takes.enter guards).symm.trans taken)
      obtain ⟨handled, stores⟩ :=
        handlerInduction (takes.handlerGuards guards) (takes.handlerState guards)
      obtain ⟨resumes, context, same⟩ := takes.resumes guards handled stores back
      obtain rfl : { cpu with mem := returned.mem } = resumed :=
        Option.some_inj.mp (resumes.symm.trans leave)
      obtain ⟨final, later⟩ := restInduction guards
        ⟨context, state.code, state.nested, state.floor, state.limit⟩
      exact ⟨final, fun target member =>
        (later target member).trans (same target (Or.inl member))⟩

/-- The handler is entered with the registers of the program in its frame. -/
theorem Takes.trapState_frame (takes : Takes tables floor limit cpu event)
    (guards : tables.Guards kept floor limit) (isr : IsrCode) :
    trapEnter isr cpu event = some (trapState tables isr cpu event) ∧
      X86InterruptFrame.read (trapState tables isr cpu event).mem
          ((trapState tables isr cpu event).mem.read32
            ((trapState tables isr cpu event).esp.toNat + 4)) = savedFrame tables cpu event := by
  have frame := trapFrame_add takes
  have room := takes.room
  have inside := takes.inside
  have bounded := guards.bounded
  have esp : (trapState tables isr cpu event).esp.toNat = trapFrame tables cpu - 8 := by
    change (UInt32.ofNat (trapFrame tables cpu - 8)).toNat = _
    rw [UInt32.toNat_ofNat']
    omega
  obtain ⟨argument, read⟩ :=
    ItWorksOS.trapState_frame isr event takes.context (by omega)
  exact ⟨takes.enter guards, by rw [esp, argument, read]⟩

/-- Whatever the program, the event and the interrupts that its handler takes in turn, the program
continues with all its registers, on an unchanged stack. -/
theorem interrupt_transparent (isr : IsrCode) (takes : Takes tables floor limit cpu event)
    (guards : tables.Guards kept floor limit) :
    ∃ entered, trapEnter isr cpu event = some entered ∧
      X86InterruptFrame.read entered.mem (entered.mem.read32 (entered.esp.toNat + 4)) =
        savedFrame tables cpu event ∧
      ∀ returned, KernelRun tables isr floor
          (kept ∪ {target | trapFrame tables cpu ≤ target ∧ target < limit})
          (trapFrame tables cpu) entered returned →
        returned.esp = entered.esp + 4 →
          x86IsrCommonLeave returned = some { cpu with mem := returned.mem } ∧
          ∀ target ∈ kept ∪ {target | trapTop tables cpu ≤ target ∧ target < limit},
            returned.mem target = cpu.mem target := by
  obtain ⟨enter, frame⟩ := takes.trapState_frame guards isr
  refine ⟨trapState tables isr cpu event, enter, frame, fun returned run back => ?_⟩
  obtain ⟨handled, stores⟩ := run.sound (takes.handlerGuards guards) (takes.handlerState guards)
  obtain ⟨resumes, -, same⟩ := takes.resumes guards handled stores back
  exact ⟨resumes, same⟩

/-- After `arch_init` the kernel is a program that can be interrupted. -/
theorem archReady_context (tables : X86Tables) (vm : (cpu.eflags &&& eflagsVm) = 0) :
    X86Context tables (archReady tables cpu) := by
  have installed : tables.Installed (archReady tables cpu) :=
    ⟨rfl, rfl, rfl, archReady_mem tables cpu ▸ stored_archMemory tables cpu.mem⟩
  have ring : (archReady tables cpu).cpl = 0 := by
    change x86GdtSelectorKernCode.toNat % 4 = 0
    decide
  refine ⟨installed, Or.inl ⟨rfl, rfl⟩, ?_, ?_⟩
  · intro selector member
    have kernel : selector = x86GdtSelectorKernData := by
      simpa [archReady] using member
    subst kernel
    exact Or.inr ⟨by decide, installed.segmented.dataLoads ring⟩
  · calc (cpu.eflags &&& ~~~ eflagsIf &&& ~~~ 0x400) &&& eflagsVm
        = (cpu.eflags &&& eflagsVm) &&& ~~~ eflagsIf &&& ~~~ 0x400 := by ac_rfl
      _ = 0 := by rw [vm, UInt32.zero_and, UInt32.zero_and]

end Nesting

theorem lowTables_guards {floor limit : ℕ} (above : 0x4000 ≤ floor) (bounded : limit + 8 < 2 ^ 32) :
    lowTables.Guards {target | lowTables.Covers target} floor limit where
  fixed target fixed := fixed.1
  apart target lower upper := by
    have gdt : lowTables.gdt.toNat = 0x1000 := rfl
    have idt : lowTables.idt.toNat = 0x2000 := rfl
    have tss : lowTables.tss.toNat = 0x3000 := rfl
    have uncovered : ¬lowTables.Covers target := by
      rintro (⟨-, below⟩ | ⟨-, below⟩ | ⟨-, below⟩) <;> omega
    exact ⟨uncovered, uncovered⟩
  bounded := bounded

theorem boot_takes :
    Takes lowTables 0x8000 0x9000 (archReady lowTables bootCpu) (.external 0x21) where
  context := archReady_context lowTables (by decide)
  reaches := show 32 ≤ (0x21 : UInt8).toNat by decide
  room := by
    have top : trapTop lowTables (archReady lowTables bootCpu) = 0x9000 := if_pos rfl
    rw [top]
    decide
  inside := by
    have top : trapTop lowTables (archReady lowTables bootCpu) = 0x9000 := if_pos rfl
    exact top.le

theorem interrupt_transparent_boot :
    ∃ entered, trapEnter { handler := 0x200000, next := 0x200100 }
        (archReady lowTables bootCpu) (.external 0x21) = some entered ∧
      X86InterruptFrame.read entered.mem (entered.mem.read32 (entered.esp.toNat + 4)) =
        savedFrame lowTables (archReady lowTables bootCpu) (.external 0x21) := by
  obtain ⟨entered, enter, frame, -⟩ := interrupt_transparent
    { handler := 0x200000, next := 0x200100 } boot_takes
    (lowTables_guards (by decide) (by decide))
  exact ⟨entered, enter, frame⟩

end ItWorksOS
