import ItWorksOS.Arch.X86.Idt

/-!
# `arch_init`

The tables of `gdt.c`, `idt.c` and `tss.c` are static data, which the linker places. `arch_init`
fills them and loads the table registers; what the processor later reads through those registers is
the content of the tables, as long as nothing else is stored there.
-/

namespace ItWorksOS

/-- Where the linker placed the tables, and the table of the stubs. -/
structure X86Tables where
  gdt : UInt32
  idt : UInt32
  tss : UInt32
  /-- `x86_isr_stub_table`. -/
  stub : ℕ → UInt32
  gdtInside : gdt.toNat + 48 ≤ 2 ^ 32
  idtInside : idt.toNat + 2048 ≤ 2 ^ 32
  tssInside : tss.toNat + 104 ≤ 2 ^ 32
  gdtIdt : gdt.toNat + 48 ≤ idt.toNat ∨ idt.toNat + 2048 ≤ gdt.toNat
  gdtTss : gdt.toNat + 48 ≤ tss.toNat ∨ tss.toNat + 104 ≤ gdt.toNat
  idtTss : idt.toNat + 2048 ≤ tss.toNat ∨ tss.toNat + 104 ≤ idt.toNat

namespace X86Tables

/-- An address lies in one of the tables. -/
def Covers (tables : X86Tables) (target : ℕ) : Prop :=
  tables.gdt.toNat ≤ target ∧ target < tables.gdt.toNat + 48 ∨
    tables.idt.toNat ≤ target ∧ target < tables.idt.toNat + 2048 ∨
    tables.tss.toNat ≤ target ∧ target < tables.tss.toNat + 104

/-- The tables as the kernel filled them: segments, gates and the stack segment of ring 0. -/
structure Stored (tables : X86Tables) (memory : ByteMemory) : Prop where
  segments : ∀ index e, x86GdtSegments[index]? = some e →
    Holds memory (tables.gdt.toNat + 8 * (index + 1)) e.raw.bytes
  gates : ∀ vector < 256,
    Holds memory (tables.idt.toNat + 8 * vector) (x86IsrGate tables.stub vector).raw.bytes
  ss0 : Holds memory (tables.tss.toNat + 8) (le16 x86GdtSelectorKernData)

/-- The table registers name the tables, and the tables are filled. -/
structure Installed (tables : X86Tables) (cpu : Cpu) : Prop where
  gdtr : cpu.gdtr = { base := tables.gdt, limit := 47 }
  idtr : cpu.idtr = { base := tables.idt, limit := 2047 }
  tr : cpu.tr = tables.tss
  stored : tables.Stored cpu.mem

/-- Stores elsewhere, and a new stack for ring 0, keep the tables. -/
theorem Stored.congr {tables : X86Tables} {left right : ByteMemory} (stored : tables.Stored left)
    (agree : ∀ target, tables.Covers target →
      ¬(tables.tss.toNat + 4 ≤ target ∧ target < tables.tss.toNat + 8) →
        left target = right target) : tables.Stored right where
  segments index e listed := by
    apply (stored.segments index e listed).congr
    intro target lower upper
    have size : e.raw.bytes.length = 8 := rfl
    have inside : index < 4 := (List.getElem?_eq_some_iff.mp listed).1
    have gdtTss := tables.gdtTss
    exact agree target (Or.inl ⟨by omega, by omega⟩) (by omega)
  gates vector inside := by
    apply (stored.gates vector inside).congr
    intro target lower upper
    have size : (x86IsrGate tables.stub vector).raw.bytes.length = 8 := rfl
    have idtTss := tables.idtTss
    exact agree target (Or.inr (Or.inl ⟨by omega, by omega⟩)) (by omega)
  ss0 := by
    apply stored.ss0.congr
    intro target lower upper
    have size : (le16 x86GdtSelectorKernData).length = 2 := rfl
    exact agree target (Or.inr (Or.inr ⟨by omega, by omega⟩)) (by omega)

end X86Tables

/-! ## What the selectors name -/

/-- The entry a selector of the table names. -/
theorem Cpu.descriptor_eq {cpu : Cpu} {gdt : UInt32} {selector : UInt16} {e : X86GdtEntry}
    (gdtr : cpu.gdtr = { base := gdt, limit := 47 }) (nonnull : 4 ≤ selector.toNat)
    (global : selector.toNat / 4 % 2 = 0) (inside : selector.toNat < 48)
    (held : Holds cpu.mem (gdt.toNat + selector.toNat / 8 * 8) e.raw.bytes) :
    cpu.descriptor selector = some e.descriptor := by
  have limit : (47 : UInt16).toNat = 47 := rfl
  rw [Cpu.descriptor, if_neg (by omega), if_neg (by omega), gdtr, if_neg (by rw [limit]; omega),
    decode_raw held]

namespace X86Tables

variable {tables : X86Tables} {cpu : Cpu}

/-- The segment table is loaded and filled. -/
structure Segmented (tables : X86Tables) (cpu : Cpu) : Prop where
  gdtr : cpu.gdtr = { base := tables.gdt, limit := 47 }
  segments : ∀ index e, x86GdtSegments[index]? = some e →
    Holds cpu.mem (tables.gdt.toNat + 8 * (index + 1)) e.raw.bytes

theorem Installed.segmented (installed : tables.Installed cpu) : tables.Segmented cpu :=
  ⟨installed.gdtr, installed.stored.segments⟩

theorem Segmented.kernCode (segmented : tables.Segmented cpu) :
    cpu.descriptor x86GdtSelectorKernCode = some x86GdtKernCode.descriptor :=
  Cpu.descriptor_eq segmented.gdtr (by decide) (by decide) (by decide)
    (segmented.segments 0 x86GdtKernCode rfl)

theorem Segmented.kernData (segmented : tables.Segmented cpu) :
    cpu.descriptor x86GdtSelectorKernData = some x86GdtKernData.descriptor :=
  Cpu.descriptor_eq segmented.gdtr (by decide) (by decide) (by decide)
    (segmented.segments 1 x86GdtKernData rfl)

theorem Segmented.userCode (segmented : tables.Segmented cpu) :
    cpu.descriptor x86GdtSelectorUserCode = some x86GdtUserCode.descriptor :=
  Cpu.descriptor_eq segmented.gdtr (by decide) (by decide) (by decide)
    (segmented.segments 2 x86GdtUserCode rfl)

theorem Segmented.userData (segmented : tables.Segmented cpu) :
    cpu.descriptor x86GdtSelectorUserData = some x86GdtUserData.descriptor :=
  Cpu.descriptor_eq segmented.gdtr (by decide) (by decide) (by decide)
    (segmented.segments 3 x86GdtUserData rfl)

/-- Kernel data is a stack of ring 0. -/
theorem Segmented.stackLoads (segmented : tables.Segmented cpu) :
    cpu.stackLoads 0 x86GdtSelectorKernData = true := by
  rw [Cpu.stackLoads, segmented.kernData]
  decide

/-- Kernel data is a data segment of ring 0. -/
theorem Segmented.dataLoads (segmented : tables.Segmented cpu) (ring : cpu.cpl = 0) :
    cpu.dataLoads x86GdtSelectorKernData = true := by
  rw [Cpu.dataLoads, segmented.kernData, ring]
  decide

/-- The gate of a vector, as `x86_isr_init` set it. -/
def gate (tables : X86Tables) (vector : UInt8) : Gate where
  offset := (tables.stub vector.toNat).toNat
  selector := x86GdtSelectorKernCode
  flags := (x86IsrFlags vector.toNat).toNat

theorem gate_flags (tables : X86Tables) (vector : UInt8) :
    (tables.gate vector).flags =
      if vector.toNat = 0x80 then 0xEF
      else if vector.toNat = 1 ∨ vector.toNat = 3 ∨ vector.toNat = 4 then 0x8F
      else 0x8E := by
  change (x86IsrFlags vector.toNat).toNat = _
  rw [x86IsrFlags_eq]
  split
  · decide
  · split <;> decide

/-- Every gate can be used. -/
theorem gate_usable (tables : X86Tables) (vector : UInt8) :
    ((tables.gate vector).present &&
      ((tables.gate vector).interruptGate || (tables.gate vector).trapGate)) = true := by
  rw [Gate.present, Gate.interruptGate, Gate.trapGate, gate_flags]
  split
  · decide
  · split <;> decide

/-- Only vector `0x80` may be named by a program of ring 3. -/
theorem gate_dpl (tables : X86Tables) (vector : UInt8) :
    (tables.gate vector).dpl = if vector.toNat = 0x80 then 3 else 0 := by
  rw [Gate.dpl, gate_flags]
  split
  · decide
  · split <;> decide

/-- The vectors that leave interrupts enabled. -/
theorem gate_interruptGate (tables : X86Tables) (vector : UInt8) :
    (tables.gate vector).interruptGate = !decide (vector.toNat ∈ [1, 3, 4, 0x80]) := by
  rw [Gate.interruptGate, gate_flags]
  by_cases call : vector.toNat = 0x80
  · simp [call]
  · by_cases trap : vector.toNat = 1 ∨ vector.toNat = 3 ∨ vector.toNat = 4
    · obtain same | same | same := trap <;> simp [same]
    · simp [call, trap]

/-- The gate of every vector. -/
theorem Installed.gate (installed : tables.Installed cpu) (vector : UInt8) :
    cpu.gate vector = some (tables.gate vector) := by
  have small := vector.toNat_lt
  have limit : (2047 : UInt16).toNat = 2047 := rfl
  have held := installed.stored.gates vector.toNat small
  rw [Nat.mul_comm] at held
  rw [Cpu.gate, installed.idtr, if_neg (by rw [limit]; omega)]
  simp only [decode_gate held]
  exact if_pos (tables.gate_usable vector)

end X86Tables

/-! ## `arch_init` -/

namespace Cpu

/-- The instruction `ltr`: the task register keeps the base, and the segment is marked as busy. -/
def ltr (cpu : Cpu) (selector : UInt16) : Option Cpu :=
  match cpu.descriptor selector with
  | none => none
  | some found =>
      if found.present && decide (found.access % 2 ^ 5 = 0x9) then
        some { cpu with
          tr := UInt32.ofNat found.base
          mem := cpu.mem.write8 (cpu.gdtr.base.toNat + selector.toNat / 8 * 8 + 5)
            (UInt8.ofNat (found.access ||| 2)) }
      else none

/-- A far jump into another code segment of the same privilege level. -/
def farJump (cpu : Cpu) (selector : UInt16) : Option Cpu :=
  match cpu.descriptor selector with
  | none => none
  | some found =>
      if found.present && found.flat && found.ownCode &&
          decide (found.dpl = cpu.cpl ∧ selector.toNat % 4 ≤ cpu.cpl) then
        some { cpu with cs := UInt16.ofNat (selector.toNat / 4 * 4 + cpu.cpl) }
      else none

end Cpu

/-- `x86_gdt_flush`. -/
def x86GdtFlush (gdtr : TableRegister) (cpu : Cpu) : Option Cpu :=
  let cpu := { cpu with gdtr := gdtr }
  let data := x86GdtSelectorKernData
  if cpu.dataLoads data && cpu.stackLoads cpu.cpl data then
    match { cpu with ds := data, ss := data, es := data, fs := data, gs := data }.farJump
        x86GdtSelectorKernCode with
    | none => none
    | some cpu => cpu.ltr x86GdtSelectorTss
  else none

/-- `x86_gdt_init`. -/
def x86GdtInit (gdt tss : UInt32) (cpu : Cpu) : Option Cpu :=
  x86GdtFlush { base := gdt, limit := UInt16.ofNat (8 * x86GdtEntries - 1) }
    { cpu with mem := x86GdtTable gdt.toNat tss cpu.mem }

/-- `arch_init`, on a processor with or without the instruction `cpuid`. -/
def archInit (tables : X86Tables) (cpuid : Bool) (cpu : Cpu) : Option Cpu :=
  let cpu := { cpu with eflags := cpu.eflags &&& ~~~ eflagsIf &&& ~~~ 0x400 }
  if cpuid = false then none
  else
    match x86GdtInit tables.gdt tables.tss
        { cpu with mem := x86TssInit tables.tss.toNat cpu.mem } with
    | none => none
    | some cpu =>
        let memory := x86IdtInit tables.idt.toNat cpu.mem
        some { cpu with
          mem := x86IsrInit tables.stub tables.idt.toNat memory
          idtr := { base := tables.idt, limit := UInt16.ofNat (8 * x86IdtEntries - 1) } }

section Init

variable {tables : X86Tables} {cpu : Cpu}

/-- The table that `x86_gdt_init` fills serves as soon as its register is loaded. -/
theorem segmented_x86GdtTable (tables : X86Tables) (cpu : Cpu) :
    tables.Segmented { cpu with
      gdtr := { base := tables.gdt, limit := UInt16.ofNat (8 * x86GdtEntries - 1) }
      mem := x86GdtTable tables.gdt.toNat tables.tss cpu.mem } where
  gdtr := rfl
  segments index e listed := by
    have inside : index < 4 := (List.getElem?_eq_some_iff.mp listed).1
    have all : (x86GdtAll tables.tss)[index + 1]? = some e := by
      rw [x86GdtAll, List.cons_append, List.getElem?_cons_succ, List.getElem?_append_left inside,
        listed]
    exact holds_x86GdtTable all

/-- A jump into the kernel code segment in ring 0. -/
theorem X86Tables.Segmented.farJump (segmented : tables.Segmented cpu) (ring : cpu.cpl = 0) :
    cpu.farJump x86GdtSelectorKernCode = some { cpu with cs := x86GdtSelectorKernCode } := by
  rw [Cpu.farJump, segmented.kernCode]
  simp only [ring]
  rfl

/-- Loading the task register from the entry that `x86_gdt_init` made. -/
theorem ltr_eq {gdt tss : UInt32} (gdtr : cpu.gdtr = { base := gdt, limit := 47 })
    (held : Holds cpu.mem (gdt.toNat + 40) (x86GdtTss tss).raw.bytes) :
    cpu.ltr x86GdtSelectorTss =
      some { cpu with tr := tss, mem := cpu.mem.write8 (gdt.toNat + 45) 0x8B } := by
  have found : cpu.descriptor x86GdtSelectorTss = some (x86GdtTss tss).descriptor :=
    Cpu.descriptor_eq gdtr (by decide) (by decide) (by decide) held
  have access : (x86GdtTss tss).descriptor.access = 0x89 := rfl
  have base : (x86GdtTss tss).descriptor.base = tss.toNat := rfl
  have present : (x86GdtTss tss).descriptor.present = true := by
    rw [Descriptor.present, access]
    decide
  rw [Cpu.ltr, found]
  simp only [present, access, base, gdtr, UInt32.ofNat_toNat]
  rfl

/-- `x86_gdt_init` in ring 0. -/
theorem x86GdtInit_eq (tables : X86Tables) (cpu : Cpu) (ring : cpu.cpl = 0) :
    x86GdtInit tables.gdt tables.tss cpu =
      some { cpu with
        ds := x86GdtSelectorKernData
        es := x86GdtSelectorKernData
        fs := x86GdtSelectorKernData
        gs := x86GdtSelectorKernData
        ss := x86GdtSelectorKernData
        cs := x86GdtSelectorKernCode
        gdtr := { base := tables.gdt, limit := 47 }
        tr := tables.tss
        mem := (x86GdtTable tables.gdt.toNat tables.tss cpu.mem).write8 (tables.gdt.toNat + 45)
          0x8B } := by
  have segmented := segmented_x86GdtTable tables cpu
  have data := segmented.dataLoads ring
  have stack := segmented.stackLoads
  have loaded : tables.Segmented { cpu with
      ds := x86GdtSelectorKernData
      es := x86GdtSelectorKernData
      fs := x86GdtSelectorKernData
      gs := x86GdtSelectorKernData
      ss := x86GdtSelectorKernData
      gdtr := { base := tables.gdt, limit := UInt16.ofNat (8 * x86GdtEntries - 1) }
      mem := x86GdtTable tables.gdt.toNat tables.tss cpu.mem } :=
    ⟨segmented.gdtr, segmented.segments⟩
  have jump := loaded.farJump ring
  have level : Cpu.cpl { cpu with
      gdtr := { base := tables.gdt, limit := UInt16.ofNat (8 * x86GdtEntries - 1) }
      mem := x86GdtTable tables.gdt.toNat tables.tss cpu.mem } = 0 := ring
  rw [x86GdtInit, x86GdtFlush]
  simp only [data, level, stack, Bool.and_self, if_true, jump]
  have last : (x86GdtAll tables.tss)[5]? = some (x86GdtTss tables.tss) := rfl
  exact ltr_eq rfl (holds_x86GdtTable last)

/-- The memory that `arch_init` leaves. -/
def archMemory (tables : X86Tables) (memory : ByteMemory) : ByteMemory :=
  x86IsrInit tables.stub tables.idt.toNat
    (x86IdtInit tables.idt.toNat
      ((x86GdtTable tables.gdt.toNat tables.tss (x86TssInit tables.tss.toNat memory)).write8
        (tables.gdt.toNat + 45) 0x8B))

/-- The processor that `arch_init` leaves. -/
def archReady (tables : X86Tables) (cpu : Cpu) : Cpu :=
  { cpu with
    ds := x86GdtSelectorKernData
    es := x86GdtSelectorKernData
    fs := x86GdtSelectorKernData
    gs := x86GdtSelectorKernData
    ss := x86GdtSelectorKernData
    cs := x86GdtSelectorKernCode
    eflags := cpu.eflags &&& ~~~ eflagsIf &&& ~~~ 0x400
    gdtr := { base := tables.gdt, limit := 47 }
    idtr := { base := tables.idt, limit := 2047 }
    tr := tables.tss
    mem := archMemory tables cpu.mem }

@[simp] theorem archReady_mem (tables : X86Tables) (cpu : Cpu) :
    (archReady tables cpu).mem = archMemory tables cpu.mem := by
  simp only [archReady]

/-- `arch_init` in ring 0, on a processor with `cpuid`. -/
theorem archInit_eq (tables : X86Tables) (ring : cpu.cpl = 0) :
    archInit tables true cpu = some (archReady tables cpu) := by
  have init := x86GdtInit_eq tables { cpu with
    eflags := cpu.eflags &&& ~~~ eflagsIf &&& ~~~ 0x400
    mem := x86TssInit tables.tss.toNat cpu.mem } ring
  rw [archInit, if_neg (by decide)]
  simp only [init]
  rfl

private theorem idt_of_outside {idt target : ℕ} {stub : ℕ → UInt32} {memory : ByteMemory}
    (outside : target < idt ∨ idt + 2048 ≤ target) :
    x86IsrInit stub idt (x86IdtInit idt memory) target = memory target := by
  rw [x86IsrInit_of_outside outside, x86IdtInit_of_outside outside]

private theorem tss_of_outside {tss target : ℕ} {memory : ByteMemory}
    (outside : target < tss ∨ tss + 104 ≤ target) :
    x86TssInit tss memory target = memory target := by
  have word (value : UInt16) : (le16 value).length = 2 := rfl
  rw [x86TssInit, ByteMemory.store_of_outside (by rw [word]; omega),
    ByteMemory.store_of_outside (by rw [word]; omega), memset, ByteMemory.fill_apply,
    if_neg (by simp only [x86TssSize]; omega)]

/-- The three tables are filled, whatever the memory held. -/
theorem stored_archMemory (tables : X86Tables) (memory : ByteMemory) :
    tables.Stored (archMemory tables memory) where
  segments index e listed := by
    have inside : index < 4 := (List.getElem?_eq_some_iff.mp listed).1
    have gdtIdt := tables.gdtIdt
    have all : (x86GdtAll tables.tss)[index + 1]? = some e := by
      rw [x86GdtAll, List.cons_append, List.getElem?_cons_succ, List.getElem?_append_left inside,
        listed]
    apply (holds_x86GdtTable all).congr
    intro target lower upper
    have size : e.raw.bytes.length = 8 := rfl
    rw [archMemory, idt_of_outside (by omega), ByteMemory.write8,
      Function.update_of_ne (by omega)]
  gates vector inside := holds_x86IsrInit inside
  ss0 := by
    have gdtTss := tables.gdtTss
    have idtTss := tables.idtTss
    apply (holds_store (memset memory tables.tss.toNat 0 x86TssSize) (tables.tss.toNat + 8)
      (le16 x86GdtSelectorKernData)).congr
    intro target lower upper
    have size : (le16 x86GdtSelectorKernData).length = 2 := rfl
    have late : ¬target = tables.gdt.toNat + 45 := by omega
    symm
    rw [archMemory, idt_of_outside (by omega), ByteMemory.write8, Function.update_of_ne late,
      x86GdtTable_of_outside (by simp only [x86GdtEntries]; omega)]
    exact ByteMemory.store_of_outside (Or.inl (by omega))

/-- Nothing else is touched. -/
theorem archMemory_of_outside (tables : X86Tables) (memory : ByteMemory) {target : ℕ}
    (outside : ¬tables.Covers target) : archMemory tables memory target = memory target := by
  simp only [X86Tables.Covers, not_or, not_and, not_lt] at outside
  have late : ¬target = tables.gdt.toNat + 45 := by omega
  rw [archMemory, idt_of_outside (by omega), ByteMemory.write8, Function.update_of_ne late,
    x86GdtTable_of_outside (by simp only [x86GdtEntries]; omega), tss_of_outside (by omega)]

theorem cleared (value other : UInt32) :
    (value &&& ~~~ eflagsIf &&& ~~~ other) &&& eflagsIf = 0 := by
  have none_left : ~~~ eflagsIf &&& eflagsIf = 0 := by decide
  calc value &&& ~~~ eflagsIf &&& ~~~ other &&& eflagsIf
      = value &&& ~~~ other &&& (~~~ eflagsIf &&& eflagsIf) := by ac_rfl
    _ = 0 := by rw [none_left, UInt32.and_zero]

/-- What the processor reads of the installed tables. -/
theorem X86Tables.Installed.traps (installed : tables.Installed cpu) (vector : UInt8) :
    ∃ gate, cpu.gate vector = some gate ∧ gate.offset = (tables.stub vector.toNat).toNat ∧
      cpu.descriptor gate.selector = some x86GdtKernCode.descriptor ∧
      gate.dpl = (if vector.toNat = 0x80 then 3 else 0) ∧
      gate.interruptGate = !decide (vector.toNat ∈ [1, 3, 4, 0x80]) :=
  ⟨tables.gate vector, installed.gate vector, rfl, installed.segmented.kernCode,
    tables.gate_dpl vector, tables.gate_interruptGate vector⟩

end Init

/-- Tables in low memory, with stubs of sixteen bytes. -/
def lowTables : X86Tables where
  gdt := 0x1000
  idt := 0x2000
  tss := 0x3000
  stub := fun vector => UInt32.ofNat (0x100000 + 16 * vector)
  gdtInside := Nat.le_of_ble_eq_true rfl
  idtInside := Nat.le_of_ble_eq_true rfl
  tssInside := Nat.le_of_ble_eq_true rfl
  gdtIdt := Or.inl (Nat.le_of_ble_eq_true rfl)
  gdtTss := Or.inl (Nat.le_of_ble_eq_true rfl)
  idtTss := Or.inl (Nat.le_of_ble_eq_true rfl)

/-- A processor in ring 0, with the stack pointer at `0x9000`. -/
def bootCpu : Cpu where
  eax := 0
  ecx := 0
  edx := 0
  ebx := 0
  esp := 0x9000
  ebp := 0
  esi := 0
  edi := 0
  ds := 0x10
  es := 0x10
  fs := 0x10
  gs := 0x10
  ss := 0x10
  cs := 0x08
  eip := 0x100000
  eflags := 0x202
  gdtr := { base := 0, limit := 0 }
  idtr := { base := 0, limit := 0 }
  tr := 0
  mem := fun _ => 0

end ItWorksOS
