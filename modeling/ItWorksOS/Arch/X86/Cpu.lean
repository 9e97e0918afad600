import ItWorksOS.Foundation.WordStack

/-!
# The processor under the interrupt code

Registers, segment selectors and descriptor tables of a processor in 32-bit protected mode, with
what it does when it takes an interrupt and when it executes `iretd`. Descriptors and gates are read
from memory, through the table registers, whenever a selector is loaded. Offsets are linear
addresses, so a selector only loads when its segment is flat.
-/

namespace ItWorksOS

/-- A table register: where a descriptor table lies, and the offset of its last byte. -/
structure TableRegister where
  base : UInt32
  limit : UInt16

/-- The processor and its memory. -/
@[ext] structure Cpu where
  eax : UInt32
  ecx : UInt32
  edx : UInt32
  ebx : UInt32
  esp : UInt32
  ebp : UInt32
  esi : UInt32
  edi : UInt32
  ds : UInt16
  es : UInt16
  fs : UInt16
  gs : UInt16
  ss : UInt16
  cs : UInt16
  eip : UInt32
  eflags : UInt32
  gdtr : TableRegister
  idtr : TableRegister
  /-- Base of the task state segment in the hidden part of the task register. -/
  tr : UInt32
  mem : ByteMemory

/-- Trap, nested task, resume and virtual 8086 flags, which every gate clears. -/
def eflagsGateMask : UInt32 := 0x00034100

/-- The interrupt flag. -/
def eflagsIf : UInt32 := 0x200

/-- The nested task flag. -/
def eflagsNt : UInt32 := 0x4000

/-- The virtual 8086 flag. -/
def eflagsVm : UInt32 := 0x20000

/-- A segment descriptor, as the processor decodes it. -/
@[ext] structure Descriptor where
  base : ℕ
  limit : ℕ
  access : ℕ
  flags : ℕ
  deriving DecidableEq

namespace Descriptor

/-- The descriptor in the eight bytes at an address. -/
def decode (memory : ByteMemory) (address : ℕ) : Descriptor where
  base := (memory (address + 2)).toNat + 2 ^ 8 * (memory (address + 3)).toNat +
    2 ^ 16 * (memory (address + 4)).toNat + 2 ^ 24 * (memory (address + 7)).toNat
  limit := (memory address).toNat + 2 ^ 8 * (memory (address + 1)).toNat +
    2 ^ 16 * ((memory (address + 6)).toNat % 2 ^ 4)
  access := (memory (address + 5)).toNat
  flags := (memory (address + 6)).toNat / 2 ^ 4

/-- Privilege level of the segment. -/
def dpl (descriptor : Descriptor) : ℕ := descriptor.access / 2 ^ 5 % 4

/-- The segment is in memory. -/
def present (descriptor : Descriptor) : Bool := descriptor.access.testBit 7

/-- A data segment that may be written. -/
def writableData (descriptor : Descriptor) : Bool :=
  descriptor.access.testBit 4 && !descriptor.access.testBit 3 && descriptor.access.testBit 1

/-- A code segment that only runs at its own privilege level. -/
def ownCode (descriptor : Descriptor) : Bool :=
  descriptor.access.testBit 4 && descriptor.access.testBit 3 && !descriptor.access.testBit 2

/-- A data segment, or a code segment that may be read. -/
def readable (descriptor : Descriptor) : Bool :=
  descriptor.access.testBit 4 && (!descriptor.access.testBit 3 || descriptor.access.testBit 1)

/-- A 32-bit segment over the whole address space. -/
def flat (descriptor : Descriptor) : Bool :=
  decide (descriptor.base = 0 ∧ descriptor.limit = 0xFFFFF ∧ descriptor.flags = 0xC)

end Descriptor

/-- A gate of the interrupt descriptor table, as the processor decodes it. -/
@[ext] structure Gate where
  offset : ℕ
  selector : UInt16
  flags : ℕ

namespace Gate

/-- The gate in the eight bytes at an address. -/
def decode (memory : ByteMemory) (address : ℕ) : Gate where
  offset := (memory address).toNat + 2 ^ 8 * (memory (address + 1)).toNat +
    2 ^ 16 * (memory (address + 6)).toNat + 2 ^ 24 * (memory (address + 7)).toNat
  selector := UInt16.ofNat ((memory (address + 2)).toNat + 2 ^ 8 * (memory (address + 3)).toNat)
  flags := (memory (address + 5)).toNat

/-- Privilege level a program needs to name the vector. -/
def dpl (gate : Gate) : ℕ := gate.flags / 2 ^ 5 % 4

/-- The gate may be used. -/
def present (gate : Gate) : Bool := gate.flags.testBit 7

/-- A 32-bit interrupt gate, which disables interrupts. -/
def interruptGate (gate : Gate) : Bool := decide (gate.flags % 2 ^ 5 = 0xE)

/-- A 32-bit trap gate. -/
def trapGate (gate : Gate) : Bool := decide (gate.flags % 2 ^ 5 = 0xF)

end Gate

/-- What makes the processor take an interrupt. -/
inductive X86Event where
  /-- An exception of the processor, with the error code for the vectors that have one. -/
  | exception (vector : UInt8) (code : UInt32)
  /-- A request of the interrupt controllers. -/
  | external (vector : UInt8)
  /-- The instruction `int`. -/
  | software (vector : UInt8)
  deriving DecidableEq

namespace X86Event

/-- The vector of an event. -/
def vector : X86Event → UInt8
  | exception vector _ => vector
  | external vector => vector
  | software vector => vector

/-- Exceptions that push an error code: #DF, #TS, #NP, #SS, #GP, #PF, #AC, #CP, #VC and #SX. -/
def pushesCode (vector : UInt8) : Bool :=
  vector == 8 || (10 ≤ vector && vector ≤ 14) || vector == 17 || vector == 21 || vector == 29 ||
    vector == 30

/-- The error code that is pushed. -/
def code : X86Event → Option UInt32
  | exception vector code => if pushesCode vector then some code else none
  | external _ => none
  | software _ => none

/-- The event was raised by the instruction `int`. -/
def isSoftware : X86Event → Bool
  | software _ => true
  | _ => false

end X86Event

namespace Cpu

/-- Current privilege level. -/
def cpl (cpu : Cpu) : ℕ := cpu.cs.toNat % 4

/-- Push one word. -/
def push (cpu : Cpu) (value : UInt32) : Cpu :=
  { cpu with esp := cpu.esp - 4, mem := cpu.mem.write32 (cpu.esp - 4).toNat value.toNat }

/-- The word on top of the stack. -/
def top (cpu : Cpu) : UInt32 := UInt32.ofNat (cpu.mem.read32 cpu.esp.toNat)

/-- Drop some bytes from the stack. -/
def drop (cpu : Cpu) (count : UInt32) : Cpu := { cpu with esp := cpu.esp + count }

/-- The descriptor a selector names, in the global table. -/
def descriptor (cpu : Cpu) (selector : UInt16) : Option Descriptor :=
  if selector.toNat < 4 then none
  else if selector.toNat / 4 % 2 = 1 then none
  else if cpu.gdtr.limit.toNat < selector.toNat / 8 * 8 + 7 then none
  else some (Descriptor.decode cpu.mem (cpu.gdtr.base.toNat + selector.toNat / 8 * 8))

/-- The gate of a vector. -/
def gate (cpu : Cpu) (vector : UInt8) : Option Gate :=
  if cpu.idtr.limit.toNat < vector.toNat * 8 + 7 then none
  else
    let gate := Gate.decode cpu.mem (cpu.idtr.base.toNat + vector.toNat * 8)
    if gate.present && (gate.interruptGate || gate.trapGate) then some gate else none

/-- A selector may be loaded in a data segment register. -/
def dataLoads (cpu : Cpu) (selector : UInt16) : Bool :=
  decide (selector.toNat < 4) ||
    match cpu.descriptor selector with
    | none => false
    | some found =>
        found.present && found.flat && found.readable &&
          (found.access.testBit 3 && found.access.testBit 2 ||
            decide (cpu.cpl ≤ found.dpl ∧ selector.toNat % 4 ≤ found.dpl))

/-- A selector may be loaded in the stack segment register at a privilege level. -/
def stackLoads (cpu : Cpu) (level : ℕ) (selector : UInt16) : Bool :=
  match cpu.descriptor selector with
  | none => false
  | some found =>
      found.present && found.flat && found.writableData &&
        decide (selector.toNat % 4 = level ∧ found.dpl = level)

/-- Continue on the stack that the task state segment names for a privilege level below three. -/
def switchStack (cpu : Cpu) (level : ℕ) : Option Cpu :=
  let esp := UInt32.ofNat (cpu.mem.read32 (cpu.tr.toNat + 4 + 8 * level))
  let ss := UInt16.ofNat (cpu.mem.read32 (cpu.tr.toNat + 8 + 8 * level))
  if cpu.stackLoads level ss then
    some (({ cpu with esp := esp, ss := ss }.push cpu.ss.toUInt32).push cpu.esp)
  else none

/-- The stack an event is taken on. -/
def eventStack (cpu : Cpu) (level : ℕ) : Option Cpu :=
  if level < cpu.cpl then cpu.switchStack level else some cpu

/-- Push the interrupted context, and the error code when there is one. -/
def pushContext (cpu : Cpu) (context : Cpu) (code : Option UInt32) : Cpu :=
  let cpu := ((cpu.push context.eflags).push context.cs.toUInt32).push context.eip
  match code with
  | none => cpu
  | some code => cpu.push code

/-- Continue at the offset of a gate, in its segment at a privilege level. -/
def enter (cpu : Cpu) (gate : Gate) (level : ℕ) : Cpu :=
  let eflags := cpu.eflags &&& ~~~ eflagsGateMask
  { cpu with
    cs := UInt16.ofNat (gate.selector.toNat / 4 * 4 + level)
    eip := UInt32.ofNat gate.offset
    eflags := if gate.interruptGate then eflags &&& ~~~ eflagsIf else eflags }

/-- Take an event, or fault. -/
def interrupt (cpu : Cpu) (event : X86Event) : Option Cpu :=
  if cpu.eflags &&& eflagsVm ≠ 0 then none
  else
    match cpu.gate event.vector with
    | none => none
    | some gate =>
        if event.isSoftware ∧ gate.dpl < cpu.cpl then none
        else
          match cpu.descriptor gate.selector with
          | none => none
          | some code =>
              if code.ownCode && code.present && code.flat && decide (code.dpl ≤ cpu.cpl) then
                match cpu.eventStack code.dpl with
                | none => none
                | some inner => some ((inner.pushContext cpu event.code).enter gate code.dpl)
              else none

/-- A data segment register after a return to a less privileged level. -/
def outerSegment (cpu : Cpu) (level : ℕ) (selector : UInt16) : UInt16 :=
  match cpu.descriptor selector with
  | none => 0
  | some found =>
      if found.access.testBit 3 && found.access.testBit 2 then selector
      else if found.dpl < level then 0
      else selector

/-- Load a code segment register on a return to a privilege level. -/
def codeReturns (cpu : Cpu) (selector : UInt16) : Bool :=
  match cpu.descriptor selector with
  | none => false
  | some found =>
      found.present && found.flat && found.ownCode &&
        decide (cpu.cpl ≤ selector.toNat % 4 ∧ found.dpl = selector.toNat % 4)

/-- Return to a less privileged level, whose stack is next on the stack. -/
def returnOuter (cpu : Cpu) (eip : UInt32) (cs : UInt16) (eflags : UInt32) : Option Cpu :=
  let level := cs.toNat % 4
  let esp := cpu.top
  let ss := (cpu.drop 4).top.toUInt16
  if cpu.stackLoads level ss then
    some { cpu with
      esp := esp, ss := ss, cs := cs, eip := eip, eflags := eflags
      ds := cpu.outerSegment level cpu.ds
      es := cpu.outerSegment level cpu.es
      fs := cpu.outerSegment level cpu.fs
      gs := cpu.outerSegment level cpu.gs }
  else none

/-- The instruction `iretd`, or a fault. -/
def iretd (cpu : Cpu) : Option Cpu :=
  let eip := cpu.top
  let cs := (cpu.drop 4).top.toUInt16
  let eflags := ((cpu.drop 4).drop 4).top
  let rest := ((cpu.drop 4).drop 4).drop 4
  if cpu.eflags &&& eflagsNt ≠ 0 ∨ eflags &&& eflagsVm ≠ 0 then none
  else if cpu.codeReturns cs then
    if cs.toNat % 4 = cpu.cpl then some { rest with cs := cs, eip := eip, eflags := eflags }
    else rest.returnOuter eip cs eflags
  else none

end Cpu

end ItWorksOS
