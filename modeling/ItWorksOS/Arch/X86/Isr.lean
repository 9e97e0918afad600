import ItWorksOS.Arch.X86.Arch

/-!
# Interrupt entry and exit of `interrupt/isr.asm`

A stub completes what the processor pushed to one layout for every vector, `x86_isr_common` saves
the registers below it and passes the address to `x86_isr_handler`, and afterwards undoes all of it.
-/

namespace ItWorksOS

/-- `struct x86_interrupt_frame`. -/
structure X86InterruptFrame where
  gs : UInt32
  fs : UInt32
  es : UInt32
  ds : UInt32
  edi : UInt32
  esi : UInt32
  ebp : UInt32
  espDummy : UInt32
  ebx : UInt32
  edx : UInt32
  ecx : UInt32
  eax : UInt32
  intNo : UInt32
  errCode : UInt32
  eip : UInt32
  cs : UInt32
  eflags : UInt32
  userEsp : UInt32
  userSs : UInt32
  deriving DecidableEq

/-- The packed structure at an address. -/
def X86InterruptFrame.read (memory : ByteMemory) (address : ℕ) : X86InterruptFrame :=
  let word (offset : ℕ) := UInt32.ofNat (memory.read32 (address + offset))
  { gs := word 0, fs := word 4, es := word 8, ds := word 12, edi := word 16, esi := word 20,
    ebp := word 24, espDummy := word 28, ebx := word 32, edx := word 36, ecx := word 40,
    eax := word 44, intNo := word 48, errCode := word 52, eip := word 56, cs := word 60,
    eflags := word 64, userEsp := word 68, userSs := word 72 }

/-- Vectors whose stub is made by `ISR_ERROR`. -/
def isrError (vector : UInt8) : Bool := vector ∈ [8, 10, 11, 12, 13, 14, 17, 21, 29, 30]

/-- `x86_isr_stub` of a vector. -/
def x86IsrStub (vector : UInt8) (cpu : Cpu) : Cpu :=
  if isrError vector then cpu.push vector.toUInt32 else (cpu.push 0).push vector.toUInt32

namespace Cpu

/-- The instruction `pushad`. -/
def pushad (cpu : Cpu) : Cpu :=
  ((((((((cpu.push cpu.eax).push cpu.ecx).push cpu.edx).push cpu.ebx).push cpu.esp).push
    cpu.ebp).push cpu.esi).push cpu.edi)

/-- The instruction `popad`, which skips the stack pointer. -/
def popad (cpu : Cpu) : Cpu :=
  { cpu with
    edi := cpu.top
    esi := (cpu.drop 4).top
    ebp := (cpu.drop 8).top
    ebx := (cpu.drop 16).top
    edx := (cpu.drop 20).top
    ecx := (cpu.drop 24).top
    eax := (cpu.drop 28).top
    esp := cpu.esp + 32 }

/-- The instruction `call`. -/
def call (cpu : Cpu) (target next : UInt32) : Cpu := { cpu.push next with eip := target }

end Cpu

/-- Addresses of `x86_isr_handler` and of the instruction after its call. -/
structure IsrCode where
  handler : UInt32
  next : UInt32

/-- The registers that `x86_isr_common` saves. -/
def savePushes (cpu : Cpu) : Cpu :=
  ((((cpu.pushad).push cpu.ds.toUInt32).push cpu.es.toUInt32).push cpu.fs.toUInt32).push
    cpu.gs.toUInt32

/-- The kernel data segment in the data segment registers, through `ax`. -/
def loadKernelData (cpu : Cpu) : Cpu :=
  { cpu with
    eax := (cpu.eax &&& 0xFFFF0000) ||| 0x10
    ds := x86GdtSelectorKernData
    es := x86GdtSelectorKernData
    fs := x86GdtSelectorKernData
    gs := x86GdtSelectorKernData }

/-- `x86_isr_common` up to the call, with the frame as the argument. -/
def x86IsrCommonEnter (isr : IsrCode) (cpu : Cpu) : Option Cpu :=
  let saved := savePushes cpu
  if saved.dataLoads x86GdtSelectorKernData then
    let loaded := loadKernelData saved
    some ((loaded.push loaded.esp).call isr.handler isr.next)
  else none

/-- Pop the four data segment registers. -/
def popSegments (cpu : Cpu) : Option Cpu :=
  let gs := cpu.top.toUInt16
  let fs := (cpu.drop 4).top.toUInt16
  let es := (cpu.drop 8).top.toUInt16
  let ds := (cpu.drop 12).top.toUInt16
  if cpu.dataLoads gs && cpu.dataLoads fs && cpu.dataLoads es && cpu.dataLoads ds then
    some { cpu.drop 16 with ds := ds, es := es, fs := fs, gs := gs }
  else none

/-- `x86_isr_common` from the call on. -/
def x86IsrCommonLeave (cpu : Cpu) : Option Cpu :=
  match popSegments (cpu.drop 4) with
  | none => none
  | some cpu => (cpu.popad.drop 8).iretd

/-- Take an event and run its stub up to the call of the handler. -/
def trapEnter (isr : IsrCode) (cpu : Cpu) (event : X86Event) : Option Cpu :=
  match cpu.interrupt event with
  | none => none
  | some cpu => x86IsrCommonEnter isr (x86IsrStub event.vector cpu)

/-! ## Pushing -/

namespace Cpu

/-- Push words, the first one first. -/
def pushAll (cpu : Cpu) (words : List UInt32) : Cpu := words.foldl push cpu

/-- The processor on a stack with other contents. -/
def onStack (cpu : Cpu) (esp : ℕ) (mem : ByteMemory) : Cpu :=
  { cpu with esp := UInt32.ofNat esp, mem := mem }

theorem pushAll_append (cpu : Cpu) (first second : List UInt32) :
    cpu.pushAll (first ++ second) = (cpu.pushAll first).pushAll second :=
  List.foldl_append

theorem pushAll_eq (cpu : Cpu) (words : List UInt32) (room : 4 * words.length ≤ cpu.esp.toNat) :
    cpu.pushAll words =
      cpu.onStack (cpu.esp.toNat - 4 * words.length)
        (cpu.mem.pushWords cpu.esp.toNat (words.map UInt32.toNat)) := by
  induction words generalizing cpu with
  | nil => simp [pushAll, onStack, ByteMemory.pushWords]
  | cons word words induction =>
      rw [List.length_cons] at room
      have four : (4 : UInt32).toNat = 4 := rfl
      have lowered : (cpu.esp - 4).toNat = cpu.esp.toNat - 4 := by
        rw [UInt32.toNat_sub_of_le _ _ (by rw [UInt32.le_iff_toNat_le, four]; omega), four]
      have tail := induction (cpu.push word) (by rw [push, lowered]; omega)
      rw [pushAll, List.foldl_cons, ← pushAll, tail]
      simp only [push, onStack, lowered, List.map_cons, List.length_cons, ByteMemory.pushWords]
      congr 2
      omega

theorem pushAll_enter (cpu : Cpu) (gate : Gate) (level : ℕ) (words : List UInt32) :
    (cpu.enter gate level).pushAll words = (cpu.pushAll words).enter gate level := by
  induction words generalizing cpu with
  | nil => rfl
  | cons word words induction => exact induction (cpu.push word)

end Cpu

/-! ## Entry -/

/-- A context in which the installed tables let a program run. -/
structure X86Context (tables : X86Tables) (cpu : Cpu) : Prop where
  installed : tables.Installed cpu
  level : cpu.cs = x86GdtSelectorKernCode ∧ cpu.ss = x86GdtSelectorKernData ∨
    cpu.cs = x86GdtSelectorUserCode ∧ cpu.ss = x86GdtSelectorUserData
  segments : ∀ selector ∈ [cpu.ds, cpu.es, cpu.fs, cpu.gs],
    selector = 0 ∨ 4 ≤ selector.toNat ∧ cpu.dataLoads selector
  vm : (cpu.eflags &&& eflagsVm) = 0

/-- Events that reach the processor at a privilege level: `int` pushes no error code, and names a
vector below `0x80` or above only in the kernel. -/
def X86Event.Reaches (cpl : ℕ) : X86Event → Prop
  | exception vector _ => vector.toNat < 32
  | external vector => 32 ≤ vector.toNat
  | software vector => isrError vector = false ∧ (cpl = 0 ∨ vector.toNat = 0x80)

/-- Top of the stack an event is taken on. -/
def trapTop (tables : X86Tables) (cpu : Cpu) : ℕ :=
  if cpu.cpl = 0 then cpu.esp.toNat else cpu.mem.read32 (tables.tss.toNat + 4)

/-- The stack that is left, when an event is taken on another one. -/
def outerWords (cpu : Cpu) : List UInt32 :=
  if cpu.cpl = 0 then [] else [cpu.ss.toUInt32, cpu.esp]

/-- Vectors that `x86_isr_handler` could find an error code for are those the processor pushes one
for. -/
theorem pushesCode_eq (vector : UInt8) : X86Event.pushesCode vector = isrError vector := by
  have all : ∀ index : Fin 256,
      X86Event.pushesCode (UInt8.ofNat index) = isrError (UInt8.ofNat index) := by decide +kernel
  have this := all ⟨vector.toNat, vector.toNat_lt⟩
  rwa [UInt8.ofNat_toNat] at this

/-- What a stub pushes. -/
def stubWords (vector : UInt8) : List UInt32 :=
  if isrError vector then [vector.toUInt32] else [0, vector.toUInt32]

theorem x86IsrStub_eq (vector : UInt8) (cpu : Cpu) :
    x86IsrStub vector cpu = cpu.pushAll (stubWords vector) := by
  unfold x86IsrStub stubWords
  split <;> rfl

/-- Processor and stub together leave an error code and the vector. -/
theorem code_stubWords {event : X86Event} {cpl : ℕ} (reaches : event.Reaches cpl) :
    event.code.toList ++ stubWords event.vector =
      [event.code.getD 0, event.vector.toUInt32] := by
  cases event with
  | exception vector code =>
      cases listed : isrError vector with
      | true =>
          have pushed : X86Event.pushesCode vector = true := by rw [pushesCode_eq, listed]
          simp [stubWords, X86Event.vector, X86Event.code, listed, pushed]
      | false =>
          have pushed : X86Event.pushesCode vector = false := by rw [pushesCode_eq, listed]
          simp [stubWords, X86Event.vector, X86Event.code, listed, pushed]
  | external vector =>
      have listed : isrError vector = false := by
        have late : ∀ index : Fin 256, 32 ≤ index.val → isrError (UInt8.ofNat index) = false := by
          decide +kernel
        have this := late ⟨vector.toNat, vector.toNat_lt⟩ reaches
        rwa [UInt8.ofNat_toNat] at this
      simp [stubWords, X86Event.vector, X86Event.code, listed]
  | software vector =>
      simp [stubWords, X86Event.vector, X86Event.code, reaches.1]

section Entry

variable {tables : X86Tables} {cpu : Cpu} {event : X86Event}

/-- Programs run in the kernel or in ring 3. -/
theorem X86Context.cpl (context : X86Context tables cpu) : cpu.cpl = 0 ∨ cpu.cpl = 3 := by
  obtain ⟨code, -⟩ | ⟨code, -⟩ := context.level
  · left
    rw [Cpu.cpl, code]
    decide
  · right
    rw [Cpu.cpl, code]
    decide

theorem X86Context.kernel (context : X86Context tables cpu) (ring : cpu.cpl = 0) :
    cpu.cs = x86GdtSelectorKernCode ∧ cpu.ss = x86GdtSelectorKernData := by
  obtain kernel | ⟨code, -⟩ := context.level
  · exact kernel
  · rw [Cpu.cpl, code] at ring
    exact absurd ring (by decide)

theorem X86Context.user (context : X86Context tables cpu) (ring : cpu.cpl = 3) :
    cpu.cs = x86GdtSelectorUserCode ∧ cpu.ss = x86GdtSelectorUserData := by
  obtain ⟨code, -⟩ | user := context.level
  · rw [Cpu.cpl, code] at ring
    exact absurd ring (by decide)
  · exact user

/-- The processor finds the stack of ring 0 in the task state segment. -/
theorem ss0_eq (installed : tables.Installed cpu) :
    UInt16.ofNat (cpu.mem.read32 (cpu.tr.toNat + 8 + 8 * 0)) = x86GdtSelectorKernData := by
  have low := congrArg UInt8.toNat (installed.stored.ss0 0 (by decide : 0 < 2))
  have high := congrArg UInt8.toNat (installed.stored.ss0 1 (by decide : 1 < 2))
  have zero : (le16 x86GdtSelectorKernData)[0].toNat = 0x10 := by decide
  have one : (le16 x86GdtSelectorKernData)[1].toNat = 0 := by decide
  have word : (cpu.mem.read32 (cpu.tr.toNat + 8 + 8 * 0)) % 2 ^ 16 = 0x10 := by
    rw [installed.tr]
    simp only [Nat.add_zero, Nat.mul_zero] at low ⊢
    simp only [ByteMemory.read32]
    omega
  apply UInt16.toNat_inj.mp
  rw [UInt16.toNat_ofNat', word]
  rfl

/-- The processor with the stack an event is taken on. -/
def trapStack (tables : X86Tables) (cpu : Cpu) : Cpu :=
  { cpu with esp := UInt32.ofNat (trapTop tables cpu), ss := x86GdtSelectorKernData }

theorem eventStack_eq (context : X86Context tables cpu) :
    cpu.eventStack 0 = some ((trapStack tables cpu).pushAll (outerWords cpu)) := by
  obtain ring | ring := context.cpl
  · have kernel := (context.kernel ring).2
    rw [Cpu.eventStack, if_neg (by omega), trapStack, trapTop, if_pos ring, outerWords,
      if_pos ring, UInt32.ofNat_toNat, ← kernel]
    rfl
  · have inner : ¬cpu.cpl = 0 := by omega
    rw [Cpu.eventStack, if_pos (by omega), Cpu.switchStack]
    rw [ss0_eq context.installed, if_pos context.installed.segmented.stackLoads, trapStack,
      trapTop, if_neg inner, outerWords, if_neg inner, ← context.installed.tr]
    rfl

/-- An event that reaches the processor is taken on the kernel stack. -/
theorem interrupt_eq (context : X86Context tables cpu) (reaches : event.Reaches cpu.cpl) :
    cpu.interrupt event =
      some (((trapStack tables cpu).pushAll
        (outerWords cpu ++ [cpu.eflags, cpu.cs.toUInt32, cpu.eip] ++ event.code.toList)).enter
          (tables.gate event.vector) 0) := by
  have allowed : ¬(event.isSoftware = true ∧ (tables.gate event.vector).dpl < cpu.cpl) := by
    rintro ⟨software, below⟩
    cases event with
    | exception vector code => cases software
    | external vector => cases software
    | software vector =>
        obtain ⟨-, ring | call⟩ := reaches
        · omega
        · have level := context.cpl
          rw [tables.gate_dpl, X86Event.vector, if_pos call] at below
          omega
  have usable : (x86GdtKernCode.descriptor.ownCode && x86GdtKernCode.descriptor.present &&
      x86GdtKernCode.descriptor.flat && decide (x86GdtKernCode.descriptor.dpl ≤ cpu.cpl)) =
        true := by
    have level : x86GdtKernCode.descriptor.dpl = 0 := by decide
    rw [level, decide_eq_true (Nat.zero_le _)]
    decide
  have level : x86GdtKernCode.descriptor.dpl = 0 := by decide
  have segment : (tables.gate event.vector).selector = x86GdtSelectorKernCode := rfl
  rw [Cpu.interrupt, if_neg (by simp [context.vm]), context.installed.gate]
  simp only [if_neg allowed, segment, context.installed.segmented.kernCode, level,
    eventStack_eq context]
  rw [Cpu.pushAll_append, Cpu.pushAll_append]
  cases event.code with
  | none => rfl
  | some code => rfl

/-- What processor and stub push, in this order. -/
def eventWords (cpu : Cpu) (event : X86Event) : List UInt32 :=
  outerWords cpu ++
    [cpu.eflags, cpu.cs.toUInt32, cpu.eip, event.code.getD 0, event.vector.toUInt32]

/-- What `x86_isr_common` pushes, when the stack pointer has some value before it. -/
def savedWords (cpu : Cpu) (esp : UInt32) : List UInt32 :=
  [cpu.eax, cpu.ecx, cpu.edx, cpu.ebx, esp, cpu.ebp, cpu.esi, cpu.edi, cpu.ds.toUInt32,
    cpu.es.toUInt32, cpu.fs.toUInt32, cpu.gs.toUInt32]

/-- Stack pointer between the stub and `x86_isr_common`. -/
def trapEsp (tables : X86Tables) (cpu : Cpu) : ℕ :=
  trapTop tables cpu - 4 * ((outerWords cpu).length + 5)

/-- What an event leaves on the stack up to the call, in the order it is pushed. -/
def trapWords (tables : X86Tables) (cpu : Cpu) (event : X86Event) : List UInt32 :=
  eventWords cpu event ++ savedWords cpu (UInt32.ofNat (trapEsp tables cpu))

/-- Address of the frame. -/
def trapFrame (tables : X86Tables) (cpu : Cpu) : ℕ :=
  trapTop tables cpu - 4 * ((outerWords cpu).length + 17)

theorem trapTop_lt (tables : X86Tables) (cpu : Cpu) : trapTop tables cpu < 2 ^ 32 := by
  unfold trapTop
  split
  · exact cpu.esp.toNat_lt
  · exact ByteMemory.read32_lt _ _

theorem trapStack_esp (tables : X86Tables) (cpu : Cpu) :
    (trapStack tables cpu).esp.toNat = trapTop tables cpu := by
  have bounded := trapTop_lt tables cpu
  rw [trapStack, UInt32.toNat_ofNat']
  omega

theorem outerWords_length (cpu : Cpu) : (outerWords cpu).length ≤ 2 := by
  unfold outerWords
  split
  · exact Nat.zero_le 2
  · exact le_rfl

theorem eventWords_length (cpu : Cpu) (event : X86Event) :
    (eventWords cpu event).length = (outerWords cpu).length + 5 := List.length_append

theorem trapWords_length (tables : X86Tables) (cpu : Cpu) (event : X86Event) :
    (trapWords tables cpu event).length = (outerWords cpu).length + 17 := by
  rw [trapWords, List.length_append, eventWords_length]
  rfl

theorem savePushes_eq (cpu : Cpu) : savePushes cpu = cpu.pushAll (savedWords cpu cpu.esp) := rfl

theorem call_eq (isr : IsrCode) (cpu : Cpu) :
    ((loadKernelData cpu).push (loadKernelData cpu).esp).call isr.handler isr.next =
      { loadKernelData (cpu.pushAll [cpu.esp, isr.next]) with eip := isr.handler } := rfl

/-- The words of an event and the saved registers, in one push. -/
theorem saved_eq (context : X86Context tables cpu) (reaches : event.Reaches cpu.cpl)
    (room : 84 ≤ trapTop tables cpu) :
    ∃ inner, cpu.interrupt event = some inner ∧
      savePushes (x86IsrStub event.vector inner) =
        ((trapStack tables cpu).pushAll (trapWords tables cpu event)).enter
          (tables.gate event.vector) 0 := by
  refine ⟨_, interrupt_eq context reaches, ?_⟩
  have few := outerWords_length cpu
  have words : (outerWords cpu ++ [cpu.eflags, cpu.cs.toUInt32, cpu.eip] ++ event.code.toList) ++
      stubWords event.vector = eventWords cpu event := by
    rw [List.append_assoc, code_stubWords reaches, List.append_assoc]
    rfl
  have first := (trapStack tables cpu).pushAll_eq (eventWords cpu event)
    (by rw [trapStack_esp, eventWords_length]; omega)
  rw [eventWords_length, trapStack_esp] at first
  have same (mem : ByteMemory) (gate : Gate) :
      savedWords (((trapStack tables cpu).onStack (trapEsp tables cpu) mem).enter gate 0)
        (((trapStack tables cpu).onStack (trapEsp tables cpu) mem).enter gate 0).esp =
          savedWords cpu (UInt32.ofNat (trapEsp tables cpu)) := rfl
  rw [x86IsrStub_eq, Cpu.pushAll_enter, ← Cpu.pushAll_append, words, savePushes_eq, trapWords,
    Cpu.pushAll_append (trapStack tables cpu) (eventWords cpu event), first, ← trapEsp, same,
    Cpu.pushAll_enter]

theorem enter_cs (tables : X86Tables) (cpu : Cpu) (vector : UInt8) :
    (cpu.enter (tables.gate vector) 0).cs = x86GdtSelectorKernCode := by
  change UInt16.ofNat (x86GdtSelectorKernCode.toNat / 4 * 4 + 0) = _
  decide

/-- The processor when `x86_isr_handler` is called. -/
def trapState (tables : X86Tables) (isr : IsrCode) (cpu : Cpu) (event : X86Event) : Cpu :=
  { cpu with
    eax := cpu.eax &&& 0xFFFF0000 ||| 0x10
    ds := x86GdtSelectorKernData
    es := x86GdtSelectorKernData
    fs := x86GdtSelectorKernData
    gs := x86GdtSelectorKernData
    ss := x86GdtSelectorKernData
    cs := x86GdtSelectorKernCode
    eip := isr.handler
    eflags := (cpu.enter (tables.gate event.vector) 0).eflags
    esp := UInt32.ofNat (trapFrame tables cpu - 8)
    mem := cpu.mem.pushWords (trapTop tables cpu)
      ((trapWords tables cpu event ++
        [UInt32.ofNat (trapFrame tables cpu), isr.next]).map UInt32.toNat) }

/-- Pushing below the top of a stack that lies apart from the tables keeps them. -/
theorem segmented_trapStack (context : X86Context tables cpu) (words : List UInt32)
    (room : 4 * words.length ≤ trapTop tables cpu)
    (apart : ∀ target, trapTop tables cpu - 4 * words.length ≤ target →
      target < trapTop tables cpu → ¬tables.Covers target) :
    tables.Stored (cpu.mem.pushWords (trapTop tables cpu) (words.map UInt32.toNat)) := by
  apply context.installed.stored.congr
  intro target covered _
  symm
  apply ByteMemory.pushWords_of_outside
  · rw [List.length_map]
    exact room
  · rw [List.length_map]
    by_contra inside
    rw [not_or, not_lt, not_le] at inside
    exact apart target inside.1 inside.2 covered

/-- An event is taken and its stub run, up to the call of the handler. -/
theorem trapEnter_eq (isr : IsrCode) (context : X86Context tables cpu)
    (reaches : event.Reaches cpu.cpl) (room : 84 ≤ trapTop tables cpu)
    (apart : ∀ target, trapTop tables cpu - 84 ≤ target → target < trapTop tables cpu →
      ¬tables.Covers target) :
    trapEnter isr cpu event = some (trapState tables isr cpu event) := by
  obtain ⟨inner, taken, saved⟩ := saved_eq context reaches room
  have few := outerWords_length cpu
  have top := trapStack_esp tables cpu
  have length := trapWords_length tables cpu event
  have pushed := (trapStack tables cpu).pushAll_eq (trapWords tables cpu event)
    (by rw [length]; omega)
  rw [length, top] at pushed
  have stored := segmented_trapStack context (trapWords tables cpu event)
    (by rw [length]; omega) fun target lower upper =>
      apart target (by rw [length] at lower; omega) upper
  have segmented : tables.Segmented (((trapStack tables cpu).pushAll
      (trapWords tables cpu event)).enter (tables.gate event.vector) 0) := by
    rw [pushed]
    exact ⟨context.installed.gdtr, stored.segments⟩
  have loads := segmented.dataLoads (by rw [Cpu.cpl, enter_cs]; decide)
  have all :
      (trapWords tables cpu event ++ [UInt32.ofNat (trapFrame tables cpu), isr.next]).length =
      (outerWords cpu).length + 19 := by
    rw [List.length_append, length]
    rfl
  have final := (trapStack tables cpu).pushAll_eq (trapWords tables cpu event ++
    [UInt32.ofNat (trapFrame tables cpu), isr.next]) (by rw [all, top]; omega)
  rw [Cpu.pushAll_append, pushed, top, all] at final
  have frame (mem : ByteMemory) (gate : Gate) :
      (((trapStack tables cpu).onStack (trapTop tables cpu - 4 * ((outerWords cpu).length + 17))
        mem).enter gate 0).esp = UInt32.ofNat (trapFrame tables cpu) := rfl
  have lowest : trapTop tables cpu - 4 * ((outerWords cpu).length + 19) =
      trapFrame tables cpu - 8 := by
    unfold trapFrame
    omega
  rw [trapEnter, taken]
  simp only [x86IsrCommonEnter, saved, loads, if_true]
  rw [call_eq, Cpu.pushAll_enter, pushed, frame, final, lowest, Option.some_inj]
  exact Cpu.ext rfl rfl rfl rfl rfl rfl rfl rfl rfl rfl rfl rfl rfl
    (enter_cs tables cpu event.vector) rfl rfl rfl rfl rfl rfl

end Entry

/-! ## The frame -/

/-- The frame that `x86_isr_handler` is given. An interrupted kernel pushes no stack pointer, so the
last two fields are then the words on top of its stack. -/
def savedFrame (tables : X86Tables) (cpu : Cpu) (event : X86Event) : X86InterruptFrame where
  gs := cpu.gs.toUInt32
  fs := cpu.fs.toUInt32
  es := cpu.es.toUInt32
  ds := cpu.ds.toUInt32
  edi := cpu.edi
  esi := cpu.esi
  ebp := cpu.ebp
  espDummy := UInt32.ofNat (trapEsp tables cpu)
  ebx := cpu.ebx
  edx := cpu.edx
  ecx := cpu.ecx
  eax := cpu.eax
  intNo := event.vector.toUInt32
  errCode := event.code.getD 0
  eip := cpu.eip
  cs := cpu.cs.toUInt32
  eflags := cpu.eflags
  userEsp := if cpu.cpl = 0 then UInt32.ofNat (cpu.mem.read32 cpu.esp.toNat) else cpu.esp
  userSs :=
    if cpu.cpl = 0 then UInt32.ofNat (cpu.mem.read32 (cpu.esp.toNat + 4)) else cpu.ss.toUInt32

section Frame

variable {tables : X86Tables} {cpu : Cpu}

/-- The words at the stack pointer, from the return address on. -/
theorem trapState_words (isr : IsrCode) (event : X86Event) (room : 84 ≤ trapTop tables cpu) :
    (trapState tables isr cpu event).mem.WordsAt (trapFrame tables cpu - 8)
      (isr.next.toNat :: (UInt32.ofNat (trapFrame tables cpu)).toNat ::
        ((savedWords cpu (UInt32.ofNat (trapEsp tables cpu))).reverse ++
          (eventWords cpu event).reverse).map UInt32.toNat) := by
  have few := outerWords_length cpu
  have length := trapWords_length tables cpu event
  have pushed := ByteMemory.wordsAt_pushWords cpu.mem
    ((trapWords tables cpu event ++ [UInt32.ofNat (trapFrame tables cpu), isr.next]).map
      UInt32.toNat)
    (show _ ≤ trapTop tables cpu by
      simp only [List.length_map, List.length_append, length, List.length_cons, List.length_nil]
      omega)
    (by
      intro word member
      obtain ⟨value, -, rfl⟩ := List.mem_map.mp member
      exact value.toNat_lt)
  have start : trapTop tables cpu - 4 * ((trapWords tables cpu event ++
      [UInt32.ofNat (trapFrame tables cpu), isr.next]).map UInt32.toNat).length =
        trapFrame tables cpu - 8 := by
    simp only [List.length_map, List.length_append, length, List.length_cons, List.length_nil,
      trapFrame]
    omega
  rw [start, ← List.map_reverse, List.reverse_append, trapWords, List.reverse_append] at pushed
  exact pushed

/-- The last two fields of the frame. -/
theorem trapState_outer (isr : IsrCode) (event : X86Event) (context : X86Context tables cpu)
    (room : 84 ≤ trapTop tables cpu)
    (outer : (trapState tables isr cpu event).mem.WordsAt (trapFrame tables cpu + 68)
      ((outerWords cpu).reverse.map UInt32.toNat)) :
    UInt32.ofNat ((trapState tables isr cpu event).mem.read32 (trapFrame tables cpu + 68)) =
        (savedFrame tables cpu event).userEsp ∧
      UInt32.ofNat ((trapState tables isr cpu event).mem.read32 (trapFrame tables cpu + 72)) =
        (savedFrame tables cpu event).userSs := by
  have length := trapWords_length tables cpu event
  obtain ring | ring := context.cpl
  · have top : trapTop tables cpu = cpu.esp.toNat := if_pos ring
    have none_left : outerWords cpu = [] := if_pos ring
    rw [none_left, List.length_nil] at length
    have above (target : ℕ) (high : cpu.esp.toNat ≤ target) :
        (trapState tables isr cpu event).mem target = cpu.mem target := by
      apply ByteMemory.pushWords_of_outside
      · simp only [List.length_map, List.length_append, length, List.length_cons, List.length_nil]
        omega
      · exact Or.inr (top.trans_le high)
    have frame : trapFrame tables cpu + 68 = cpu.esp.toNat := by
      rw [trapFrame, none_left, List.length_nil]
      omega
    rw [show trapFrame tables cpu + 72 = cpu.esp.toNat + 4 by omega, frame, savedFrame,
      if_pos ring, if_pos ring]
    constructor
    · rw [ByteMemory.read32_congr fun target lower _ => above target lower]
    · rw [ByteMemory.read32_congr fun target lower _ => above target (by omega)]
  · have inner : ¬cpu.cpl = 0 := by omega
    have two : outerWords cpu = [cpu.ss.toUInt32, cpu.esp] := if_neg inner
    rw [two] at outer
    obtain ⟨esp, ss, -⟩ := outer
    rw [esp, ss, UInt32.ofNat_toNat, UInt32.ofNat_toNat, savedFrame, if_neg inner, if_neg inner]
    exact ⟨rfl, rfl⟩

/-- The argument of `x86_isr_handler` is the address of the frame, and the frame holds the
interrupted context, the vector and the error code. -/
theorem trapState_frame (isr : IsrCode) (event : X86Event) (context : X86Context tables cpu)
    (room : 84 ≤ trapTop tables cpu) :
    (trapState tables isr cpu event).mem.read32 ((trapFrame tables cpu - 8) + 4) =
        trapFrame tables cpu ∧
      X86InterruptFrame.read (trapState tables isr cpu event).mem (trapFrame tables cpu) =
        savedFrame tables cpu event := by
  have words := trapState_words isr event room
  have bounded := trapTop_lt tables cpu
  have few := outerWords_length cpu
  have small : (UInt32.ofNat (trapFrame tables cpu)).toNat = trapFrame tables cpu := by
    rw [UInt32.toNat_ofNat', trapFrame]
    omega
  have base : trapFrame tables cpu - 8 + 4 + 4 = trapFrame tables cpu := by
    unfold trapFrame
    omega
  rw [ByteMemory.wordsAt_cons, ByteMemory.wordsAt_cons, base, small, List.map_append,
    ByteMemory.wordsAt_append] at words
  obtain ⟨-, argument, saved, rest⟩ := words
  refine ⟨argument, ?_⟩
  rw [eventWords, List.reverse_append, List.map_append, ByteMemory.wordsAt_append] at rest
  obtain ⟨pushed, outer⟩ := rest
  simp only [savedWords, List.reverse_cons, List.reverse_nil, List.nil_append, List.cons_append,
    List.map_cons, List.map_nil, ByteMemory.wordsAt_cons, Nat.add_assoc, Nat.reduceAdd,
    List.length_cons, List.length_nil, Nat.reduceMul] at saved pushed outer
  obtain ⟨gs, fs, es, ds, edi, esi, ebp, dummy, ebx, edx, ecx, eax, -⟩ := saved
  obtain ⟨intNo, errCode, eip, cs, eflags, -⟩ := pushed
  obtain ⟨userEsp, userSs⟩ := trapState_outer isr event context room outer
  simp only [X86InterruptFrame.read, Nat.add_zero, gs, fs, es, ds, edi, esi, ebp, dummy, ebx, edx,
    ecx, eax, intNo, errCode, eip, cs, eflags, userEsp, userSs, UInt32.ofNat_toNat]
  rfl

end Frame

end ItWorksOS
