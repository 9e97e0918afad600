import ItWorksOS.Arch.X86.Nesting
import ItWorksOS.Drivers.Irqchip.Acknowledge

/-!
# From an event to its handler

`x86_isr_handler` only sees the frame. Its fields identify the event, so that what it calls is
determined by what the processor took: exceptions report the instruction and the mode of the
program, and a request of the interrupt controllers is dispatched by the vector they delivered.
-/

namespace ItWorksOS

/-- `enum exception_type`. -/
inductive ExceptionType where
  | arithmetic
  | unknown
  deriving DecidableEq

/-- `struct exception_info`, without the frame. -/
structure ExceptionInfo where
  type : ExceptionType
  ip : UInt32
  userMode : Bool
  deriving DecidableEq

/-- What `x86_isr_handler` does: the kernel stops for a non-maskable interrupt and for an exception,
and goes on after the dispatch of a request. -/
inductive IsrOutcome (Handler : Type*) where
  | panicNmi
  | panicException (info : ExceptionInfo)
  | returned (status : Status) (system : IrqLines Handler)

/-- `x86_exception_translate`. -/
def x86ExceptionTranslate (vector : UInt32) : ExceptionType :=
  if vector = 0 then .arithmetic else .unknown

/-- `x86_exception_handler`, up to `exception_dispatch`. -/
def x86ExceptionHandler (frame : X86InterruptFrame) : ExceptionInfo where
  type := x86ExceptionTranslate frame.intNo
  ip := frame.eip
  userMode := decide (frame.cs &&& 0x3 = 3)

/-- `x86_isr_handler`, with the map of the controllers. -/
def x86IsrHandler {Handler : Type*} (body : Handler → ℕ → List (LineCall Handler))
    (system : IrqLines Handler) (map : ℕ) (frame : X86InterruptFrame) : IsrOutcome Handler :=
  let vector := frame.intNo.toUInt8
  if vector = 2 then .panicNmi
  else if vector < 32 then .panicException (x86ExceptionHandler frame)
  else
    let (status, system) := irqDispatchLines body system map frame.intNo.toNat
    .returned status system

section Dispatch

variable {Handler : Type*} {tables : X86Tables} {cpu : Cpu} {event : X86Event} {kept : Set ℕ}
  {floor limit : ℕ}

/-- The requested privilege level of the saved code segment is the level of the program. -/
theorem userMode_eq (context : X86Context tables cpu) :
    decide (cpu.cs.toUInt32 &&& 0x3 = 3) = decide (cpu.cpl = 3) := by
  obtain ⟨code, -⟩ | ⟨code, -⟩ := context.level
  · rw [Cpu.cpl, code]
    decide
  · rw [Cpu.cpl, code]
    decide

/-- What the handler does with the frame of an event. -/
theorem x86IsrHandler_savedFrame (context : X86Context tables cpu) (event : X86Event)
    (body : Handler → ℕ → List (LineCall Handler)) (system : IrqLines Handler) (map : ℕ) :
    x86IsrHandler body system map (savedFrame tables cpu event) =
      if event.vector = 2 then .panicNmi
      else if event.vector < 32 then
        .panicException
          { type := if event.vector = 0 then .arithmetic else .unknown
            ip := cpu.eip
            userMode := decide (cpu.cpl = 3) }
      else
        .returned (irqDispatchLines body system map event.vector.toNat).1
          (irqDispatchLines body system map event.vector.toNat).2 := by
  have vector : (savedFrame tables cpu event).intNo.toUInt8 = event.vector := by
    change event.vector.toUInt32.toUInt8 = event.vector
    simp
  have number : (savedFrame tables cpu event).intNo.toNat = event.vector.toNat := by
    change event.vector.toUInt32.toNat = event.vector.toNat
    simp
  have zero : event.vector.toUInt32 = 0 ↔ event.vector = 0 := by
    rw [← UInt32.toNat_inj, ← UInt8.toNat_inj]
    simp
  have info : x86ExceptionHandler (savedFrame tables cpu event) =
      { type := if event.vector = 0 then .arithmetic else .unknown
        ip := cpu.eip
        userMode := decide (cpu.cpl = 3) } := by
    rw [← userMode_eq context, x86ExceptionHandler, x86ExceptionTranslate]
    congr 1
    exact if_congr zero rfl rfl
  rw [x86IsrHandler]
  simp only [vector, number, info]

/-- An event is handled as its vector says, with the context of the program it interrupted. -/
theorem trap_dispatches (takes : Takes tables floor limit cpu event)
    (guards : tables.Guards kept floor limit) (isr : IsrCode)
    (body : Handler → ℕ → List (LineCall Handler)) (system : IrqLines Handler) (map : ℕ) :
    ∃ entered, trapEnter isr cpu event = some entered ∧
      x86IsrHandler body system map
          (X86InterruptFrame.read entered.mem (entered.mem.read32 (entered.esp.toNat + 4))) =
        if event.vector = 2 then .panicNmi
        else if event.vector < 32 then
          .panicException
            { type := if event.vector = 0 then .arithmetic else .unknown
              ip := cpu.eip
              userMode := decide (cpu.cpl = 3) }
        else
          .returned (irqDispatchLines body system map event.vector.toNat).1
            (irqDispatchLines body system map event.vector.toNat).2 := by
  obtain ⟨enter, frame⟩ := takes.trapState_frame guards isr
  refine ⟨trapState tables isr cpu event, enter, ?_⟩
  rw [frame, x86IsrHandler_savedFrame takes.context]

/-- A request that the controllers deliver reaches the dispatch of its line. -/
theorem arrival_dispatches (system : IrqLines Handler) (remapped : system.pic.Remapped)
    (arrival : Arrival) (arrives : arrival.Arrives system.pic)
    (delivered : event = .external (UInt8.ofNat (system.pic.acknowledge arrival).2))
    (takes : Takes tables floor limit cpu event) (guards : tables.Guards kept floor limit)
    (isr : IsrCode) (body : Handler → ℕ → List (LineCall Handler)) (map : ℕ) :
    ∃ entered, trapEnter isr cpu event = some entered ∧
      x86IsrHandler body { system with pic := (system.pic.acknowledge arrival).1 } map
          (X86InterruptFrame.read entered.mem (entered.mem.read32 (entered.esp.toNat + 4))) =
        .returned (interrupt body system map arrival).1 (interrupt body system map arrival).2 := by
  have range : 32 ≤ (system.pic.acknowledge arrival).2 ∧
      (system.pic.acknowledge arrival).2 < 48 := by
    cases arrival with
    | line hwirq =>
        have few := arrives.1
        rw [Pic.acknowledge]
        split
        · simp only [remapped.2, i8259SlaveVectorOffset]
          omega
        · simp only [remapped.1, i8259MasterVectorOffset]
          omega
    | spuriousMaster =>
        rw [Pic.acknowledge, remapped.1]
        exact ⟨Nat.le_of_ble_eq_true rfl, Nat.le_of_ble_eq_true rfl⟩
    | spuriousSlave =>
        rw [Pic.acknowledge, remapped.2]
        exact ⟨Nat.le_of_ble_eq_true rfl, Nat.le_of_ble_eq_true rfl⟩
  have number : event.vector.toNat = (system.pic.acknowledge arrival).2 := by
    rw [delivered, X86Event.vector, UInt8.toNat_ofNat']
    omega
  have other : ¬event.vector = 2 := by
    rw [← UInt8.toNat_inj, number]
    change ¬_ = 2
    omega
  have late : ¬event.vector < 32 := by
    rw [UInt8.lt_iff_toNat_lt, number]
    change ¬_ < 32
    omega
  obtain ⟨enter, frame⟩ := takes.trapState_frame guards isr
  refine ⟨trapState tables isr cpu event, enter, ?_⟩
  rw [frame, x86IsrHandler_savedFrame takes.context, if_neg other, if_neg late, number]
  rfl

end Dispatch

/-- The line of the keyboard has a handler and is enabled. -/
def keyboardLines : IrqLines Unit := bootLines [.request 1 () 0, .enable 1]

theorem trap_dispatches_boot : ∃ entered, trapEnter { handler := 0x200000, next := 0x200100 }
      (archReady lowTables bootCpu) (.external 0x21) = some entered ∧
    x86IsrHandler (fun _ _ => []) keyboardLines 0x1000
        (X86InterruptFrame.read entered.mem (entered.mem.read32 (entered.esp.toNat + 4))) =
      .returned (irqDispatchLines (fun _ _ => []) keyboardLines 0x1000 0x21).1
        (irqDispatchLines (fun _ _ => []) keyboardLines 0x1000 0x21).2 :=
  trap_dispatches boot_takes (lowTables_guards (by decide) (by decide))
    { handler := 0x200000, next := 0x200100 } (fun _ _ => []) keyboardLines 0x1000

theorem arrival_dispatches_boot : ∃ entered, trapEnter { handler := 0x200000, next := 0x200100 }
      (archReady lowTables bootCpu) (.external 0x21) = some entered ∧
    x86IsrHandler (fun _ _ => [])
        { keyboardLines with pic := (keyboardLines.pic.acknowledge (.line 1)).1 } 0x1000
        (X86InterruptFrame.read entered.mem (entered.mem.read32 (entered.esp.toNat + 4))) =
      .returned (interrupt (fun _ _ => []) keyboardLines 0x1000 (.line 1)).1
        (interrupt (fun _ _ => []) keyboardLines 0x1000 (.line 1)).2 :=
  arrival_dispatches keyboardLines ⟨by decide +kernel, by decide +kernel⟩ (.line 1)
    ⟨by decide, by decide +kernel⟩ (by decide +kernel) boot_takes
    (lowTables_guards (by decide) (by decide))
    { handler := 0x200000, next := 0x200100 } (fun _ _ => []) 0x1000

end ItWorksOS
