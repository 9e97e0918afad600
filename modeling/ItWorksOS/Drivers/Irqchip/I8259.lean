import ItWorksOS.Irq.Descriptors

/-!
# The 8259 interrupt controllers

Master and slave keep the interrupts in service until they are told the end of the interrupt. The
driver talks to them through a command and a data port each: it gives them their vectors, masks all
lines and configures the interrupt numbers of the lines.
-/

namespace ItWorksOS

/-- Vector of the first line of the master. -/
abbrev i8259MasterVectorOffset : ℕ := 0x20

/-- Vector of the first line of the slave. -/
abbrev i8259SlaveVectorOffset : ℕ := 0x28

/-- End of interrupt. -/
def i8259Ocw2Eoi : BitVec 8 := 0x20

/-- Select the in-service register. -/
def i8259Ocw3ReadIsr : BitVec 8 := 0x0B

/-- Select the interrupt request register. -/
def i8259Ocw3ReadIrr : BitVec 8 := 0x0A

/-- `BIT(n)` as an 8-bit mask. -/
def picBit (n : ℕ) : BitVec 8 := 1 <<< n

/-- One controller: mask, in-service and request registers, the selected register, the vector of
its first line, and how often the end of an interrupt was signalled. -/
structure PicUnit where
  imr : BitVec 8
  isr : BitVec 8
  irr : BitVec 8
  readIsr : Bool
  offset : ℕ
  eois : ℕ

/-- Write ICW1 to the command port and ICW2 to ICW4 to the data port. The first word clears the mask
and selects the request register, the second one sets the vectors; lines in service stay so. -/
def PicUnit.writeInit (unit : PicUnit) (offset : ℕ) : PicUnit :=
  { unit with imr := 0, readIsr := false, offset }

/-- Write the command port. The end of interrupt is that of the lowest line in service. -/
def PicUnit.writeCommand (unit : PicUnit) (value : BitVec 8) : PicUnit :=
  if value = i8259Ocw2Eoi then
    { unit with isr := unit.isr &&& (unit.isr - 1), eois := unit.eois + 1 }
  else if value = i8259Ocw3ReadIsr then { unit with readIsr := true }
  else if value = i8259Ocw3ReadIrr then { unit with readIsr := false }
  else unit

/-- Read the command port. -/
def PicUnit.readCommand (unit : PicUnit) : BitVec 8 := if unit.readIsr then unit.isr else unit.irr

/-- Read the data port. -/
def PicUnit.readData (unit : PicUnit) : BitVec 8 := unit.imr

/-- Write the data port of an initialized controller. -/
def PicUnit.writeData (unit : PicUnit) (mask : BitVec 8) : PicUnit := { unit with imr := mask }

/-- Both controllers. -/
structure Pic where
  master : PicUnit
  slave : PicUnit

/-- Set the vectors of both controllers, and restore their masks. -/
def i8259Remap (pic : Pic) (masterOffset slaveOffset : ℕ) : Pic :=
  let mask1 := pic.master.readData
  let mask2 := pic.slave.readData
  { master := (pic.master.writeInit masterOffset).writeData mask1
    slave := (pic.slave.writeInit slaveOffset).writeData mask2 }

/-- Disable all lines. -/
def i8259MaskAll (pic : Pic) : Pic where
  master := pic.master.writeData 0xFF
  slave := pic.slave.writeData 0xFF

/-- Disable a line, and the cascade line with the last line of the slave. -/
def i8259MaskIrq (pic : Pic) (hwirq : ℕ) : Pic :=
  if 8 ≤ hwirq then
    let mask := pic.slave.readData ||| picBit (hwirq - 8)
    let pic := { pic with slave := pic.slave.writeData mask }
    if mask = 0xFF then
      { pic with master := pic.master.writeData (pic.master.readData ||| picBit 2) }
    else pic
  else { pic with master := pic.master.writeData (pic.master.readData ||| picBit hwirq) }

/-- Enable a line, and the cascade line with a line of the slave. -/
def i8259UnmaskIrq (pic : Pic) (hwirq : ℕ) : Pic :=
  if 8 ≤ hwirq then
    { master := pic.master.writeData (pic.master.readData &&& ~~~picBit 2)
      slave := pic.slave.writeData (pic.slave.readData &&& ~~~picBit (hwirq - 8)) }
  else { pic with master := pic.master.writeData (pic.master.readData &&& ~~~picBit hwirq) }

/-- Signal the end of an interrupt. -/
def i8259SendEoi (pic : Pic) (hwirq : ℕ) : Pic :=
  let pic :=
    if 8 ≤ hwirq then { pic with slave := pic.slave.writeCommand i8259Ocw2Eoi } else pic
  { pic with master := pic.master.writeCommand i8259Ocw2Eoi }

/-- Read both in-service registers. -/
def i8259ReadIsr (pic : Pic) : BitVec 16 × Pic :=
  let master := pic.master.writeCommand i8259Ocw3ReadIsr
  let slave := pic.slave.writeCommand i8259Ocw3ReadIsr
  (master.readCommand.setWidth 16 ||| slave.readCommand.setWidth 16 <<< 8, { master, slave })

/-- Line 7 or 15 was raised without being in service. -/
def i8259IsSpurious (pic : Pic) (hwirq : ℕ) : Bool × Pic :=
  if hwirq ≠ 7 ∧ hwirq ≠ 15 then (false, pic)
  else
    let (isr, pic) := i8259ReadIsr pic
    if isr &&& (1 : BitVec 16) <<< hwirq ≠ 0 then (false, pic) else (true, pic)

/-- The line of a vector. -/
def i8259Hwirq (vector : ℕ) : Option ℕ :=
  if i8259MasterVectorOffset ≤ vector ∧ vector < i8259MasterVectorOffset + 8 then
    some (vector - i8259MasterVectorOffset)
  else if i8259SlaveVectorOffset ≤ vector ∧ vector < i8259SlaveVectorOffset + 8 then
    some (8 + (vector - i8259SlaveVectorOffset))
  else none

/-- The line of a vector, unless the interrupt is spurious. -/
def i8259HandleVector (pic : Pic) (vector : ℕ) : Except KError ℕ × Pic :=
  match i8259Hwirq vector with
  | none => (.error .noent, pic)
  | some hwirq =>
      match i8259IsSpurious pic hwirq with
      | (true, pic) =>
          if hwirq = 15 then
            (.error .noent, { pic with master := pic.master.writeCommand i8259Ocw2Eoi })
          else (.error .noent, pic)
      | (false, pic) => (.ok hwirq, pic)

/-! ## Lines -/

/-- The interrupt subsystem and the controllers. -/
structure IrqLines (Handler : Type*) where
  irqs : IrqState Handler
  pic : Pic

variable {Handler : Type*}

/-- `i8259_init`, with the address of the map and the chip of the driver. -/
def i8259Init (system : IrqLines Handler) (map : ℕ) (chip : IrqChip) :
    Status × IrqLines Handler :=
  let pic := i8259Remap system.pic i8259MasterVectorOffset i8259SlaveVectorOffset
  let pic := i8259MaskAll pic
  let (status, irqs) := kerrTry (irqMapInit system.irqs map "i8259-pic-map" 0 16) fun irqs =>
    irqMapConfigure irqs map chip (irqs.maps map).count
  (status, { irqs, pic })

/-- `irq_enable`. -/
def irqEnable (system : IrqLines Handler) (irq : ℕ) : Status × IrqLines Handler :=
  if irqMax ≤ irq then (.error .inval, system)
  else if (system.irqs.irqDescs irq).chip.isNone then (.error .noent, system)
  else
    (.ok (), { system with
      pic := i8259UnmaskIrq system.pic (system.irqs.irqDescs irq).hwirq })

/-- `irq_disable`. -/
def irqDisable (system : IrqLines Handler) (irq : ℕ) : Status × IrqLines Handler :=
  if irqMax ≤ irq then (.error .inval, system)
  else if (system.irqs.irqDescs irq).chip.isNone then (.error .noent, system)
  else
    (.ok (), { system with
      pic := i8259MaskIrq system.pic (system.irqs.irqDescs irq).hwirq })

/-- The calls of drivers. -/
inductive LineCall (Handler : Type*) where
  | request (irq : ℕ) (handler : Handler) (devId : ℕ)
  | free (irq : ℕ)
  | enable (irq : ℕ)
  | disable (irq : ℕ)

/-- One call. -/
def lineCall (system : IrqLines Handler) : LineCall Handler → IrqLines Handler
  | .request irq handler devId =>
      { system with irqs := (irqRequest system.irqs irq handler devId).2 }
  | .free irq => { system with irqs := (irqFree system.irqs irq).2 }
  | .enable irq => (irqEnable system irq).2
  | .disable irq => (irqDisable system irq).2

/-- `irq_dispatch`, with the effects of the controller and of the handler. A handler makes calls of
its own. -/
def irqDispatchLines (body : Handler → ℕ → List (LineCall Handler)) (system : IrqLines Handler)
    (map vector : ℕ) : Status × IrqLines Handler :=
  match i8259HandleVector system.pic vector with
  | (.error error, pic) => (.error error, { system with pic })
  | (.ok hwirq, pic) =>
      let system := { system with pic }
      let irq := irqMapHwirqToIrq (system.irqs.maps map) hwirq
      if irq = irqInvalid then (.error .noent, system)
      else if irqMax ≤ irq then (.error .noent, system)
      else
        match (system.irqs.irqDescs irq).handler with
        | none => (.error .noent, system)
        | some handler =>
            let system := (body handler (system.irqs.irqDescs irq).devId).foldl lineCall system
            (.ok (), { system with
              pic := i8259SendEoi system.pic (system.irqs.irqDescs irq).hwirq })

/-- An interrupt: a line was raised, or the request went away before it was acknowledged. -/
inductive Arrival
  | line (hwirq : ℕ)
  | spuriousMaster
  | spuriousSlave

/-- The controllers when the processor acknowledges the interrupt, and its vector. -/
def Pic.acknowledge (pic : Pic) : Arrival → Pic × ℕ
  | .line hwirq =>
      if 8 ≤ hwirq then
        ({ master := { pic.master with isr := pic.master.isr ||| picBit 2 }
           slave := { pic.slave with isr := pic.slave.isr ||| picBit (hwirq - 8) } },
          pic.slave.offset + (hwirq - 8))
      else
        ({ pic with master := { pic.master with isr := pic.master.isr ||| picBit hwirq } },
          pic.master.offset + hwirq)
  | .spuriousMaster => (pic, pic.master.offset + 7)
  | .spuriousSlave =>
      ({ pic with master := { pic.master with isr := pic.master.isr ||| picBit 2 } },
        pic.slave.offset + 7)

/-- The line is not masked. -/
def Pic.Unmasked (pic : Pic) (hwirq : ℕ) : Prop :=
  if 8 ≤ hwirq then pic.slave.imr &&& picBit (hwirq - 8) = 0 ∧ pic.master.imr &&& picBit 2 = 0
  else pic.master.imr &&& picBit hwirq = 0

instance (pic : Pic) (hwirq : ℕ) : Decidable (pic.Unmasked hwirq) :=
  if slave : 8 ≤ hwirq then decidable_of_iff
    (pic.slave.imr &&& picBit (hwirq - 8) = 0 ∧ pic.master.imr &&& picBit 2 = 0)
    (by rw [Pic.Unmasked, if_pos slave])
  else decidable_of_iff (pic.master.imr &&& picBit hwirq = 0) (by rw [Pic.Unmasked, if_neg slave])

/-- The interrupt can arrive: its line is one of the 16 and not masked. -/
def Arrival.Arrives (pic : Pic) : Arrival → Prop
  | .line hwirq => hwirq < 16 ∧ pic.Unmasked hwirq
  | .spuriousMaster => True
  | .spuriousSlave => True

/-- The line has a handler. -/
def Arrival.Handled (irqs : IrqState Handler) (map : ℕ) : Arrival → Prop
  | .line hwirq => (irqs.irqDescs (irqMapHwirqToIrq (irqs.maps map) hwirq)).handler.isSome
  | .spuriousMaster => True
  | .spuriousSlave => True

/-- How often master and slave are to be told the end of the interrupt. -/
def Arrival.eois : Arrival → ℕ × ℕ
  | .line hwirq => (1, if 8 ≤ hwirq then 1 else 0)
  | .spuriousMaster => (0, 0)
  | .spuriousSlave => (1, 0)

/-- An interrupt with its dispatch. -/
def interrupt (body : Handler → ℕ → List (LineCall Handler)) (system : IrqLines Handler)
    (map : ℕ) (arrival : Arrival) : Status × IrqLines Handler :=
  irqDispatchLines body { system with pic := (system.pic.acknowledge arrival).1 } map
    (system.pic.acknowledge arrival).2

/-- Both controllers deliver the vectors of the driver. -/
def Pic.Remapped (pic : Pic) : Prop :=
  pic.master.offset = i8259MasterVectorOffset ∧ pic.slave.offset = i8259SlaveVectorOffset

/-- No interrupt is in service. -/
def Pic.Idle (pic : Pic) : Prop := pic.master.isr = 0 ∧ pic.slave.isr = 0

/-- The interrupt was acknowledged: the right number of ends was signalled to each controller, and
no interrupt is left in service. -/
structure Acknowledged (before after : Pic) (arrival : Arrival) : Prop where
  master : after.master.eois = before.master.eois + arrival.eois.1
  slave : after.slave.eois = before.slave.eois + arrival.eois.2
  idle : after.Idle

end ItWorksOS
