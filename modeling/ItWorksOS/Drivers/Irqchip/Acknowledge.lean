import ItWorksOS.Drivers.Irqchip.I8259

/-!
# Acknowledged interrupts

As long as every interrupt that arrives finds a handler, each is acknowledged exactly once and none
is left in service, in any order of the calls of drivers and handlers.
-/

namespace ItWorksOS

variable {Handler : Type*}

/-- Registers in service, counts of ends and vectors are the same. -/
structure Pic.SameService (before after : Pic) : Prop where
  masterIsr : after.master.isr = before.master.isr
  masterEois : after.master.eois = before.master.eois
  slaveIsr : after.slave.isr = before.slave.isr
  slaveEois : after.slave.eois = before.slave.eois
  masterOffset : after.master.offset = before.master.offset
  slaveOffset : after.slave.offset = before.slave.offset

/-- The lines of the controllers are numbers of the map, and their descriptors are configured. -/
structure LinesConfigured (irqs : IrqState Handler) (map : ℕ) : Prop where
  firstHwirq : (irqs.maps map).firstHwirq = 0
  count : (irqs.maps map).count = 16
  inside : (irqs.maps map).firstIrq + 16 ≤ irqMax
  hwirq : ∀ h < 16, (irqs.irqDescs ((irqs.maps map).firstIrq + h)).hwirq = h

/-- Steps of a run in which every interrupt that arrives finds a handler. -/
inductive LineStep (body : Handler → ℕ → List (LineCall Handler)) (map : ℕ) :
    IrqLines Handler → IrqLines Handler → Prop
  | call {system : IrqLines Handler} (call : LineCall Handler) :
      LineStep body map system (lineCall system call)
  | interrupt {system : IrqLines Handler} {arrival : Arrival}
      (arrives : arrival.Arrives system.pic) (handled : arrival.Handled system.irqs map) :
      LineStep body map system (interrupt body system map arrival).2

/-! ## Controllers -/

section Controllers

variable {pic pic' pic'' : Pic}

theorem Pic.SameService.refl (pic : Pic) : pic.SameService pic :=
  ⟨rfl, rfl, rfl, rfl, rfl, rfl⟩

theorem Pic.SameService.trans (first : pic.SameService pic') (second : pic'.SameService pic'') :
    pic.SameService pic'' :=
  ⟨second.masterIsr.trans first.masterIsr, second.masterEois.trans first.masterEois,
    second.slaveIsr.trans first.slaveIsr, second.slaveEois.trans first.slaveEois,
    second.masterOffset.trans first.masterOffset, second.slaveOffset.trans first.slaveOffset⟩

theorem Pic.SameService.remapped (same : pic.SameService pic') (remapped : pic.Remapped) :
    pic'.Remapped :=
  ⟨same.masterOffset.trans remapped.1, same.slaveOffset.trans remapped.2⟩

theorem Pic.Remapped.acknowledge (remapped : pic.Remapped) (arrival : Arrival) :
    (pic.acknowledge arrival).1.Remapped := by
  cases arrival with
  | line hwirq =>
      rw [Pic.acknowledge]
      split_ifs
      · exact remapped
      · exact remapped
  | spuriousMaster => exact remapped
  | spuriousSlave => exact remapped

theorem PicUnit.writeCommand_offset (unit : PicUnit) (value : BitVec 8) :
    (unit.writeCommand value).offset = unit.offset := by
  rw [writeCommand]
  split_ifs
  all_goals rfl

theorem i8259MaskIrq_sameService (pic : Pic) (hwirq : ℕ) :
    pic.SameService (i8259MaskIrq pic hwirq) := by
  rw [i8259MaskIrq]
  dsimp only
  split_ifs
  · exact ⟨rfl, rfl, rfl, rfl, rfl, rfl⟩
  · exact ⟨rfl, rfl, rfl, rfl, rfl, rfl⟩
  · exact ⟨rfl, rfl, rfl, rfl, rfl, rfl⟩

theorem i8259UnmaskIrq_sameService (pic : Pic) (hwirq : ℕ) :
    pic.SameService (i8259UnmaskIrq pic hwirq) := by
  rw [i8259UnmaskIrq]
  split_ifs
  · exact ⟨rfl, rfl, rfl, rfl, rfl, rfl⟩
  · exact ⟨rfl, rfl, rfl, rfl, rfl, rfl⟩

theorem i8259ReadIsr_eq (pic : Pic) :
    i8259ReadIsr pic = (pic.master.isr.setWidth 16 ||| pic.slave.isr.setWidth 16 <<< 8,
      { master := { pic.master with readIsr := true }
        slave := { pic.slave with readIsr := true } }) := rfl

/-- A line that was not raised by accident is in service. -/
theorem i8259IsSpurious_eq (pic : Pic) (hwirq : ℕ) :
    ∃ pic', pic.SameService pic' ∧
      i8259IsSpurious pic hwirq = (decide ((hwirq = 7 ∨ hwirq = 15) ∧
        (pic.master.isr.setWidth 16 ||| pic.slave.isr.setWidth 16 <<< 8) &&&
          (1 : BitVec 16) <<< hwirq = 0), pic') := by
  rw [i8259IsSpurious]
  split_ifs with other
  · refine ⟨pic, .refl pic, ?_⟩
    rw [decide_eq_false]
    rintro ⟨seven | fifteen, -⟩
    · exact other.1 seven
    · exact other.2 fifteen
  · have last : hwirq = 7 ∨ hwirq = 15 := by
      rw [not_and_or, not_not, not_not] at other
      exact other
    refine ⟨{ master := { pic.master with readIsr := true }
              slave := { pic.slave with readIsr := true } }, ⟨rfl, rfl, rfl, rfl, rfl, rfl⟩, ?_⟩
    rw [i8259ReadIsr_eq]
    simp only [last, true_and]
    split_ifs with clear
    · rw [decide_eq_false clear]
    · rw [decide_eq_true (not_not.mp clear)]

theorem i8259Hwirq_eq {hwirq : ℕ} (hwirq_lt : hwirq < 16) :
    i8259Hwirq (32 + hwirq) = some hwirq := by
  unfold i8259Hwirq i8259MasterVectorOffset i8259SlaveVectorOffset
  split_ifs
  · exact congrArg some (by omega)
  · exact congrArg some (by omega)
  · omega

theorem i8259HandleVector_line {hwirq : ℕ} (hwirq_lt : hwirq < 16) (idle : pic.Idle)
    (remapped : pic.Remapped) :
    ∃ pic', (pic.acknowledge (.line hwirq)).1.SameService pic' ∧
      i8259HandleVector (pic.acknowledge (.line hwirq)).1 (pic.acknowledge (.line hwirq)).2 =
        (.ok hwirq, pic') := by
  obtain ⟨pic', same, spurious⟩ := i8259IsSpurious_eq (pic.acknowledge (.line hwirq)).1 hwirq
  refine ⟨pic', same, ?_⟩
  have genuine : i8259IsSpurious (pic.acknowledge (.line hwirq)).1 hwirq = (false, pic') := by
    rw [spurious, decide_eq_false]
    rintro ⟨rfl | rfl, clear⟩
    · revert clear
      simp only [Pic.acknowledge, show ¬ 8 ≤ 7 by decide, if_false, idle.1, idle.2]
      decide
    · revert clear
      simp only [Pic.acknowledge, show 8 ≤ 15 by decide, if_true, idle.1, idle.2]
      decide
  have vector_eq : (pic.acknowledge (.line hwirq)).2 = 32 + hwirq := by
    rw [Pic.acknowledge]
    split_ifs with slave
    · show pic.slave.offset + (hwirq - 8) = 32 + hwirq
      rw [remapped.2]
      unfold i8259SlaveVectorOffset
      omega
    · show pic.master.offset + hwirq = 32 + hwirq
      rw [remapped.1]
  rw [i8259HandleVector, vector_eq, i8259Hwirq_eq hwirq_lt]
  simp only [genuine]

/-- A spurious interrupt of the master is not acknowledged. -/
theorem i8259HandleVector_spuriousMaster (idle : pic.Idle) (remapped : pic.Remapped) :
    ∃ pic', pic.SameService pic' ∧
      i8259HandleVector (pic.acknowledge .spuriousMaster).1
        (pic.acknowledge .spuriousMaster).2 = (.error .noent, pic') := by
  obtain ⟨pic', same, spurious⟩ := i8259IsSpurious_eq pic 7
  have clear : i8259IsSpurious pic 7 = (true, pic') := by
    rw [spurious, idle.1, idle.2]
    rfl
  refine ⟨pic', same, ?_⟩
  have vector_eq : i8259Hwirq (pic.acknowledge .spuriousMaster).2 = some 7 := by
    rw [Pic.acknowledge, remapped.1]
    rfl
  have same_pic : (pic.acknowledge .spuriousMaster).1 = pic := rfl
  rw [i8259HandleVector, vector_eq, same_pic]
  simp only [clear, show ¬ 7 = 15 by decide, if_false]

/-- A spurious interrupt of the slave is acknowledged by the master only. -/
theorem i8259HandleVector_spuriousSlave (idle : pic.Idle) (remapped : pic.Remapped) :
    ∃ pic', (pic.acknowledge .spuriousSlave).1.SameService pic' ∧
      i8259HandleVector (pic.acknowledge .spuriousSlave).1 (pic.acknowledge .spuriousSlave).2 =
        (.error .noent, { pic' with master := pic'.master.writeCommand i8259Ocw2Eoi }) := by
  obtain ⟨pic', same, spurious⟩ := i8259IsSpurious_eq (pic.acknowledge .spuriousSlave).1 15
  have clear : i8259IsSpurious (pic.acknowledge .spuriousSlave).1 15 = (true, pic') := by
    rw [spurious]
    simp only [Pic.acknowledge, idle.1, idle.2]
    rfl
  refine ⟨pic', same, ?_⟩
  have vector_eq : i8259Hwirq (pic.acknowledge .spuriousSlave).2 = some 15 := by
    rw [Pic.acknowledge, remapped.2]
    rfl
  rw [i8259HandleVector, vector_eq]
  simp only [clear, if_true]

theorem Pic.Remapped.sendEoi (remapped : pic.Remapped) (hwirq : ℕ) :
    (i8259SendEoi pic hwirq).Remapped := by
  rw [i8259SendEoi]
  split_ifs
  · exact ⟨(PicUnit.writeCommand_offset ..).trans remapped.1,
      (PicUnit.writeCommand_offset ..).trans remapped.2⟩
  · exact ⟨(PicUnit.writeCommand_offset ..).trans remapped.1, remapped.2⟩

/-- The end of the only interrupt in service leaves none. -/
theorem i8259SendEoi_acknowledged {hwirq : ℕ} (hwirq_lt : hwirq < 16) (idle : pic.Idle)
    (same : (pic.acknowledge (.line hwirq)).1.SameService pic') :
    Acknowledged pic (i8259SendEoi pic' hwirq) (.line hwirq) := by
  have ended : ∀ line < 8, (0 ||| picBit line) &&& ((0 ||| picBit line) - 1) = 0 := by decide
  rw [Pic.acknowledge] at same
  obtain ⟨masterIsr, masterEois, slaveIsr, slaveEois, -, -⟩ := same
  rw [i8259SendEoi]
  by_cases slave : 8 ≤ hwirq
  · simp only [slave, if_true, idle.1, idle.2] at masterIsr masterEois slaveIsr slaveEois ⊢
    refine ⟨?_, ?_, ?_, ?_⟩
    · simp only [PicUnit.writeCommand, if_true, masterEois, Arrival.eois]
    · simp only [PicUnit.writeCommand, if_true, slaveEois, Arrival.eois, slave]
    · simp only [PicUnit.writeCommand, if_true, masterIsr]
      exact ended 2 (by decide)
    · simp only [PicUnit.writeCommand, if_true, slaveIsr]
      exact ended (hwirq - 8) (by omega)
  · simp only [slave, if_false, idle.1, idle.2] at masterIsr masterEois slaveIsr slaveEois ⊢
    refine ⟨?_, ?_, ?_, ?_⟩
    · simp only [PicUnit.writeCommand, if_true, masterEois, Arrival.eois]
    · simp only [slaveEois, Arrival.eois, slave, if_false, Nat.add_zero]
    · simp only [PicUnit.writeCommand, if_true, masterIsr]
      exact ended hwirq (by omega)
    · exact slaveIsr

end Controllers

/-! ## Lines -/

section Lines

variable {body : Handler → ℕ → List (LineCall Handler)} {system system' : IrqLines Handler}
  {map : ℕ}

theorem LinesConfigured.irq_eq {irqs : IrqState Handler} (configured : LinesConfigured irqs map)
    {hwirq : ℕ} (hwirq_lt : hwirq < 16) :
    irqMapHwirqToIrq (irqs.maps map) hwirq = (irqs.maps map).firstIrq + hwirq ∧
      (irqs.maps map).firstIrq + hwirq < irqMax := by
  have inside := configured.inside
  have mapped : (irqs.maps map).Maps hwirq := by
    rw [IrqMap.Maps, configured.firstHwirq, configured.count]
    omega
  obtain ⟨value, -⟩ := irqMapHwirqToIrq_inside
    (by rw [configured.firstHwirq, configured.count]; decide)
    (by rw [configured.count]; exact inside) mapped
  rw [configured.firstHwirq, Nat.sub_zero] at value
  exact ⟨value, by omega⟩

/-- Changing handlers keeps the configuration. -/
theorem LinesConfigured.update {irqs : IrqState Handler} (configured : LinesConfigured irqs map)
    {irq : ℕ} {desc : IrqDesc Handler} (same : desc.hwirq = (irqs.irqDescs irq).hwirq) :
    LinesConfigured { irqs with irqDescs := Function.update irqs.irqDescs irq desc } map := by
  refine ⟨configured.firstHwirq, configured.count, configured.inside, fun h h_lt => ?_⟩
  simp only [Function.update_apply]
  split_ifs with at_irq
  · rw [same, ← at_irq]
    exact configured.hwirq h h_lt
  · exact configured.hwirq h h_lt

/-- Calls keep the lines in service and the configuration. -/
theorem lineCall_keeps (configured : LinesConfigured system.irqs map)
    (call : LineCall Handler) :
    system.pic.SameService (lineCall system call).pic ∧
      LinesConfigured (lineCall system call).irqs map ∧
      (lineCall system call).irqs.maps = system.irqs.maps := by
  cases call with
  | request irq handler devId =>
      rw [lineCall]
      rcases irqRequest_cases system.irqs irq handler devId with
        ⟨_, failed⟩ | ⟨-, -, -, requested⟩
      · rw [failed]
        exact ⟨.refl _, configured, rfl⟩
      · rw [requested]
        exact ⟨.refl _, configured.update rfl, rfl⟩
  | free irq =>
      rw [lineCall]
      rcases irqFree_cases system.irqs irq with ⟨_, failed⟩ | ⟨-, freed⟩
      · rw [failed]
        exact ⟨.refl _, configured, rfl⟩
      · rw [freed]
        exact ⟨.refl _, configured.update rfl, rfl⟩
  | enable irq =>
      rw [lineCall, irqEnable]
      split_ifs
      · exact ⟨.refl _, configured, rfl⟩
      · exact ⟨.refl _, configured, rfl⟩
      · exact ⟨i8259UnmaskIrq_sameService _ _, configured, rfl⟩
  | disable irq =>
      rw [lineCall, irqDisable]
      split_ifs
      · exact ⟨.refl _, configured, rfl⟩
      · exact ⟨.refl _, configured, rfl⟩
      · exact ⟨i8259MaskIrq_sameService _ _, configured, rfl⟩

theorem lineCall_foldl_keeps (configured : LinesConfigured system.irqs map)
    (calls : List (LineCall Handler)) :
    system.pic.SameService (calls.foldl lineCall system).pic ∧
      LinesConfigured (calls.foldl lineCall system).irqs map ∧
      (calls.foldl lineCall system).irqs.maps = system.irqs.maps := by
  induction calls generalizing system with
  | nil => exact ⟨.refl _, configured, rfl⟩
  | cons call calls induction =>
      obtain ⟨same, configured, maps_eq⟩ := lineCall_keeps configured call
      obtain ⟨same', configured', maps_eq'⟩ := induction configured
      exact ⟨same.trans same', configured', maps_eq'.trans maps_eq⟩

variable (body) in
/-- An interrupt of a line is acknowledged exactly if the line has a handler. -/
theorem interrupt_line (configured : LinesConfigured system.irqs map) (idle : system.pic.Idle)
    (remapped : system.pic.Remapped) {hwirq : ℕ} (hwirq_lt : hwirq < 16) :
    LinesConfigured (interrupt body system map (.line hwirq)).2.irqs map ∧
      (interrupt body system map (.line hwirq)).2.pic.Remapped ∧
      (Acknowledged system.pic (interrupt body system map (.line hwirq)).2.pic (.line hwirq) ↔
        (Arrival.line hwirq).Handled system.irqs map) := by
  obtain ⟨pic, same, accepted⟩ := i8259HandleVector_line hwirq_lt idle remapped
  have delivered := remapped.acknowledge (.line hwirq)
  obtain ⟨irq_eq, irq_lt⟩ := configured.irq_eq hwirq_lt
  have valid : (system.irqs.maps map).firstIrq + hwirq ≠ irqInvalid := by
    have small : irqMax < irqInvalid := by decide
    omega
  rw [interrupt, irqDispatchLines]
  simp only [accepted, irq_eq, if_neg valid, if_neg (Nat.not_le.mpr irq_lt), Arrival.Handled]
  cases registered : (system.irqs.irqDescs ((system.irqs.maps map).firstIrq + hwirq)).handler with
  | none =>
      refine ⟨configured, same.remapped delivered,
        iff_of_false (fun acknowledged => ?_) Bool.false_ne_true⟩
      have master := acknowledged.master
      have kept : (system.pic.acknowledge (.line hwirq)).1.master.eois =
          system.pic.master.eois := by
        rw [Pic.acknowledge]
        split_ifs
        · rfl
        · rfl
      simp only [same.masterEois, kept, Arrival.eois] at master
      omega
  | some handler =>
      obtain ⟨same', configured', maps_eq⟩ := lineCall_foldl_keeps
        (show LinesConfigured { system with pic := pic }.irqs map from configured)
        (body handler (system.irqs.irqDescs ((system.irqs.maps map).firstIrq + hwirq)).devId)
      refine ⟨configured', ((same.trans same').remapped delivered).sendEoi _, iff_of_true ?_ rfl⟩
      have desc_eq := configured'.hwirq hwirq hwirq_lt
      rw [maps_eq] at desc_eq
      simp only [desc_eq]
      exact i8259SendEoi_acknowledged hwirq_lt idle (same.trans same')

variable (body) in
/-- A spurious interrupt of the master is not acknowledged. -/
theorem interrupt_spuriousMaster (configured : LinesConfigured system.irqs map)
    (idle : system.pic.Idle) (remapped : system.pic.Remapped) :
    LinesConfigured (interrupt body system map .spuriousMaster).2.irqs map ∧
      (interrupt body system map .spuriousMaster).2.pic.Remapped ∧
      Acknowledged system.pic (interrupt body system map .spuriousMaster).2.pic
        .spuriousMaster := by
  obtain ⟨pic, same, rejected⟩ := i8259HandleVector_spuriousMaster idle remapped
  rw [interrupt, irqDispatchLines]
  simp only [rejected]
  exact ⟨configured, same.remapped remapped, same.masterEois, same.slaveEois,
    same.masterIsr.trans idle.1, same.slaveIsr.trans idle.2⟩

variable (body) in
/-- A spurious interrupt of the slave is acknowledged by the master. -/
theorem interrupt_spuriousSlave (configured : LinesConfigured system.irqs map)
    (idle : system.pic.Idle) (remapped : system.pic.Remapped) :
    LinesConfigured (interrupt body system map .spuriousSlave).2.irqs map ∧
      (interrupt body system map .spuriousSlave).2.pic.Remapped ∧
      Acknowledged system.pic (interrupt body system map .spuriousSlave).2.pic
        .spuriousSlave := by
  obtain ⟨pic, same, rejected⟩ := i8259HandleVector_spuriousSlave idle remapped
  rw [interrupt, irqDispatchLines]
  simp only [rejected]
  have kept := same.remapped (remapped.acknowledge .spuriousSlave)
  refine ⟨configured, ⟨(PicUnit.writeCommand_offset ..).trans kept.1, kept.2⟩, ?_, same.slaveEois,
    ?_, same.slaveIsr.trans idle.2⟩
  · exact congrArg (· + 1) same.masterEois
  · have masterIsr := same.masterIsr
    simp only [Pic.acknowledge, idle.1] at masterIsr
    simp only [PicUnit.writeCommand, if_true, masterIsr]
    decide

variable (body) in
/-- An interrupt that can arrive is acknowledged exactly if its line has a handler. -/
theorem interrupt_acknowledged_iff (configured : LinesConfigured system.irqs map)
    (idle : system.pic.Idle) (remapped : system.pic.Remapped) {arrival : Arrival}
    (arrives : arrival.Arrives system.pic) :
    LinesConfigured (interrupt body system map arrival).2.irqs map ∧
      (interrupt body system map arrival).2.pic.Remapped ∧
      (Acknowledged system.pic (interrupt body system map arrival).2.pic arrival ↔
        arrival.Handled system.irqs map) := by
  cases arrival with
  | line hwirq => exact interrupt_line body configured idle remapped arrives.1
  | spuriousMaster =>
      obtain ⟨configured', remapped', acknowledged⟩ :=
        interrupt_spuriousMaster body configured idle remapped
      exact ⟨configured', remapped', iff_of_true acknowledged trivial⟩
  | spuriousSlave =>
      obtain ⟨configured', remapped', acknowledged⟩ :=
        interrupt_spuriousSlave body configured idle remapped
      exact ⟨configured', remapped', iff_of_true acknowledged trivial⟩

theorem LineStep.keeps (step : LineStep body map system system')
    (configured : LinesConfigured system.irqs map) (idle : system.pic.Idle)
    (remapped : system.pic.Remapped) :
    LinesConfigured system'.irqs map ∧ system'.pic.Idle ∧ system'.pic.Remapped := by
  cases step with
  | call call =>
      obtain ⟨same, configured', -⟩ := lineCall_keeps configured call
      exact ⟨configured', ⟨same.masterIsr.trans idle.1, same.slaveIsr.trans idle.2⟩,
        same.remapped remapped⟩
  | interrupt arrives handled =>
      obtain ⟨configured', remapped', acknowledged⟩ :=
        interrupt_acknowledged_iff body configured idle remapped arrives
      exact ⟨configured', (acknowledged.mpr handled).idle, remapped'⟩

/-! ## Runs -/

/-- The loop of `i8259_init` gives each number its line and its controller. -/
theorem irqMapConfigure_descs {state state' : IrqState Handler} {chip : IrqChip} {n : ℕ}
    (hardware : (state.maps map).firstHwirq + (state.maps map).count < 2 ^ 32)
    (inside : (state.maps map).firstIrq + (state.maps map).count ≤ irqMax)
    (bounded : n ≤ (state.maps map).count)
    (configured : irqMapConfigure state map chip n = (.ok (), state')) :
    state'.maps = state.maps ∧ ∀ k < n,
      (state'.irqDescs ((state.maps map).firstIrq + k)).hwirq =
          (state.maps map).firstHwirq + k ∧
        (state'.irqDescs ((state.maps map).firstIrq + k)).chip.isSome := by
  induction n generalizing state' with
  | zero =>
      cases configured
      exact ⟨rfl, fun k k_lt => absurd k_lt (Nat.not_lt_zero k)⟩
  | succ n induction =>
      rw [irqMapConfigure] at configured
      obtain ⟨before, first, last⟩ := kerrTry_eq_ok configured
      obtain ⟨maps_eq, descs⟩ := induction (Nat.le_of_succ_le bounded) first
      have mapped : (state.maps map).Maps ((state.maps map).firstHwirq + n) := by
        unfold IrqMap.Maps
        omega
      obtain ⟨value, -⟩ := irqMapHwirqToIrq_inside hardware inside mapped
      rw [Nat.add_sub_cancel_left] at value
      simp only [maps_eq, value] at last
      rcases irqDescConfigure_cases before ((state.maps map).firstIrq + n)
        ((state.maps map).firstHwirq + n) map chip with ⟨_, failed⟩ | ⟨-, -, -, accepted⟩
      · rw [failed] at last
        cases last
      · rw [accepted] at last
        cases last
        refine ⟨maps_eq, fun k k_lt => ?_⟩
        simp only [Function.update_apply]
        split_ifs with at_last
        · obtain rfl : k = n := Nat.add_left_cancel at_last
          exact ⟨rfl, rfl⟩
        · exact descs k (by omega)

/-- The configuration of `i8259_init` succeeds with its loop. -/
theorem i8259Init_ok {start lines : IrqLines Handler} {chip : IrqChip}
    (init : i8259Init start map chip = (.ok (), lines)) :
    lines.pic = i8259MaskAll (i8259Remap start.pic 0x20 0x28) ∧
      kerrTry (irqMapInit start.irqs map "i8259-pic-map" 0 16) (fun irqs =>
        irqMapConfigure irqs map chip (irqs.maps map).count) = (.ok (), lines.irqs) := by
  rw [i8259Init] at init
  obtain ⟨status, rfl⟩ := Prod.mk.inj init
  exact ⟨rfl, Prod.ext status rfl⟩

/-- `i8259_init` configures the lines and attaches them to the controllers. -/
theorem i8259Init_attached {start lines : IrqLines Handler} {chip : IrqChip}
    (init : i8259Init start map chip = (.ok (), lines)) :
    LinesConfigured lines.irqs map ∧
      ∀ h < 16, (lines.irqs.irqDescs ((lines.irqs.maps map).firstIrq + h)).chip.isSome := by
  obtain ⟨mapped, map_init, configured⟩ := kerrTry_eq_ok (i8259Init_ok init).2
  rcases irqMapInit_cases start.irqs map "i8259-pic-map" 0 16 with
    ⟨-, failed⟩ | ⟨-, -, -, failed⟩ | ⟨first, -, inside, -, built⟩
  · rw [failed] at map_init
    cases map_init
  · rw [failed] at map_init
    cases map_init
  · rw [built] at map_init
    obtain rfl := (Prod.mk.inj map_init).2
    have map_eq : (Function.update start.irqs.maps map ⟨"i8259-pic-map", 0, first, 16⟩) map =
        ⟨"i8259-pic-map", 0, first, 16⟩ := Function.update_self ..
    simp only [map_eq] at configured
    obtain ⟨maps_eq, descs⟩ := irqMapConfigure_descs (by simp only [map_eq]; decide)
      (by simp only [map_eq]; exact inside) (by simp only [map_eq]; exact le_refl 16) configured
    simp only [map_eq] at maps_eq descs
    have map_eq' : lines.irqs.maps map = ⟨"i8259-pic-map", 0, first, 16⟩ := by
      rw [maps_eq, map_eq]
    refine ⟨⟨?_, ?_, ?_, fun h h_lt => ?_⟩, fun h h_lt => ?_⟩
    · rw [map_eq']
    · rw [map_eq']
    · rw [map_eq']
      exact inside
    · rw [map_eq', (descs h h_lt).1, Nat.zero_add]
    · rw [map_eq']
      exact (descs h h_lt).2

/-- The controllers deliver the vectors of the driver after `i8259_init`, and nothing new is in
service. -/
theorem i8259Init_pic {start lines : IrqLines Handler} {chip : IrqChip}
    (init : i8259Init start map chip = (.ok (), lines)) (idle : start.pic.Idle) :
    lines.pic.Idle ∧ lines.pic.Remapped := by
  rw [(i8259Init_ok init).1]
  exact ⟨idle, rfl, rfl⟩

/-- In every run in which interrupts find a handler, no interrupt stays in service, and every
interrupt that can arrive next is acknowledged exactly once if its line has a handler, and only
then. -/
theorem irq_acknowledged_of_run {start lines : IrqLines Handler} {chip : IrqChip}
    (idle : start.pic.Idle) (init : i8259Init start map chip = (.ok (), lines))
    (run : Relation.ReflTransGen (LineStep body map) lines system) :
    system.pic.Idle ∧ ∀ arrival : Arrival, arrival.Arrives system.pic →
      (Acknowledged system.pic (interrupt body system map arrival).2.pic arrival ↔
        arrival.Handled system.irqs map) := by
  have kept : LinesConfigured system.irqs map ∧ system.pic.Idle ∧ system.pic.Remapped := by
    induction run with
    | refl => exact ⟨(i8259Init_attached init).1, i8259Init_pic init idle⟩
    | tail _ step induction => exact step.keeps induction.1 induction.2.1 induction.2.2
  exact ⟨kept.2.1, fun arrival arrives =>
    (interrupt_acknowledged_iff body kept.1 kept.2.1 kept.2.2 arrives).2.2⟩

end Lines

/-- The interrupt numbers before the set-up, and the controllers as the BIOS left them: some lines
are enabled, and the vectors are those of real mode. -/
def biosSystem : IrqLines Unit where
  irqs := irqInit fun _ => ⟨"", 0, 0, 0⟩
  pic :=
    { master := { imr := 0xB8, isr := 0, irr := 0x01, readIsr := false, offset := 0x08, eois := 0 }
      slave := { imr := 0x8E, isr := 0, irr := 0, readIsr := false, offset := 0x70, eois := 0 } }

/-- The interrupt numbers and the controllers after the set-up. -/
def bootSystem : IrqLines Unit := (i8259Init biosSystem 0x1000 picChip).2

theorem bootSystem_init : i8259Init biosSystem 0x1000 picChip = (.ok (), bootSystem) := by
  refine Prod.ext ?_ rfl
  decide +kernel

/-- A sequence of calls after the set-up. -/
def bootLines (calls : List (LineCall Unit)) : IrqLines Unit := calls.foldl lineCall bootSystem

theorem bootLines_run (body : Unit → ℕ → List (LineCall Unit)) (calls : List (LineCall Unit)) :
    Relation.ReflTransGen (LineStep body 0x1000) bootSystem (bootLines calls) := by
  induction calls using List.reverseRecOn with
  | nil => exact .refl
  | append_singleton calls call induction =>
      rw [bootLines, List.foldl_append]
      exact induction.tail (.call call)

theorem irq_acknowledged_of_run_timer :
    Acknowledged (bootLines [.request 0 () 0, .enable 0]).pic
      (interrupt (fun _ _ => []) (bootLines [.request 0 () 0, .enable 0]) 0x1000
        (.line 0)).2.pic
      (.line 0) := by
  refine ((irq_acknowledged_of_run (show biosSystem.pic.Idle from ⟨rfl, rfl⟩) bootSystem_init
    (bootLines_run (fun _ _ => []) _)).2 (.line 0) ?_).mpr ?_
  · exact ⟨by decide, by decide +kernel⟩
  · show Option.isSome _ = true
    decide +kernel

/-- A handler is freed while its line is enabled: the next interrupt of the line stays in service.
-/
theorem irqFree_leaves_in_service :
    (Arrival.line 1).Arrives (bootLines [.request 1 () 0, .enable 1, .free 1]).pic ∧
      (interrupt (fun _ _ => []) (bootLines [.request 1 () 0, .enable 1, .free 1]) 0x1000
        (.line 1)).1 = .error .noent ∧
      ¬ Acknowledged (bootLines [.request 1 () 0, .enable 1, .free 1]).pic
        (interrupt (fun _ _ => []) (bootLines [.request 1 () 0, .enable 1, .free 1]) 0x1000
          (.line 1)).2.pic (.line 1) := by
  refine ⟨⟨by decide, by decide +kernel⟩, by decide +kernel, fun acknowledged => ?_⟩
  have idle := acknowledged.idle.1
  revert idle
  decide +kernel

end ItWorksOS
