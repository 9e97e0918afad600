import ItWorksOS.Drivers.Irqchip.Acknowledge

/-!
# The cascade line

The lines of the slave reach the processor through line 2 of the master, which the driver opens and
closes with them. It is a line of the map as well, and can be disabled like any other one.
-/

namespace ItWorksOS

variable {Handler : Type*}

/-- A call of `irq_enable` or `irq_disable` on the interrupt number of a line. -/
inductive LineSwitch
  | enable (hwirq : ℕ)
  | disable (hwirq : ℕ)
  deriving DecidableEq

namespace LineSwitch

/-- The line. -/
def hwirq : LineSwitch → ℕ
  | enable hwirq => hwirq
  | disable hwirq => hwirq

/-- The call, for the map of the lines. -/
def call (map : IrqMap) : LineSwitch → LineCall Handler
  | enable hwirq => .enable (irqMapHwirqToIrq map hwirq)
  | disable hwirq => .disable (irqMapHwirqToIrq map hwirq)

/-- The effect on the controllers. -/
def apply (pic : Pic) : LineSwitch → Pic
  | enable hwirq => i8259UnmaskIrq pic hwirq
  | disable hwirq => i8259MaskIrq pic hwirq

end LineSwitch

/-- The system after calls on the lines of a map. -/
def switchLines (lines : IrqLines Handler) (map : ℕ) (switches : List LineSwitch) :
    IrqLines Handler :=
  (switches.map (LineSwitch.call (lines.irqs.maps map))).foldl lineCall lines

/-- The last call on the line was `irq_enable`. -/
def LastEnabled (switches : List LineSwitch) (hwirq : ℕ) : Prop :=
  (switches.filter (·.hwirq = hwirq)).getLast? = some (.enable hwirq)

instance (switches : List LineSwitch) (hwirq : ℕ) : Decidable (LastEnabled switches hwirq) :=
  inferInstanceAs (Decidable (_ = _))

/-- After each of the calls, a line other than the cascade line can deliver interrupts exactly if it
was enabled last, and no call has changed this for another line. -/
structure LinesIndependent (lines : IrqLines Handler) (map : ℕ) (switches : List LineSwitch) :
    Prop where
  delivered : ∀ before, before <+: switches → ∀ h < 16, h ≠ 2 →
    ((switchLines lines map before).pic.Unmasked h ↔ LastEnabled before h)
  apart : ∀ before switch, before ++ [switch] <+: switches → ∀ h < 16, h ≠ 2 → h ≠ switch.hwirq →
    ((switchLines lines map (before ++ [switch])).pic.Unmasked h ↔
      (switchLines lines map before).pic.Unmasked h)

/-- The mask bit of the cascade line. -/
def Pic.cascadeMasked (pic : Pic) : Bool := pic.master.imr.getLsbD 2

/-- The cascade line is never disabled while a line of the slave is enabled. -/
def CascadeKept (switches : List LineSwitch) : Prop :=
  ∀ before, before ++ [.disable 2] <+: switches → ∀ h, 8 ≤ h → h < 16 → ¬ LastEnabled before h

/-! ## Masks -/

section Masks

variable {pic : Pic} {mask : BitVec 8} {line other : ℕ}

theorem picBit_eq (line : ℕ) : picBit line = BitVec.twoPow 8 line := (BitVec.twoPow_eq 8 line).symm

theorem and_picBit_eq_zero (line_lt : line < 8) :
    mask &&& picBit line = 0 ↔ mask.getLsbD line = false := by
  rw [picBit_eq, BitVec.and_twoPow]
  split_ifs with set
  · rw [set]
    refine iff_of_false (fun zero => ?_) nofun
    have bit := congrArg (BitVec.getLsbD · line) zero
    simp [line_lt] at bit
  · exact iff_of_true rfl (Bool.eq_false_iff.mpr set)

/-- Setting the bit of a line masks this line only. -/
theorem getLsbD_or_picBit (other_lt : other < 8) :
    (mask ||| picBit line).getLsbD other = (mask.getLsbD other || decide (line = other)) := by
  rw [picBit_eq, BitVec.getLsbD_or, BitVec.getLsbD_twoPow]
  by_cases same : line = other
  · simp [same, other_lt]
  · simp [same]

/-- Clearing the bit of a line unmasks this line only. -/
theorem getLsbD_and_not_picBit (other_lt : other < 8) :
    (mask &&& ~~~picBit line).getLsbD other = (mask.getLsbD other && !decide (line = other)) := by
  rw [picBit_eq, BitVec.getLsbD_and, BitVec.getLsbD_not, BitVec.getLsbD_twoPow]
  by_cases same : line = other
  · simp [same, other_lt]
  · simp [same, other_lt]

/-- All lines are masked. -/
theorem mask_eq_all_iff : mask = 0xFF ↔ ∀ line < 8, mask.getLsbD line = true := by
  constructor
  · rintro rfl
    decide
  · intro all
    refine BitVec.eq_of_getLsbD_eq fun line line_lt => ?_
    rw [all line line_lt]
    revert line_lt line
    decide

theorem unmasked_iff {h : ℕ} (h_lt : h < 16) :
    pic.Unmasked h ↔
      if 8 ≤ h then pic.slave.imr.getLsbD (h - 8) = false ∧ pic.cascadeMasked = false
      else pic.master.imr.getLsbD h = false := by
  rw [Pic.Unmasked]
  split_ifs with slave
  · rw [and_picBit_eq_zero (by omega), and_picBit_eq_zero (by decide), Pic.cascadeMasked]
  · rw [and_picBit_eq_zero (by omega)]

end Masks

/-! ## Last calls -/

section LastCalls

variable {switches : List LineSwitch} {switch : LineSwitch} {h : ℕ}

theorem lastEnabled_concat_of_eq (same : switch.hwirq = h) :
    LastEnabled (switches ++ [switch]) h ↔ switch = .enable h := by
  rw [LastEnabled, List.filter_append, List.filter_cons_of_pos (by simpa using same),
    List.filter_nil, List.getLast?_concat, Option.some.injEq]

theorem lastEnabled_concat_of_ne (different : switch.hwirq ≠ h) :
    LastEnabled (switches ++ [switch]) h ↔ LastEnabled switches h := by
  rw [LastEnabled, LastEnabled, List.filter_append,
    List.filter_cons_of_neg (by simpa using different), List.filter_nil, List.append_nil]

/-- The mask bit of each line but the cascade line shows the last call on it. -/
structure LinesShown (switches : List LineSwitch) (pic : Pic) : Prop where
  slave : ∀ h, 8 ≤ h → h < 16 → (pic.slave.imr.getLsbD (h - 8) = false ↔ LastEnabled switches h)
  master : ∀ h < 8, h ≠ 2 → (pic.master.imr.getLsbD h = false ↔ LastEnabled switches h)

/-- The cascade line is open if a line of the slave is enabled. -/
def CascadeShown (switches : List LineSwitch) (pic : Pic) : Prop :=
  ∀ h, 8 ≤ h → h < 16 → LastEnabled switches h → pic.cascadeMasked = false

end LastCalls

/-! ## Calls -/

section Calls

variable {switches : List LineSwitch} {switch : LineSwitch} {pic : Pic}

/-- The mask bit of a line of the slave after a call. -/
theorem apply_slave (pic : Pic) {h : ℕ} (lower : 8 ≤ h) (upper : h < 16) :
    (switch.apply pic).slave.imr.getLsbD (h - 8) = false ↔
      if switch.hwirq = h then switch = .enable h
      else pic.slave.imr.getLsbD (h - 8) = false := by
  cases switch with
  | enable line =>
      rw [LineSwitch.apply, LineSwitch.hwirq, i8259UnmaskIrq]
      split_ifs with slave same _
      · subst same
        simp [PicUnit.writeData, PicUnit.readData, getLsbD_and_not_picBit (by omega : line - 8 < 8)]
      · have other : line - 8 ≠ h - 8 := by omega
        simp [PicUnit.writeData, PicUnit.readData, getLsbD_and_not_picBit (by omega : h - 8 < 8),
          other]
      · omega
      · rfl
  | disable line =>
      rw [LineSwitch.apply, LineSwitch.hwirq, i8259MaskIrq]
      dsimp only
      split_ifs with slave full same same same
      · subst same
        simp [PicUnit.writeData, PicUnit.readData, getLsbD_or_picBit (by omega : line - 8 < 8)]
      · have other : line - 8 ≠ h - 8 := by omega
        simp [PicUnit.writeData, PicUnit.readData, getLsbD_or_picBit (by omega : h - 8 < 8), other]
      · subst same
        simp [PicUnit.writeData, PicUnit.readData, getLsbD_or_picBit (by omega : line - 8 < 8)]
      · have other : line - 8 ≠ h - 8 := by omega
        simp [PicUnit.writeData, PicUnit.readData, getLsbD_or_picBit (by omega : h - 8 < 8), other]
      · omega
      · rfl

/-- The mask bit of a line of the master after a call, the cascade line excepted. -/
theorem apply_master (pic : Pic) {h : ℕ} (upper : h < 8) (line : h ≠ 2) :
    (switch.apply pic).master.imr.getLsbD h = false ↔
      if switch.hwirq = h then switch = .enable h else pic.master.imr.getLsbD h = false := by
  have cascade : ¬ 2 = h := fun same => line same.symm
  cases switch with
  | enable line =>
      rw [LineSwitch.apply, LineSwitch.hwirq, i8259UnmaskIrq]
      split_ifs with slave same same
      · omega
      · simp [PicUnit.writeData, PicUnit.readData, getLsbD_and_not_picBit upper, cascade]
      · simp [PicUnit.writeData, PicUnit.readData, getLsbD_and_not_picBit upper, same]
      · simp [PicUnit.writeData, PicUnit.readData, getLsbD_and_not_picBit upper, same]
  | disable line =>
      rw [LineSwitch.apply, LineSwitch.hwirq, i8259MaskIrq]
      dsimp only
      split_ifs with slave full same same same
      · omega
      · simp [PicUnit.writeData, PicUnit.readData, getLsbD_or_picBit upper, cascade]
      · omega
      · rfl
      · simp [PicUnit.writeData, PicUnit.readData, getLsbD_or_picBit upper, same]
      · simp [PicUnit.writeData, PicUnit.readData, getLsbD_or_picBit upper, same]

/-- Every call is shown in the mask bit of its line. -/
theorem LinesShown.step (shown : LinesShown switches pic) (switch : LineSwitch) :
    LinesShown (switches ++ [switch]) (switch.apply pic) := by
  refine ⟨fun h lower upper => ?_, fun h upper line => ?_⟩
  · rw [apply_slave pic lower upper]
    split_ifs with same
    · exact (lastEnabled_concat_of_eq same).symm
    · exact (shown.slave h lower upper).trans (lastEnabled_concat_of_ne same).symm
  · rw [apply_master pic upper line]
    split_ifs with same
    · exact (lastEnabled_concat_of_eq same).symm
    · exact (shown.master h upper line).trans (lastEnabled_concat_of_ne same).symm

/-- The cascade line after a call: an enabled line of the slave opens it, the last disabled one
closes it, and calls on other lines leave it alone. -/
theorem apply_cascade (pic : Pic) (switch : LineSwitch) :
    (switch.apply pic).cascadeMasked =
      match switch with
      | .enable line => pic.cascadeMasked && !decide (8 ≤ line ∨ line = 2)
      | .disable line => pic.cascadeMasked ||
          decide (8 ≤ line ∧ (LineSwitch.apply pic (.disable line)).slave.imr = 0xFF ∨
            line = 2) := by
  cases switch with
  | enable line =>
      simp only [LineSwitch.apply, i8259UnmaskIrq, Pic.cascadeMasked]
      split_ifs with slave
      · simp only [PicUnit.writeData, PicUnit.readData,
          getLsbD_and_not_picBit (by decide : 2 < 8), slave, true_or]
      · simp only [PicUnit.writeData, PicUnit.readData,
          getLsbD_and_not_picBit (by decide : 2 < 8), slave, false_or]
  | disable line =>
      simp only [LineSwitch.apply, i8259MaskIrq, Pic.cascadeMasked]
      split_ifs with slave full
      · change pic.slave.imr ||| picBit (line - 8) = 0xFF at full
        simp only [PicUnit.writeData, PicUnit.readData, getLsbD_or_picBit (by decide : 2 < 8),
          slave, full, and_self, true_or]
      · have other : line ≠ 2 := by omega
        change ¬ pic.slave.imr ||| picBit (line - 8) = 0xFF at full
        simp only [PicUnit.writeData, PicUnit.readData, full, other, and_false, or_self,
          decide_false, Bool.or_false]
      · simp only [PicUnit.writeData, PicUnit.readData, getLsbD_or_picBit (by decide : 2 < 8),
          slave, false_and, false_or]

/-- A call opens and closes the cascade line as the lines of the slave need it, unless it closes the
cascade line itself. -/
theorem CascadeShown.step (shown : LinesShown switches pic) (cascade : CascadeShown switches pic)
    (switch : LineSwitch)
    (kept : switch = .disable 2 → ∀ h, 8 ≤ h → h < 16 → ¬ LastEnabled switches h) :
    CascadeShown (switches ++ [switch]) (switch.apply pic) := by
  intro h lower upper enabled
  have unmasked := ((shown.step switch).slave h lower upper).mpr enabled
  rw [apply_cascade pic switch]
  by_cases same : switch.hwirq = h
  · obtain rfl := (lastEnabled_concat_of_eq same).mp enabled
    simp [lower]
  · have before := (lastEnabled_concat_of_ne same).mp enabled
    have opened := cascade h lower upper before
    cases switch with
    | enable line => simp [opened]
    | disable line =>
        have not_cascade : line ≠ 2 := by
          rintro rfl
          exact kept rfl h lower upper before
        have not_full : (LineSwitch.apply pic (.disable line)).slave.imr ≠ 0xFF := by
          intro full
          rw [mask_eq_all_iff.mp full (h - 8) (by omega)] at unmasked
          cases unmasked
        simp only [opened, not_cascade, not_full, and_false, or_self, decide_false, Bool.or_self]

end Calls

/-! ## Runs -/

section Runs

variable {start system : IrqLines Handler} {map : ℕ} {switches : List LineSwitch}

theorem linesShown_maskAll (pic : Pic) : LinesShown [] (i8259MaskAll pic) := by
  have masked : ∀ line < 8, (0xFF : BitVec 8).getLsbD line = true :=
    mask_eq_all_iff.mp rfl
  refine ⟨fun h lower upper => ?_, fun h upper _ => ?_⟩
  · refine iff_of_false ?_ nofun
    simp only [i8259MaskAll, PicUnit.writeData, masked (h - 8) (by omega)]
    exact nofun
  · refine iff_of_false ?_ nofun
    simp only [i8259MaskAll, PicUnit.writeData, masked h upper]
    exact nofun

/-- The calls only change the controllers. -/
theorem switchLines_eq (configured : LinesConfigured system.irqs map)
    (attached : ∀ h < 16,
      (system.irqs.irqDescs ((system.irqs.maps map).firstIrq + h)).chip.isSome)
    (lines : ∀ switch ∈ switches, switch.hwirq < 16) :
    switchLines system map switches =
      ⟨system.irqs, switches.foldl LineSwitch.apply system.pic⟩ := by
  induction switches using List.reverseRecOn with
  | nil => rfl
  | append_singleton switches switch induction =>
      rw [List.forall_mem_append, List.forall_mem_singleton] at lines
      have before := induction lines.1
      rw [switchLines] at before ⊢
      rw [List.map_append, List.foldl_append, before, List.foldl_append]
      simp only [List.map_cons, List.map_nil, List.foldl_cons, List.foldl_nil]
      obtain ⟨irq_eq, irq_lt⟩ := configured.irq_eq lines.2
      have line := configured.hwirq switch.hwirq lines.2
      have chip :
          (system.irqs.irqDescs ((system.irqs.maps map).firstIrq + switch.hwirq)).chip.isNone =
            false := by
        rw [← Option.not_isSome, attached switch.hwirq lines.2]
        rfl
      cases switch with
      | enable hwirq =>
          rw [LineSwitch.hwirq] at irq_eq irq_lt chip line
          rw [LineSwitch.call, lineCall, irqEnable, irq_eq, if_neg (Nat.not_le.mpr irq_lt),
            if_neg (by simp [chip]), line]
          rfl
      | disable hwirq =>
          rw [LineSwitch.hwirq] at irq_eq irq_lt chip line
          rw [LineSwitch.call, lineCall, irqDisable, irq_eq, if_neg (Nat.not_le.mpr irq_lt),
            if_neg (by simp [chip]), line]
          rfl

theorem linesShown_foldl (pic : Pic) (switches : List LineSwitch) :
    LinesShown switches (switches.foldl LineSwitch.apply (i8259MaskAll pic)) := by
  induction switches using List.reverseRecOn with
  | nil => exact linesShown_maskAll pic
  | append_singleton switches switch induction =>
      rw [List.foldl_append]
      exact induction.step switch

theorem CascadeKept.mono {before : List LineSwitch} (kept : CascadeKept switches)
    (shorter : before <+: switches) : CascadeKept before :=
  fun start prefixed => kept start (prefixed.trans shorter)

theorem cascadeShown_foldl (pic : Pic) (kept : CascadeKept switches) :
    CascadeShown switches (switches.foldl LineSwitch.apply (i8259MaskAll pic)) := by
  induction switches using List.reverseRecOn with
  | nil => exact fun h _ _ enabled => nomatch enabled
  | append_singleton switches switch induction =>
      rw [List.foldl_append]
      refine (induction (kept.mono (List.prefix_append ..))).step (linesShown_foldl pic switches)
        switch ?_
      rintro rfl
      exact kept switches (List.prefix_refl _)

/-- A line is deliverable exactly if it was enabled last, as long as the cascade line is open when
the slave needs it. -/
theorem unmasked_iff_lastEnabled {pic : Pic} (shown : LinesShown switches pic)
    (cascade : CascadeShown switches pic) {h : ℕ} (h_lt : h < 16) (line : h ≠ 2) :
    pic.Unmasked h ↔ LastEnabled switches h := by
  rw [unmasked_iff h_lt]
  split_ifs with slave
  · rw [shown.slave h slave h_lt]
    exact ⟨And.left, fun enabled => ⟨enabled, cascade h slave h_lt enabled⟩⟩
  · exact shown.master h (by omega) line

/-- After `i8259_init`, the calls on the 16 lines are independent of each other if and only if none
of them disables the cascade line while a line of the slave is enabled. -/
theorem irqEnable_independent_iff {chip : IrqChip}
    (init : i8259Init start map chip = (.ok (), system))
    (lines : ∀ switch ∈ switches, switch.hwirq < 16) :
    LinesIndependent system map switches ↔ CascadeKept switches := by
  obtain ⟨configured, attached⟩ := i8259Init_attached init
  have after {before : List LineSwitch} (shorter : before <+: switches) :
      (switchLines system map before).pic = before.foldl LineSwitch.apply
        (i8259MaskAll (i8259Remap start.pic 0x20 0x28)) := by
    rw [switchLines_eq configured attached fun switch member =>
      lines switch (shorter.subset member), (i8259Init_ok init).1]
  constructor
  · intro independent before shorter h lower upper enabled
    have still : LastEnabled (before ++ [.disable 2]) h :=
      (lastEnabled_concat_of_ne (show LineSwitch.hwirq (.disable 2) ≠ h from
        fun same => absurd (same ▸ lower) (by decide))).mpr enabled
    have unmasked := (independent.delivered _ shorter h upper (by omega)).mpr still
    rw [after shorter, List.foldl_append, unmasked_iff upper, if_pos lower] at unmasked
    have closed := apply_cascade (before.foldl LineSwitch.apply
      (i8259MaskAll (i8259Remap start.pic 0x20 0x28))) (.disable 2)
    rw [List.foldl_cons, List.foldl_nil, closed] at unmasked
    simp at unmasked
  · intro kept
    have delivered (before : List LineSwitch) (shorter : before <+: switches) (h : ℕ)
        (h_lt : h < 16) (line : h ≠ 2) :
        (switchLines system map before).pic.Unmasked h ↔ LastEnabled before h := by
      rw [after shorter]
      exact unmasked_iff_lastEnabled (linesShown_foldl _ before)
        (cascadeShown_foldl _ (kept.mono shorter)) h_lt line
    refine ⟨delivered, fun before switch shorter h h_lt line other => ?_⟩
    have earlier : before <+: switches := (List.prefix_append before [switch]).trans shorter
    rw [delivered _ shorter h h_lt line, delivered _ earlier h h_lt line,
      lastEnabled_concat_of_ne (Ne.symm other)]

end Runs

/-- A line of the master and one of the slave. -/
theorem irqEnable_independent_two :
    LinesIndependent bootSystem 0x1000 [.enable 1, .enable 12, .disable 1] := by
  refine (irqEnable_independent_iff bootSystem_init (by simp [LineSwitch.hwirq])).mpr
    fun before shorter => ?_
  have member := shorter.subset (List.mem_append_right before (List.mem_singleton_self _))
  simp at member

/-- Disabling line 2 takes line 12 away. -/
theorem irqDisable_cascade_masks :
    ¬ LinesIndependent bootSystem 0x1000 [.enable 12, .disable 2] := by
  intro independent
  have unmasked := (independent.delivered _ (List.prefix_refl _) 12 (by decide) (by decide)).mpr
    (by decide)
  revert unmasked
  decide +kernel

end ItWorksOS
