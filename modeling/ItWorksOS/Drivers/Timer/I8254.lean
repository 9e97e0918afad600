import ItWorksOS.Drivers.Irqchip.Acknowledge

/-!
# The 8254 timer

A start programs the counter and enables the interrupt line. The interrupt handler delivers the
event and then disarms a timer in one-shot mode, whether or not the callback has armed it again.
-/

namespace ItWorksOS

/-- Input clock of the counters in Hz. -/
abbrev i8254BaseFreq : ℕ := 1193182

/-- Nanoseconds per second. -/
abbrev nsPerSec : ℕ := 1000000000

/-- `I8254_MIN_DELTA_NS`. -/
def i8254MinDeltaNs : ℕ := nsPerSec * 20 / i8254BaseFreq

/-- `I8254_MAX_DELTA_NS`. -/
def i8254MaxDeltaNs : ℕ := nsPerSec * 65535 / i8254BaseFreq

/-- `enum timer_device_mode`. -/
inductive TimerDeviceMode
  | disabled
  | periodic
  | oneshot
  deriving DecidableEq

/-- The timer with the interrupt lines, the interrupt flag of the processor and the port writes,
latest first. -/
structure I8254 (Handler : Type*) where
  mode : TimerDeviceMode
  minDeltaNs : ℕ
  maxDeltaNs : ℕ
  event : Bool
  portBase : ℕ
  irq : ℕ
  lines : IrqLines Handler
  interrupts : Bool
  ports : List (ℕ × ℕ)

variable {Handler : Type*}

/-- Write the command and the divisor of channel 0. -/
def i8254Program (dev : I8254 Handler) (command counter : ℕ) : I8254 Handler :=
  { dev with ports := (dev.portBase, counter / 256 % 256) :: (dev.portBase, counter % 256) ::
      (dev.portBase + 3, command) :: dev.ports }

/-- Program the timer and enable its line. -/
def i8254TimerStart (command : ℕ) (mode : TimerDeviceMode) (dev : I8254 Handler) (ns : ℕ) :
    Status × I8254 Handler :=
  if ns < dev.minDeltaNs ∨ dev.maxDeltaNs < ns then (.error .range, dev)
  else
    let counter := ns * i8254BaseFreq % 2 ^ 64 / nsPerSec
    let state := dev.interrupts
    let dev := i8254Program { dev with interrupts := false } command counter
    match irqEnable dev.lines dev.irq with
    | (.error error, lines) => (.error error, { dev with lines })
    | (.ok (), lines) => (.ok (), { dev with lines, mode, interrupts := state })

/-- `i8254_timer_start_periodic`. -/
def i8254TimerStartPeriodic (dev : I8254 Handler) (periodNs : ℕ) : Status × I8254 Handler :=
  i8254TimerStart 0b00110110 .periodic dev periodNs

/-- `i8254_timer_start_oneshot`. -/
def i8254TimerStartOneshot (dev : I8254 Handler) (deltaNs : ℕ) : Status × I8254 Handler :=
  i8254TimerStart 0b00110000 .oneshot dev deltaNs

/-- `i8254_timer_stop`. -/
def i8254TimerStop (dev : I8254 Handler) : Status × I8254 Handler :=
  let state := dev.interrupts
  let dev := { dev with interrupts := false, mode := .disabled }
  match irqDisable dev.lines dev.irq with
  | (.error error, lines) => (.error error, { dev with lines })
  | (.ok (), lines) => (.ok (), { dev with lines, interrupts := state })

/-- The calls of clients. -/
inductive TimerCall
  | startPeriodic (periodNs : ℕ)
  | startOneshot (deltaNs : ℕ)
  | stop
  deriving DecidableEq

/-- A start must be in range. -/
def TimerCall.Accepted (dev : I8254 Handler) : TimerCall → Bool
  | .startPeriodic periodNs => dev.minDeltaNs ≤ periodNs && periodNs ≤ dev.maxDeltaNs
  | .startOneshot deltaNs => dev.minDeltaNs ≤ deltaNs && deltaNs ≤ dev.maxDeltaNs
  | .stop => true

/-- One call. -/
def i8254Call (dev : I8254 Handler) : TimerCall → Status × I8254 Handler
  | .startPeriodic periodNs => i8254TimerStartPeriodic dev periodNs
  | .startOneshot deltaNs => i8254TimerStartOneshot dev deltaNs
  | .stop => i8254TimerStop dev

/-- The event is delivered to the callback. -/
def i8254Delivers (dev : I8254 Handler) : Bool := dev.mode ≠ .disabled && dev.event

/-- The interrupt handler, when the callback would make the calls. -/
def i8254IrqHandler (dev : I8254 Handler) (calls : List TimerCall) : I8254 Handler :=
  let dev :=
    if i8254Delivers dev then calls.foldl (fun dev call => (i8254Call dev call).2) dev else dev
  if dev.mode = .oneshot then
    let lines := (irqDisable dev.lines dev.irq).2
    { dev with lines, mode := .disabled }
  else dev

/-- Set up the timer of a line. -/
def i8254Probe (lines : IrqLines Handler) (map hwirq portBase devId : ℕ) (handler : Handler) :
    Except KError (I8254 Handler) :=
  let irq := irqMapHwirqToIrq (lines.irqs.maps map) hwirq
  if irq = irqInvalid then .error .noent
  else
    match irqRequest lines.irqs irq handler devId with
    | (.error error, _) => .error error
    | (.ok (), irqs) =>
        .ok { mode := .disabled, minDeltaNs := i8254MinDeltaNs, maxDeltaNs := i8254MaxDeltaNs,
              event := false, portBase, irq, lines := { lines with irqs }, interrupts := true,
              ports := [] }

/-- The line of the timer is enabled. -/
def I8254.Enabled (dev : I8254 Handler) : Prop :=
  dev.lines.pic.Unmasked (dev.lines.irqs.irqDescs dev.irq).hwirq

/-- The line of the timer has a controller. -/
def I8254.Attached (dev : I8254 Handler) : Prop :=
  dev.irq < irqMax ∧ (dev.lines.irqs.irqDescs dev.irq).chip.isSome

/-! ## Runs -/

/-- The timer, and the mode that was asked for last and is still due. -/
structure TimerRun (Handler : Type*) where
  dev : I8254 Handler
  armed : Option TimerDeviceMode

/-- What a successful call asks for. -/
def TimerCall.armed : TimerCall → Option TimerDeviceMode
  | .startPeriodic _ => some .periodic
  | .startOneshot _ => some .oneshot
  | .stop => none

/-- One call in a run. -/
def TimerRun.call (run : TimerRun Handler) (call : TimerCall) : TimerRun Handler where
  dev := (i8254Call run.dev call).2
  armed :=
    match (i8254Call run.dev call).1 with
    | .ok () => call.armed
    | .error _ => run.armed

/-- The callback is entered: a one-shot event is delivered and no longer due. -/
def TimerRun.deliver (run : TimerRun Handler) : TimerRun Handler :=
  { run with armed := if run.armed = some .oneshot then none else run.armed }

/-- One interrupt in a run. -/
def TimerRun.interrupt (run : TimerRun Handler) (calls : List TimerCall) : TimerRun Handler where
  dev := i8254IrqHandler run.dev calls
  armed :=
    if i8254Delivers run.dev then (calls.foldl TimerRun.call run.deliver).armed else run.armed

/-- The interrupt takes no shot away: the last call accepted in the callback is no one-shot start,
and a one-shot event has a callback. -/
def I8254.Harmless (dev : I8254 Handler) (calls : List TimerCall) : Prop :=
  if i8254Delivers dev then
    ∀ deltaNs, (calls.filter (·.Accepted dev)).getLast? ≠ some (.startOneshot deltaNs)
  else dev.mode ≠ .oneshot

/-- The timer is in the mode that is due, with its line enabled. -/
def TimerRun.Armed (run : TimerRun Handler) : Prop :=
  ∀ mode, run.armed = some mode → run.dev.mode = mode ∧ run.dev.Enabled

/-- Steps of a run in which interrupts take no shot away. -/
inductive TimerStep : TimerRun Handler → TimerRun Handler → Prop
  | call {run : TimerRun Handler} (call : TimerCall) : TimerStep run (run.call call)
  | setEvent {run : TimerRun Handler} (event : Bool) :
      TimerStep run { run with dev := { run.dev with event } }
  | interrupt {run : TimerRun Handler} {calls : List TimerCall}
    (harmless : run.dev.Harmless calls) :
      TimerStep run (run.interrupt calls)

/-- Outside of the handler the mode says what is due. -/
structure TimerRun.Inv (run : TimerRun Handler) : Prop where
  attached : run.dev.Attached
  armed : run.Armed
  idle : run.armed = none → run.dev.mode = .disabled

/-- In a callback the mode may also be that of the delivered shot. -/
structure TimerRun.CallbackInv (run : TimerRun Handler) : Prop where
  attached : run.dev.Attached
  armed : run.Armed
  idle : run.armed = none → run.dev.mode = .disabled ∨ run.dev.mode = .oneshot

section Runs

variable {run run' : TimerRun Handler} {dev : I8254 Handler}

theorem i8259UnmaskIrq_unmasked (pic : Pic) (hwirq : ℕ) :
    (i8259UnmaskIrq pic hwirq).Unmasked hwirq := by
  have cleared (mask bit : BitVec 8) : mask &&& ~~~bit &&& bit = 0 := by
    rw [BitVec.and_assoc]
    simp
  rw [i8259UnmaskIrq, Pic.Unmasked]
  split_ifs
  · exact ⟨cleared _ _, cleared _ _⟩
  · exact cleared _ _

theorem irqEnable_attached (dev : I8254 Handler) (attached : dev.Attached) :
    irqEnable dev.lines dev.irq = (.ok (), { dev.lines with
      pic := i8259UnmaskIrq dev.lines.pic (dev.lines.irqs.irqDescs dev.irq).hwirq }) := by
  obtain ⟨irq_lt, chip⟩ := attached
  rw [irqEnable, if_neg (Nat.not_le.mpr irq_lt),
    if_neg (by simp [Option.isSome_iff_ne_none.mp chip])]

theorem irqDisable_attached (dev : I8254 Handler) (attached : dev.Attached) :
    irqDisable dev.lines dev.irq = (.ok (), { dev.lines with
      pic := i8259MaskIrq dev.lines.pic (dev.lines.irqs.irqDescs dev.irq).hwirq }) := by
  obtain ⟨irq_lt, chip⟩ := attached
  rw [irqDisable, if_neg (Nat.not_le.mpr irq_lt),
    if_neg (by simp [Option.isSome_iff_ne_none.mp chip])]

/-- A start out of range fails without effect, any other leaves the timer armed. -/
theorem i8254TimerStart_cases (attached : dev.Attached) (command : ℕ) (mode : TimerDeviceMode)
    (ns : ℕ) :
    (¬ (dev.minDeltaNs ≤ ns ∧ ns ≤ dev.maxDeltaNs) ∧
        i8254TimerStart command mode dev ns = (.error .range, dev)) ∨
      (dev.minDeltaNs ≤ ns ∧ ns ≤ dev.maxDeltaNs) ∧
        ∃ dev', i8254TimerStart command mode dev ns = (.ok (), dev') ∧ dev'.Attached ∧
          dev'.mode = mode ∧ dev'.Enabled := by
  rw [i8254TimerStart]
  split_ifs with range
  · exact .inl ⟨by omega, rfl⟩
  · right
    have enabled := irqEnable_attached (i8254Program { dev with interrupts := false } command
      (ns * i8254BaseFreq % 2 ^ 64 / nsPerSec)) attached
    simp only [enabled]
    exact ⟨by omega, _, rfl, attached, rfl, i8259UnmaskIrq_unmasked _ _⟩

theorem i8254TimerStop_eq (attached : dev.Attached) :
    ∃ dev', i8254TimerStop dev = (.ok (), dev') ∧ dev'.Attached ∧ dev'.mode = .disabled := by
  have disabled :=
    irqDisable_attached { dev with interrupts := false, mode := .disabled } attached
  rw [i8254TimerStop]
  simp only [disabled]
  exact ⟨_, rfl, attached, rfl⟩

/-- The timer after a call accepted: what the call asks for is due and holds. -/
structure TimerRun.Asked (run : TimerRun Handler) (call : TimerCall) : Prop where
  attached : run.dev.Attached
  asked : run.armed = call.armed
  armed : run.Armed
  idle : call.armed = none → run.dev.mode = .disabled

/-- A call not accepted has no effect, any other leaves what it asks for. -/
theorem TimerRun.call_cases (attached : run.dev.Attached) (call : TimerCall) :
    (call.Accepted run.dev = false ∧ run.call call = run) ∨
      (call.Accepted run.dev = true ∧ (run.call call).Asked call) := by
  have start (command : ℕ) (mode : TimerDeviceMode) (ns : ℕ)
      (call_eq : i8254Call run.dev call = i8254TimerStart command mode run.dev ns)
      (accepted_eq : call.Accepted run.dev =
        (decide (run.dev.minDeltaNs ≤ ns) && decide (ns ≤ run.dev.maxDeltaNs)))
      (asks : call.armed = some mode) :
      (call.Accepted run.dev = false ∧ run.call call = run) ∨
        (call.Accepted run.dev = true ∧ (run.call call).Asked call) := by
    rw [accepted_eq, ← Bool.decide_and, decide_eq_false_iff_not, decide_eq_true_eq, TimerRun.call,
      call_eq]
    rcases i8254TimerStart_cases attached command mode ns with
      ⟨range, failed⟩ | ⟨range, dev', started, attached', mode_eq, enabled⟩
    · left
      rw [failed]
      exact ⟨range, rfl⟩
    · right
      rw [started]
      refine ⟨range, attached', rfl, fun mode' due => ?_, fun none => ?_⟩
      · rw [asks] at due
        cases due
        exact ⟨mode_eq, enabled⟩
      · rw [asks] at none
        cases none
  cases call with
  | startPeriodic ns => exact start _ _ ns rfl rfl rfl
  | startOneshot ns => exact start _ _ ns rfl rfl rfl
  | stop =>
      right
      obtain ⟨dev', stopped, attached', mode_eq⟩ := i8254TimerStop_eq attached
      rw [TimerRun.call, i8254Call, stopped]
      exact ⟨rfl, attached', rfl, nofun, fun _ => mode_eq⟩

theorem TimerRun.Inv.call (inv : run.Inv) (call : TimerCall) : (run.call call).Inv := by
  rcases TimerRun.call_cases inv.attached call with ⟨-, same⟩ | ⟨-, asked⟩
  · rw [same]
    exact inv
  · exact ⟨asked.attached, asked.armed, fun none => asked.idle (asked.asked.symm.trans none)⟩

theorem TimerRun.CallbackInv.call (inv : run.CallbackInv) (call : TimerCall) :
    (run.call call).CallbackInv := by
  rcases TimerRun.call_cases inv.attached call with ⟨-, same⟩ | ⟨-, asked⟩
  · rw [same]
    exact inv
  · exact ⟨asked.attached, asked.armed, fun none =>
      .inl (asked.idle (asked.asked.symm.trans none))⟩

/-- No call changes the range of the timer. -/
theorem TimerCall.accepted_call (run : TimerRun Handler) (call call' : TimerCall) :
    call'.Accepted (run.call call).dev = call'.Accepted run.dev := by
  have start (command : ℕ) (mode : TimerDeviceMode) (ns : ℕ) :
      call'.Accepted (i8254TimerStart command mode run.dev ns).2 = call'.Accepted run.dev := by
    rw [i8254TimerStart]
    split_ifs
    · rfl
    · dsimp only
      split <;> cases call' <;> rfl
  cases call with
  | startPeriodic ns => exact start _ _ ns
  | startOneshot ns => exact start _ _ ns
  | stop =>
      rw [TimerRun.call, i8254Call, i8254TimerStop]
      dsimp only
      split <;> cases call' <;> rfl

/-- After a sequence of calls is due what the last call accepted asks for. -/
theorem foldl_call_armed (attached : run.dev.Attached) (calls : List TimerCall) :
    (calls.foldl TimerRun.call run).armed =
      ((calls.filter (·.Accepted run.dev)).getLast?.map TimerCall.armed).getD run.armed := by
  induction calls generalizing run with
  | nil => rfl
  | cons call calls induction =>
      rw [List.foldl_cons]
      rcases TimerRun.call_cases attached call with ⟨refused, same⟩ | ⟨accepted, asked⟩
      · rw [same, List.filter_cons_of_neg (by simp [refused])]
        exact induction attached
      · rw [induction asked.attached, List.filter_cons_of_pos accepted, List.getLast?_cons,
          asked.asked]
        simp only [TimerCall.accepted_call]
        cases (calls.filter (·.Accepted run.dev)).getLast? <;> rfl

/-- The callback ends with a shot due exactly if its last call accepted is a one-shot start. -/
theorem deliver_armed_ne_oneshot (attached : run.dev.Attached) (calls : List TimerCall) :
    (calls.foldl TimerRun.call run.deliver).armed ≠ some .oneshot ↔
      ∀ deltaNs, (calls.filter (·.Accepted run.dev)).getLast? ≠ some (.startOneshot deltaNs) := by
  have delivered : run.deliver.dev.Attached := attached
  rw [foldl_call_armed delivered calls]
  show ((calls.filter (·.Accepted run.dev)).getLast?.map TimerCall.armed).getD
    run.deliver.armed ≠ some .oneshot ↔ _
  cases (calls.filter (·.Accepted run.dev)).getLast? with
  | none =>
      rw [TimerRun.deliver]
      simp only [Option.map_none, Option.getD_none]
      split_ifs with shot
      · simp
      · simp [shot]
  | some call => cases call <;> simp [TimerCall.armed]

theorem TimerRun.CallbackInv.calls (inv : run.CallbackInv) (calls : List TimerCall) :
    (calls.foldl TimerRun.call run).CallbackInv := by
  induction calls generalizing run with
  | nil => exact inv
  | cons call calls induction => exact induction (inv.call call)

/-- The callback starts with the delivered shot no longer due. -/
theorem TimerRun.Inv.deliver (inv : run.Inv) : run.deliver.CallbackInv := by
  refine ⟨inv.attached, fun mode due => ?_, fun none => ?_⟩
  · rw [TimerRun.deliver] at due
    split_ifs at due
    exact inv.armed mode due
  · rw [TimerRun.deliver] at none
    split_ifs at none with shot
    · exact .inr (inv.armed _ shot).1
    · exact .inl (inv.idle none)

theorem foldl_call_dev (run : TimerRun Handler) (calls : List TimerCall) :
    (calls.foldl TimerRun.call run).dev =
      calls.foldl (fun dev call => (i8254Call dev call).2) run.dev := by
  induction calls generalizing run with
  | nil => rfl
  | cons call calls induction => exact induction (run.call call)

/-- The end of the handler disarms a timer in one-shot mode. -/
theorem TimerRun.CallbackInv.leave (inv : run.CallbackInv) {dev : I8254 Handler}
    (left : dev = if run.dev.mode = .oneshot then
      { run.dev with lines := (irqDisable run.dev.lines run.dev.irq).2, mode := .disabled }
      else run.dev) :
    ((TimerRun.mk dev run.armed).Armed ↔ run.armed ≠ some .oneshot) ∧
      (run.armed ≠ some .oneshot → (TimerRun.mk dev run.armed).Inv) := by
  subst left
  by_cases shot : run.dev.mode = .oneshot
  · have attached : I8254.Attached { run.dev with
        lines := (irqDisable run.dev.lines run.dev.irq).2, mode := .disabled } := by
      rw [irqDisable_attached run.dev inv.attached]
      exact inv.attached
    have none_due (harmless : run.armed ≠ some .oneshot) : run.armed = none := by
      cases due : run.armed with
      | none => rfl
      | some mode =>
          rw [← (inv.armed mode due).1, shot] at due
          exact absurd due harmless
    rw [if_pos shot]
    refine ⟨⟨fun armed due => ?_, fun harmless mode due => ?_⟩, fun harmless => ?_⟩
    · cases (armed _ due).1
    · cases (none_due harmless).symm.trans due
    · refine ⟨attached, fun mode due => ?_, fun _ => rfl⟩
      cases (none_due harmless).symm.trans due
  · rw [if_neg shot]
    have harmless : run.armed ≠ some .oneshot := fun due => shot (inv.armed _ due).1
    refine ⟨iff_of_true inv.armed harmless, fun _ => ⟨inv.attached, inv.armed, fun none => ?_⟩⟩
    exact (inv.idle none).resolve_right shot

/-- An interrupt leaves the timer armed as asked for exactly if it takes no shot away. -/
theorem TimerRun.Inv.interrupt (inv : run.Inv) (calls : List TimerCall) :
    ((run.interrupt calls).Armed ↔ run.dev.Harmless calls) ∧
      (run.dev.Harmless calls → (run.interrupt calls).Inv) := by
  rw [TimerRun.interrupt, I8254.Harmless]
  by_cases delivers : i8254Delivers run.dev
  · simp only [delivers, if_true]
    rw [← deliver_armed_ne_oneshot inv.attached]
    refine (inv.deliver.calls calls).leave ?_
    rw [i8254IrqHandler, if_pos delivers, foldl_call_dev]
    rfl
  · simp only [delivers, if_false, Bool.false_eq_true]
    have outside : run.CallbackInv := ⟨inv.attached, inv.armed, fun none => .inl (inv.idle none)⟩
    have mode_iff : run.armed ≠ some .oneshot ↔ run.dev.mode ≠ .oneshot := by
      refine not_congr ⟨fun due => (inv.armed _ due).1, fun shot => ?_⟩
      cases due : run.armed with
      | none =>
          rw [inv.idle due] at shot
          cases shot
      | some mode => rw [← (inv.armed mode due).1, shot]
    rw [← mode_iff]
    refine outside.leave ?_
    rw [i8254IrqHandler, if_neg delivers]

theorem TimerStep.inv (step : TimerStep run run') (inv : run.Inv) : run'.Inv := by
  cases step with
  | call call => exact inv.call call
  | setEvent event => exact ⟨inv.attached, inv.armed, inv.idle⟩
  | interrupt harmless => exact (inv.interrupt _).2 harmless

/-- The probe leaves the timer attached and disabled. -/
theorem i8254Probe_inv {lines : IrqLines Handler} {map hwirq portBase devId : ℕ}
    {handler : Handler} (probe : i8254Probe lines map hwirq portBase devId handler = .ok dev) :
    (TimerRun.mk dev none).Inv := by
  rw [i8254Probe] at probe
  split_ifs at probe
  rw [irqRequest] at probe
  split_ifs at probe with large unallocated unmapped busy
  have chip : (lines.irqs.irqDescs (irqMapHwirqToIrq (lines.irqs.maps map) hwirq)).chip.isSome := by
    rw [Bool.or_eq_true, not_or] at unmapped
    exact Option.isSome_iff_ne_none.mpr (by simpa using unmapped.2)
  cases probe
  refine ⟨⟨Nat.not_le.mp large, ?_⟩, nofun, fun _ => rfl⟩
  simp only [Function.update_self]
  exact chip

/-- In every run after the probe in which interrupts take no shot away, the timer is in the mode
that was asked for last, with its line enabled, also after each call and within each callback; and
an interrupt keeps this exactly if it takes no shot away. -/
theorem i8254_armed_of_run {lines : IrqLines Handler} {map hwirq portBase devId : ℕ}
    {handler : Handler} (probe : i8254Probe lines map hwirq portBase devId handler = .ok dev)
    (steps : Relation.ReflTransGen TimerStep ⟨dev, none⟩ run) :
    run.Armed ∧ (∀ calls : List TimerCall, (calls.foldl TimerRun.call run.deliver).Armed) ∧
      ∀ calls : List TimerCall, (run.interrupt calls).Armed ↔ run.dev.Harmless calls := by
  have inv : run.Inv := by
    induction steps with
    | refl => exact i8254Probe_inv probe
    | tail _ step induction => exact step.inv induction
  exact ⟨inv.armed, fun calls => (inv.deliver.calls calls).armed, fun calls =>
    (inv.interrupt calls).1⟩

end Runs

/-- The timer of line 0 after the set-up. -/
def bootTimer : I8254 Unit where
  mode := .disabled
  minDeltaNs := i8254MinDeltaNs
  maxDeltaNs := i8254MaxDeltaNs
  event := false
  portBase := 0x40
  irq := irqMapHwirqToIrq (bootSystem.irqs.maps 0x1000) 0
  lines := { bootSystem with
    irqs := (irqRequest bootSystem.irqs (irqMapHwirqToIrq (bootSystem.irqs.maps 0x1000) 0) () 0).2 }
  interrupts := true
  ports := []

theorem bootTimer_probe : i8254Probe bootSystem 0x1000 0 0x40 0 () = .ok bootTimer := by
  have requested : (irqRequest bootSystem.irqs
      (irqMapHwirqToIrq (bootSystem.irqs.maps 0x1000) 0) () 0).1 = .ok () := by
    decide +kernel
  rw [i8254Probe]
  rw [if_neg (by decide +kernel)]
  split
  · next failed =>
      rw [failed] at requested
      cases requested
  · next done =>
      rw [bootTimer, done]

/-- A callback is installed and a shot of a millisecond is started. -/
def bootShot : TimerRun Unit :=
  TimerRun.call ⟨{ bootTimer with event := true }, none⟩ (.startOneshot 1000000)

theorem bootShot_steps : Relation.ReflTransGen TimerStep ⟨bootTimer, none⟩ bootShot :=
  (Relation.ReflTransGen.single (.setEvent true)).tail (.call _)

theorem i8254_armed_of_run_shot :
    bootShot.Armed ∧ (bootShot.interrupt [.startPeriodic 1000000]).Armed := by
  obtain ⟨armed, -, kept⟩ := i8254_armed_of_run bootTimer_probe bootShot_steps
  have last : ([TimerCall.startPeriodic 1000000].filter
      (·.Accepted bootShot.dev)).getLast? = some (.startPeriodic 1000000) := by
    decide +kernel
  refine ⟨armed, (kept _).mpr ?_⟩
  rw [I8254.Harmless, if_pos (by decide +kernel), last]
  nofun

/-- The callback starts the next shot, and the end of the handler disarms it. -/
theorem i8254IrqHandler_cancels_shot :
    (bootShot.interrupt [.startOneshot 1000000]).armed = some .oneshot ∧
      (bootShot.interrupt [.startOneshot 1000000]).dev.mode = .disabled ∧
      ¬ (bootShot.interrupt [.startOneshot 1000000]).Armed := by
  have armed : (bootShot.interrupt [.startOneshot 1000000]).armed = some .oneshot := by
    decide +kernel
  have mode : (bootShot.interrupt [.startOneshot 1000000]).dev.mode = .disabled := by
    decide +kernel
  refine ⟨armed, mode, fun kept => ?_⟩
  cases mode.symm.trans (kept _ armed).1

end ItWorksOS
