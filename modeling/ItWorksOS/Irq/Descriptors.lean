import ItWorksOS.Irq.Maps

/-!
# Descriptors and allocation

`irq_map_destroy` releases numbers without touching any descriptor, neither those of its numbers nor
those that name the map. As long as no map is destroyed while one of its numbers is configured or a
handler is registered under it, and no handler is requested under a destroyed map, the descriptors
follow the allocation.
-/

namespace ItWorksOS

variable {Handler : Type*}

/-- A call on the interrupt subsystem. -/
inductive IrqOp (Handler : Type*) where
  | mapInit (map : ℕ) (name : String) (firstHwirq count : ℕ)
  | descConfigure (irq hwirq map : ℕ) (chip : IrqChip)
  | request (irq : ℕ) (handler : Handler) (devId : ℕ)
  | free (irq : ℕ)
  | mapDestroy (map : ℕ)

/-- The call that an operation makes. -/
def irqCall (state : IrqState Handler) : IrqOp Handler → Status × IrqState Handler
  | .mapInit map name firstHwirq count => irqMapInit state map name firstHwirq count
  | .descConfigure irq hwirq map chip => irqDescConfigure state irq hwirq map chip
  | .request irq handler devId => irqRequest state irq handler devId
  | .free irq => irqFree state irq
  | .mapDestroy map => irqMapDestroy state map

/-- The interrupt state together with the history of each number and each map. -/
structure IrqHistory (Handler : Type*) where
  /-- Interrupt state. -/
  state : IrqState Handler
  /-- How often the number was released by a successful `irq_map_destroy`. -/
  releases : ℕ → ℕ
  /-- How often the map was destroyed. -/
  destroys : ℕ → ℕ
  /-- Whether the map was destroyed after its last successful `irq_map_init`. -/
  destroyed : ℕ → Bool
  /-- The release count at the number's last successful `irq_request`. -/
  requested : ℕ → ℕ
  /-- The destroy count of the number's map at its last successful `irq_request`. -/
  registered : ℕ → ℕ

/-- The history after a call. -/
def IrqHistory.after (history : IrqHistory Handler) (op : IrqOp Handler) :
    IrqHistory Handler where
  state := (irqCall history.state op).2
  releases :=
    match op, (irqCall history.state op).1 with
    | .mapDestroy map, .ok () => fun irq =>
        if (history.state.maps map).Owns irq then history.releases irq + 1 else history.releases irq
    | _, _ => history.releases
  destroys :=
    match op, (irqCall history.state op).1 with
    | .mapDestroy map, .ok () =>
        Function.update history.destroys map (history.destroys map + 1)
    | _, _ => history.destroys
  destroyed :=
    match op, (irqCall history.state op).1 with
    | .mapInit map _ _ _, .ok () => Function.update history.destroyed map false
    | .mapDestroy map, .ok () => Function.update history.destroyed map true
    | _, _ => history.destroyed
  requested :=
    match op, (irqCall history.state op).1 with
    | .request irq _ _, .ok () => Function.update history.requested irq (history.releases irq)
    | _, _ => history.requested
  registered :=
    match op, (irqCall history.state op).1 with
    | .request irq _ _, .ok () => Function.update history.registered irq
        ((history.state.irqDescs irq).map.elim 0 history.destroys)
    | _, _ => history.registered

/-- Before any call. -/
def irqHistoryInit (maps : ℕ → IrqMap) : IrqHistory Handler where
  state := irqInit maps
  releases := fun _ => 0
  destroys := fun _ => 0
  destroyed := fun _ => false
  requested := fun _ => 0
  registered := fun _ => 0

/-- The map has numbers, and all of them are allocated. -/
def AllocatedMap (state : IrqState Handler) (map : ℕ) : Prop :=
  0 < (state.maps map).count ∧
    ∀ irq, (state.maps map).Owns irq → irqIsAllocated state irq = true

/-- No number of the map is configured, and no handler is registered under the map. -/
structure UnusedMap (state : IrqState Handler) (map : ℕ) : Prop where
  unconfigured : ∀ irq, (state.maps map).Owns irq → (state.irqDescs irq).map = none
  unregistered : ∀ irq, (state.irqDescs irq).map = some map → (state.irqDescs irq).handler = none

/-- A map with allocated numbers is destroyed only while it is unused, and no handler is requested
for an allocated number under a destroyed map; other calls are free. -/
def IrqOp.Clean (history : IrqHistory Handler) : IrqOp Handler → Prop
  | .mapDestroy map => AllocatedMap history.state map → UnusedMap history.state map
  | .request irq _ _ => irqIsAllocated history.state irq = true →
      (history.state.irqDescs irq).handler = none →
        ∀ map, (history.state.irqDescs irq).map = some map → history.destroyed map = false
  | _ => True

/-- One clean call. -/
inductive CleanIrqStep : IrqHistory Handler → IrqHistory Handler → Prop
  | call {history : IrqHistory Handler} (op : IrqOp Handler) (clean : op.Clean history) :
      CleanIrqStep history (history.after op)

/-- The map in the descriptor of a number is not destroyed, and neither was it since the number's
handler was registered. -/
def IrqHistory.RegisteredLive (history : IrqHistory Handler) (irq : ℕ) : Prop :=
  ∃ map, (history.state.irqDescs irq).map = some map ∧ history.destroyed map = false ∧
    history.registered irq = history.destroys map

/-- A number without a map has no chip and no handler, an unallocated one has no map, and a handler
was registered since the last release of its number, under a map that is still there. -/
structure IrqHistory.Inv (history : IrqHistory Handler) : Prop where
  unallocated : ∀ irq, irq < irqMax → irqIsAllocated history.state irq = false →
    (history.state.irqDescs irq).map = none
  unmapped : ∀ irq, (history.state.irqDescs irq).map = none →
    (history.state.irqDescs irq).chip = none ∧ (history.state.irqDescs irq).handler = none
  recent : ∀ irq, (history.state.irqDescs irq).handler ≠ none →
    history.requested irq = history.releases irq
  live : ∀ irq, (history.state.irqDescs irq).handler ≠ none → history.RegisteredLive irq

/-! ## What each call does -/

theorem irqDescConfigure_cases (state : IrqState Handler) (irq hwirq map : ℕ) (chip : IrqChip) :
    (∃ error, irqDescConfigure state irq hwirq map chip = (.error error, state)) ∨
      (irq < irqMax ∧ irqIsAllocated state irq = true ∧ (state.irqDescs irq).map = none ∧
        irqDescConfigure state irq hwirq map chip =
          (.ok (), { state with
            irqDescs := Function.update state.irqDescs irq
              { state.irqDescs irq with
                hwirq := hwirq, map := some map, chip := some chip } })) := by
  unfold irqDescConfigure
  split_ifs with large unallocated busy outside
  · exact .inl ⟨_, rfl⟩
  · exact .inl ⟨_, rfl⟩
  · exact .inl ⟨_, rfl⟩
  · exact .inl ⟨_, rfl⟩
  · exact .inr ⟨by omega, by simpa using unallocated, by simpa using busy, rfl⟩

theorem irqRequest_cases (state : IrqState Handler) (irq : ℕ) (handler : Handler) (devId : ℕ) :
    (∃ error, irqRequest state irq handler devId = (.error error, state)) ∨
      (irqIsAllocated state irq = true ∧ (∃ map, (state.irqDescs irq).map = some map) ∧
        (state.irqDescs irq).handler = none ∧
        irqRequest state irq handler devId =
          (.ok (), { state with
            irqDescs := Function.update state.irqDescs irq
              { state.irqDescs irq with handler := some handler, devId := devId } })) := by
  unfold irqRequest
  split_ifs with large unallocated unmapped busy
  · exact .inl ⟨_, rfl⟩
  · exact .inl ⟨_, rfl⟩
  · exact .inl ⟨_, rfl⟩
  · exact .inl ⟨_, rfl⟩
  · refine .inr ⟨by simpa using unallocated, ?_, by simpa using busy, rfl⟩
    cases owner : (state.irqDescs irq).map with
    | none => exact absurd (by simp [owner]) unmapped
    | some map => exact ⟨map, rfl⟩

theorem irqFree_cases (state : IrqState Handler) (irq : ℕ) :
    (∃ error, irqFree state irq = (.error error, state)) ∨
      (irqIsAllocated state irq = true ∧
        irqFree state irq =
          (.ok (), { state with
            irqDescs := Function.update state.irqDescs irq
              { state.irqDescs irq with handler := none } })) := by
  unfold irqFree
  split_ifs with large unallocated unmapped missing
  · exact .inl ⟨_, rfl⟩
  · exact .inl ⟨_, rfl⟩
  · exact .inl ⟨_, rfl⟩
  · exact .inl ⟨_, rfl⟩
  · exact .inr ⟨by simpa using unallocated, rfl⟩

/-- A dispatched handler is the one in the descriptor of its number. -/
theorem irqDispatch_handler {state : IrqState Handler} {chip : IrqChip} {map vector irq : ℕ}
    {handler : Handler} {devId : ℕ}
    (dispatched : irqDispatch state chip map vector = .ok (irq, handler, devId)) :
    irq < irqMax ∧ (state.irqDescs irq).handler = some handler := by
  unfold irqDispatch at dispatched
  split at dispatched
  · cases dispatched
  · dsimp only at dispatched
    split_ifs at dispatched with invalid large
    split at dispatched
    · cases dispatched
    · rename_i registered
      cases dispatched
      exact ⟨Nat.not_le.mp large, registered⟩

/-! ## Preservation -/

/-- A failed call that leaves the state alone keeps the history. -/
theorem IrqHistory.after_of_error (history : IrqHistory Handler) (op : IrqOp Handler)
    {error : KError} (call : irqCall history.state op = (.error error, history.state)) :
    history.after op = history := by
  cases op
  all_goals simp only [after, call]

/-- Writing the descriptor of one number keeps the invariant when the new contents do. -/
theorem IrqHistory.Inv.update {history : IrqHistory Handler} (inv : history.Inv) {irq : ℕ}
    {desc : IrqDesc Handler} {requested registered : ℕ → ℕ}
    (others : ∀ other, other ≠ irq → requested other = history.requested other ∧
      registered other = history.registered other)
    (allocated : irqIsAllocated history.state irq = false → desc.map = none)
    (mapped : desc.map = none → desc.chip = none ∧ desc.handler = none)
    (recent : desc.handler ≠ none → requested irq = history.releases irq ∧
      ∃ map, desc.map = some map ∧ history.destroyed map = false ∧
        registered irq = history.destroys map) :
    IrqHistory.Inv
      { history with
        state := { history.state with
          irqDescs := Function.update history.state.irqDescs irq desc }
        requested := requested
        registered := registered } := by
  constructor
  case unallocated =>
    intro other bounded free
    by_cases same : other = irq
    · subst same
      simpa using allocated free
    · simpa [Function.update_of_ne same] using inv.unallocated other bounded free
  case unmapped =>
    intro other
    by_cases same : other = irq
    · subst same
      simpa using mapped
    · simpa [Function.update_of_ne same] using inv.unmapped other
  case recent =>
    intro other
    by_cases same : other = irq
    · subst same
      simpa using fun present => (recent present).1
    · simpa [Function.update_of_ne same, others other same] using inv.recent other
  case live =>
    intro other
    by_cases same : other = irq
    · subst same
      simpa [RegisteredLive] using fun present => (recent present).2
    · simpa [RegisteredLive, Function.update_of_ne same, others other same] using inv.live other

theorem irqHistoryInit_inv (maps : ℕ → IrqMap) :
    (irqHistoryInit maps : IrqHistory Handler).Inv where
  unallocated := fun _ _ _ => rfl
  unmapped := fun _ _ => ⟨rfl, rfl⟩
  recent := fun _ _ => rfl
  live := fun _ present => absurd rfl present

theorem IrqHistory.Inv.mapInit {history : IrqHistory Handler} (inv : history.Inv)
    (map : ℕ) (name : String) (firstHwirq count : ℕ) :
    (history.after (.mapInit map name firstHwirq count)).Inv := by
  rcases irqMapInit_cases history.state map name firstHwirq count with
    ⟨_, call⟩ | ⟨_, _, _, call⟩ | ⟨first, _, _, _, call⟩
  · rwa [history.after_of_error (.mapInit map name firstHwirq count) call]
  · rwa [history.after_of_error (.mapInit map name firstHwirq count) call]
  · constructor
    case unallocated =>
      intro irq bounded free
      simp only [after, irqCall, call] at free ⊢
      refine inv.unallocated irq bounded ?_
      rw [irqIsAllocated, if_neg (Nat.not_le.mpr bounded)] at free ⊢
      rw [bitmapTest_bitmapSetRange, Bool.or_eq_false_iff] at free
      exact free.2
    case unmapped =>
      simp only [after, irqCall, call]
      exact inv.unmapped
    case recent =>
      simp only [after, irqCall, call]
      exact inv.recent
    case live =>
      intro irq present
      simp only [after, irqCall, call, RegisteredLive] at present ⊢
      obtain ⟨owner, mapped, live, kept⟩ := inv.live irq present
      refine ⟨owner, mapped, ?_, kept⟩
      by_cases same : owner = map
      · rw [same, Function.update_self]
      · rwa [Function.update_of_ne same]

theorem IrqHistory.Inv.descConfigure {history : IrqHistory Handler} (inv : history.Inv)
    (irq hwirq map : ℕ) (chip : IrqChip) :
    (history.after (.descConfigure irq hwirq map chip)).Inv := by
  rcases irqDescConfigure_cases history.state irq hwirq map chip with
    ⟨error, call⟩ | ⟨_, allocated, unmapped, call⟩
  · rwa [history.after_of_error (.descConfigure irq hwirq map chip) call]
  · have handler := (inv.unmapped irq unmapped).2
    simp only [after, irqCall, call]
    refine inv.update (fun _ _ => ⟨rfl, rfl⟩) (fun free => ?_) nofun fun registered => ?_
    · rw [allocated] at free
      cases free
    · exact absurd handler registered

theorem IrqHistory.Inv.request {history : IrqHistory Handler} (inv : history.Inv) {irq : ℕ}
    {handler : Handler} {devId : ℕ} (clean : (IrqOp.request irq handler devId).Clean history) :
    (history.after (.request irq handler devId)).Inv := by
  rcases irqRequest_cases history.state irq handler devId with
    ⟨error, call⟩ | ⟨allocated, ⟨map, mapped⟩, free, call⟩
  · rwa [history.after_of_error (.request irq handler devId) call]
  · simp only [after, irqCall, call, mapped]
    refine inv.update (fun other distinct => ?_) (fun free => ?_) nofun fun _ => ?_
    · exact ⟨Function.update_of_ne distinct _ _, Function.update_of_ne distinct _ _⟩
    · rw [allocated] at free
      cases free
    · refine ⟨Function.update_self .., map, rfl, clean allocated free map mapped, ?_⟩
      rw [Function.update_self]
      rfl

theorem IrqHistory.Inv.free {history : IrqHistory Handler} (inv : history.Inv) (irq : ℕ) :
    (history.after (.free irq)).Inv := by
  rcases irqFree_cases history.state irq with ⟨error, call⟩ | ⟨allocated, call⟩
  · rwa [history.after_of_error (.free irq) call]
  · simp only [after, irqCall, call]
    refine inv.update (fun _ _ => ⟨rfl, rfl⟩) (fun free => ?_)
      (fun missing => ⟨(inv.unmapped irq missing).1, rfl⟩) (fun registered => absurd rfl registered)
    rw [allocated] at free
    cases free

theorem IrqHistory.Inv.mapDestroy {history : IrqHistory Handler} (inv : history.Inv) {map : ℕ}
    (clean : (IrqOp.mapDestroy map).Clean history) : (history.after (.mapDestroy map)).Inv := by
  rcases irqFreeRange_cases history.state (history.state.maps map).firstIrq
    (history.state.maps map).count with ⟨error, call, _⟩ | ⟨count_pos, inside, all, call⟩
  · rwa [history.after_of_error (.mapDestroy map) call]
  obtain ⟨unconfigured, unregistered⟩ := clean ⟨count_pos, fun irq owned => by
    have bounded : irq < irqMax := Nat.lt_of_lt_of_le owned.2 inside
    rw [irqIsAllocated, if_neg (Nat.not_le.mpr bounded)]
    exact (bitmapAllSet_iff _ _ _).mp all irq owned.1 owned.2⟩
  constructor
  case unallocated =>
    intro irq bounded free
    simp only [after, irqCall, irqMapDestroy, call] at free ⊢
    by_cases owned : (history.state.maps map).Owns irq
    · exact unconfigured irq owned
    · refine inv.unallocated irq bounded ?_
      rw [irqIsAllocated, if_neg (Nat.not_le.mpr bounded)] at free ⊢
      rw [bitmapTest_bitmapClearRange, Bool.and_eq_false_iff] at free
      rcases free with inside | free
      · exact absurd (by simpa [IrqMap.Owns] using inside) owned
      · exact free
  case unmapped =>
    simp only [after, irqCall, irqMapDestroy, call]
    exact inv.unmapped
  case recent =>
    intro irq registered
    simp only [after, irqCall, irqMapDestroy, call] at registered ⊢
    have unowned : ¬ (history.state.maps map).Owns irq := fun owned =>
      registered (inv.unmapped irq (unconfigured irq owned)).2
    rw [if_neg unowned]
    exact inv.recent irq registered
  case live =>
    intro irq present
    simp only [after, irqCall, irqMapDestroy, call, RegisteredLive] at present ⊢
    obtain ⟨owner, mapped, live, kept⟩ := inv.live irq present
    have distinct : owner ≠ map := by
      rintro rfl
      exact present (unregistered irq mapped)
    refine ⟨owner, mapped, ?_, ?_⟩
    · rwa [Function.update_of_ne distinct]
    · rwa [Function.update_of_ne distinct]

theorem CleanIrqStep.inv {history history' : IrqHistory Handler}
    (step : CleanIrqStep history history') (inv : history.Inv) : history'.Inv := by
  obtain ⟨op, clean⟩ := step
  cases op with
  | mapInit map name firstHwirq count => exact inv.mapInit map name firstHwirq count
  | descConfigure irq hwirq map chip => exact inv.descConfigure irq hwirq map chip
  | request irq handler devId => exact inv.request clean
  | free irq => exact inv.free irq
  | mapDestroy map => exact inv.mapDestroy clean

theorem irqHistory_inv_of_run {maps : ℕ → IrqMap} {history : IrqHistory Handler}
    (run : Relation.ReflTransGen CleanIrqStep (irqHistoryInit maps) history) : history.Inv := by
  induction run with
  | refl => exact irqHistoryInit_inv maps
  | tail _ step induction => exact step.inv induction

/-! ## Reuse of released numbers -/

theorem irqDescConfigure_ok (state : IrqState Handler) {irq hwirq map : ℕ} (chip : IrqChip)
    (allocated : irqIsAllocated state irq = true) (unconfigured : (state.irqDescs irq).map = none)
    (covered : (state.maps map).covers hwirq = true) :
    irqDescConfigure state irq hwirq map chip =
      (.ok (), { state with
        irqDescs := Function.update state.irqDescs irq
          { state.irqDescs irq with hwirq := hwirq, map := some map, chip := some chip } }) := by
  have bounded : ¬ irqMax ≤ irq := by
    intro large
    rw [irqIsAllocated, if_pos large] at allocated
    cases allocated
  rw [irqDescConfigure, if_neg bounded, if_neg (by simp [allocated]),
    if_neg (by simp [unconfigured]),
    if_neg (by simp [covered])]

/-- All numbers of a map can be configured one after the other. -/
theorem irqMapConfigure_ok (state : IrqState Handler) (map : ℕ) (chip : IrqChip)
    (hardware : (state.maps map).firstHwirq + (state.maps map).count < 2 ^ 32)
    (inside : (state.maps map).firstIrq + (state.maps map).count ≤ irqMax)
    (allocated : ∀ irq, (state.maps map).Owns irq → irqIsAllocated state irq = true)
    (unconfigured : ∀ irq, (state.maps map).Owns irq → (state.irqDescs irq).map = none) {n : ℕ}
    (bounded : n ≤ (state.maps map).count) :
    ∃ descs, irqMapConfigure state map chip n = (.ok (), { state with irqDescs := descs }) ∧
      ∀ irq, (state.maps map).firstIrq + n ≤ irq → descs irq = state.irqDescs irq := by
  induction n with
  | zero => exact ⟨state.irqDescs, rfl, fun _ _ => rfl⟩
  | succ n induction =>
      obtain ⟨descs, configured, kept⟩ := induction (by omega)
      have mapped : (state.maps map).Maps ((state.maps map).firstHwirq + n) := by
        unfold IrqMap.Maps
        omega
      obtain ⟨value, owned⟩ := irqMapHwirqToIrq_inside hardware inside mapped
      rw [Nat.add_sub_cancel_left] at value
      rw [value] at owned
      have free : (descs ((state.maps map).firstIrq + n)).map = none := by
        rw [kept _ (Nat.le_refl _)]
        exact unconfigured _ owned
      have accepted := irqDescConfigure_ok { state with irqDescs := descs } chip
        (allocated _ owned) free ((IrqMap.covers_iff hardware _).mpr mapped)
      refine ⟨Function.update descs ((state.maps map).firstIrq + n)
        { descs ((state.maps map).firstIrq + n) with
          hwirq := (state.maps map).firstHwirq + n, map := some map, chip := some chip },
        ?_, fun irq later => ?_⟩
      · rw [irqMapConfigure, configured, kerrTry_ok]
        dsimp only
        rw [value]
        exact accepted
      · rw [Function.update_of_ne (by omega)]
        exact kept irq (by omega)

theorem irqDescConfigure_ne_busy {state : IrqState Handler} {irq : ℕ} (hwirq map : ℕ)
    (chip : IrqChip) (unconfigured : (state.irqDescs irq).map = none) :
    (irqDescConfigure state irq hwirq map chip).1 ≠ .error .busy := by
  unfold irqDescConfigure
  split_ifs with large unallocated busy
  · rintro ⟨⟩
  · rintro ⟨⟩
  · simp [unconfigured] at busy
  · rintro ⟨⟩
  · rintro ⟨⟩

/-- The numbers of a new map are allocated, and none of them is configured. -/
theorem IrqHistory.Inv.newMap {history : IrqHistory Handler} (inv : history.Inv) {map : ℕ}
    {name : String} {firstHwirq count : ℕ} {state' : IrqState Handler}
    (call : irqMapInit history.state map name firstHwirq count = (.ok (), state')) :
    (state'.maps map).firstHwirq = firstHwirq ∧ (state'.maps map).count = count ∧
      (state'.maps map).firstIrq + (state'.maps map).count ≤ irqMax ∧
      ∀ irq, (state'.maps map).Owns irq →
        irqIsAllocated state' irq = true ∧ (state'.irqDescs irq).map = none := by
  rcases irqMapInit_cases history.state map name firstHwirq count with
    ⟨_, failed⟩ | ⟨_, _, _, failed⟩ | ⟨first, _, upper, clear, succeeded⟩
  · rw [failed] at call
    cases call
  · rw [failed] at call
    cases call
  rw [succeeded] at call
  cases call
  simp only [Function.update_self, IrqMap.Owns, true_and]
  refine ⟨upper, fun irq owned => ?_⟩
  have bounded : irq < irqMax := Nat.lt_of_lt_of_le owned.2 upper
  constructor
  · rw [irqIsAllocated, if_neg (Nat.not_le.mpr bounded), bitmapTest_bitmapSetRange,
      Bool.or_eq_true]
    exact .inl (decide_eq_true owned)
  · refine inv.unallocated irq bounded ?_
    rw [irqIsAllocated, if_neg (Nat.not_le.mpr bounded)]
    exact clear irq owned.1 owned.2

/-- A handler that is dispatched has an allocated number, and is registered under a live map. -/
theorem IrqHistory.Inv.dispatched {history : IrqHistory Handler} (inv : history.Inv)
    {chip : IrqChip} {map vector irq : ℕ} {handler : Handler} {devId : ℕ}
    (dispatched : irqDispatch history.state chip map vector = .ok (irq, handler, devId)) :
    irqIsAllocated history.state irq = true ∧ history.requested irq = history.releases irq ∧
      history.RegisteredLive irq := by
  obtain ⟨bounded, registered⟩ := irqDispatch_handler dispatched
  have present : (history.state.irqDescs irq).handler ≠ none := by
    rw [registered]
    exact Option.some_ne_none _
  refine ⟨?_, inv.recent irq present, inv.live irq present⟩
  by_contra free
  rw [Bool.not_eq_true] at free
  exact present (inv.unmapped irq (inv.unallocated irq bounded free)).2

/-- In every run that destroys a map only while it is unused and requests no handler under a
destroyed map: an unallocated number has no map, chip or handler; a new map can configure each of
its numbers; and every handler that is dispatched was registered after the last release of its
number, under a map that has not been destroyed since. -/
theorem irqDescs_follow_allocation_of_run {maps : ℕ → IrqMap} {history : IrqHistory Handler}
    (run : Relation.ReflTransGen CleanIrqStep (irqHistoryInit maps) history) :
    (∀ irq, irq < irqMax → irqIsAllocated history.state irq = false →
      (history.state.irqDescs irq).map = none ∧ (history.state.irqDescs irq).chip = none ∧
        (history.state.irqDescs irq).handler = none) ∧
    (∀ map name firstHwirq count chip state',
      irqMapInit history.state map name firstHwirq count = (.ok (), state') →
      (∀ irq hwirq, (state'.maps map).Owns irq →
        (irqDescConfigure state' irq hwirq map chip).1 ≠ .error .busy) ∧
      (firstHwirq + count < 2 ^ 32 → (irqMapConfigure state' map chip count).1 = .ok ())) ∧
    (∀ chip map vector irq handler devId,
      irqDispatch history.state chip map vector = .ok (irq, handler, devId) →
      irqIsAllocated history.state irq = true ∧
        history.requested irq = history.releases irq ∧
        ∃ owner, (history.state.irqDescs irq).map = some owner ∧
          history.destroyed owner = false ∧
          history.registered irq = history.destroys owner) := by
  have inv := irqHistory_inv_of_run run
  refine ⟨fun irq bounded free => ?_, fun map name firstHwirq count chip state' call => ?_,
    fun chip map vector irq handler devId dispatched => inv.dispatched dispatched⟩
  · have unmapped := inv.unallocated irq bounded free
    exact ⟨unmapped, inv.unmapped irq unmapped⟩
  · obtain ⟨hardware, count_eq, inside, owned⟩ := inv.newMap call
    refine ⟨fun irq hwirq owns => irqDescConfigure_ne_busy hwirq map chip (owned irq owns).2,
      fun small => ?_⟩
    obtain ⟨descs, configured, _⟩ := irqMapConfigure_ok state' map chip
      (by rwa [hardware, count_eq]) inside (fun irq owns => (owned irq owns).1)
      (fun irq owns => (owned irq owns).2) count_eq.ge
    rw [configured]

/-- A controller whose vector `32 + n` is the hardware number `n`. -/
def picChip : IrqChip where
  name := "i8259"
  handleVector := fun vector => .ok (vector - 32)

/-- The calls of a map that is destroyed without having been configured, and of its successor. -/
def reusedMapCalls : List (IrqOp Unit) :=
  [.mapInit 0x1000 "first" 0 16, .mapDestroy 0x1000, .mapInit 0x2000 "second" 0 16,
    .descConfigure 3 3 0x2000 picChip, .request 3 () 7]

/-- The calls of a map that is destroyed with a configured and requested number, and of its
successor. -/
def staleMapCalls : List (IrqOp Unit) :=
  [.mapInit 0x1000 "first" 0 16, .descConfigure 3 3 0x1000 picChip, .request 3 () 7,
    .mapDestroy 0x1000, .mapInit 0x2000 "second" 0 16]

/-- The calls of two maps, the second of which owns the descriptor of a number of the first and is
destroyed. -/
def foreignMapCalls : List (IrqOp Unit) :=
  [.mapInit 0x1000 "first" 0 16, .mapInit 0x2000 "second" 0 16,
    .descConfigure 3 3 0x2000 picChip, .request 3 () 7, .mapDestroy 0x2000]

/-- A sequence of calls from the initial state. -/
def irqCalls (ops : List (IrqOp Unit)) : IrqHistory Unit :=
  ops.foldl IrqHistory.after (irqHistoryInit fun _ => ⟨"", 0, 0, 0⟩)

theorem irqDescs_follow_allocation_of_run_reused :
    irqDispatch (irqCalls reusedMapCalls).state picChip 0x2000 35 = .ok (3, (), 7) ∧
      (irqCalls reusedMapCalls).requested 3 = (irqCalls reusedMapCalls).releases 3 := by
  have dispatched :
      irqDispatch (irqCalls reusedMapCalls).state picChip 0x2000 35 = .ok (3, (), 7) := by
    decide +kernel
  have run : Relation.ReflTransGen CleanIrqStep (irqHistoryInit fun _ => ⟨"", 0, 0, 0⟩)
      (irqCalls reusedMapCalls) := by
    have unused :
        IrqOp.Clean (irqCalls [.mapInit 0x1000 "first" 0 16]) (.mapDestroy 0x1000) :=
      fun _ => ⟨fun _ _ => rfl, fun _ _ => rfl⟩
    have live : IrqOp.Clean (irqCalls (reusedMapCalls.take 4)) (.request 3 () 7) := by
      rintro _ _ map mapped
      obtain rfl : 0x2000 = map := Option.some.inj (mapped.symm.trans (by decide +kernel)).symm
      decide +kernel
    refine Relation.ReflTransGen.head (.call (.mapInit 0x1000 "first" 0 16) trivial) ?_
    refine .head (.call (.mapDestroy 0x1000) unused) ?_
    refine .head (.call (.mapInit 0x2000 "second" 0 16) trivial) ?_
    refine .head (.call (.descConfigure 3 3 0x2000 picChip) trivial) ?_
    exact .single (.call (.request 3 () 7) live)
  exact ⟨dispatched, ((irqDescs_follow_allocation_of_run run).2.2 _ _ _ _ _ _ dispatched).2.1⟩

/-- After a configured map is destroyed its number is free but keeps map and handler; the next map
that receives it cannot configure it, and the old handler is dispatched. A handler under a map that
owned none of the numbers is dispatched after that map is destroyed, too. -/
theorem irqMapDestroy_keeps_descriptor :
    (irqIsAllocated (irqCalls (staleMapCalls.take 4)).state 3 = false ∧
      ((irqCalls (staleMapCalls.take 4)).state.irqDescs 3).map = some 0x1000 ∧
      ((irqCalls (staleMapCalls.take 4)).state.irqDescs 3).handler = some ()) ∧
    ((irqCalls staleMapCalls).state.maps 0x2000).Owns 3 ∧
    (irqDescConfigure (irqCalls staleMapCalls).state 3 3 0x2000 picChip).1 = .error .busy ∧
    irqDispatch (irqCalls staleMapCalls).state picChip 0x2000 35 = .ok (3, (), 7) ∧
    (irqCalls staleMapCalls).destroyed 0x1000 = true ∧
    (irqDispatch (irqCalls foreignMapCalls).state picChip 0x1000 35 = .ok (3, (), 7) ∧
      ((irqCalls foreignMapCalls).state.irqDescs 3).map = some 0x2000 ∧
      (irqCalls foreignMapCalls).destroyed 0x2000 = true) := by
  refine ⟨⟨?_, ?_, ?_⟩, ?_, ?_, ?_, ?_, ?_, ?_, ?_⟩
  all_goals decide +kernel

end ItWorksOS
