import ItWorksOS.Irq.Irq

/-!
# Live interrupt maps

The maps that `irq_map_init` has built and `irq_map_destroy` has not released partition the
allocated interrupt numbers.
-/

namespace ItWorksOS

variable {Handler : Type*}

/-- The kernel numbers of a map. -/
def IrqMap.Owns (map : IrqMap) (irq : ℕ) : Prop :=
  map.firstIrq ≤ irq ∧ irq < map.firstIrq + map.count

instance (map : IrqMap) (irq : ℕ) : Decidable (map.Owns irq) :=
  inferInstanceAs (Decidable (_ ∧ _))

/-- The hardware numbers of a map. -/
def IrqMap.Maps (map : IrqMap) (hwirq : ℕ) : Prop :=
  map.firstHwirq ≤ hwirq ∧ hwirq < map.firstHwirq + map.count

/-- The interrupt state together with the addresses of the live maps. -/
structure IrqMaps (Handler : Type*) where
  /-- Interrupt state. -/
  state : IrqState Handler
  /-- Addresses of the maps that are initialised and not destroyed. -/
  live : Set ℕ

/-- One call of `irq_map_init` on a map that is not live, or of `irq_map_destroy` on a live one. -/
inductive IrqMapStep : IrqMaps Handler → IrqMaps Handler → Prop
  | init {state state' : IrqState Handler} {live : Set ℕ} {map firstHwirq count : ℕ} {name : String}
      (dead : map ∉ live) (bounded : firstHwirq + count < 2 ^ 32)
      (call : irqMapInit state map name firstHwirq count = (.ok (), state')) :
      IrqMapStep ⟨state, live⟩ ⟨state', insert map live⟩
  | initFailed {state state' : IrqState Handler} {live : Set ℕ} {map firstHwirq count : ℕ}
      {name : String} {error : KError} (dead : map ∉ live)
      (bounded : firstHwirq + count < 2 ^ 32)
      (call : irqMapInit state map name firstHwirq count = (.error error, state')) :
      IrqMapStep ⟨state, live⟩ ⟨state', live⟩
  | destroy {state state' : IrqState Handler} {live : Set ℕ} {map : ℕ} (alive : map ∈ live)
      (call : irqMapDestroy state map = (.ok (), state')) :
      IrqMapStep ⟨state, live⟩ ⟨state', live \ {map}⟩
  | destroyFailed {state state' : IrqState Handler} {live : Set ℕ} {map : ℕ} {error : KError}
      (alive : map ∈ live) (call : irqMapDestroy state map = (.error error, state')) :
      IrqMapStep ⟨state, live⟩ ⟨state', live⟩

/-- The live maps partition the allocated numbers. -/
structure IrqMaps.Inv (system : IrqMaps Handler) : Prop where
  nonempty : ∀ map ∈ system.live, 0 < (system.state.maps map).count
  inside : ∀ map ∈ system.live,
    (system.state.maps map).firstIrq + (system.state.maps map).count ≤ irqMax
  hardware : ∀ map ∈ system.live,
    (system.state.maps map).firstHwirq + (system.state.maps map).count < 2 ^ 32
  apart : ∀ map ∈ system.live, ∀ map' ∈ system.live, ∀ irq,
    (system.state.maps map).Owns irq → (system.state.maps map').Owns irq → map = map'
  bits : ∀ irq, bitmapTest system.state.irqAllocated irq = true ↔
    ∃ map ∈ system.live, (system.state.maps map).Owns irq

theorem irqInit_inv (maps : ℕ → IrqMap) : 
    (⟨irqInit maps, ∅⟩ : IrqMaps Handler).Inv where
  nonempty := by simp
  inside := by simp
  hardware := by simp
  apart := by simp
  bits := by simp [irqInit, bitmapTest]

theorem IrqMaps.Inv.init {state : IrqState Handler} {live : Set ℕ}
    (inv : IrqMaps.Inv ⟨state, live⟩) {map : ℕ} (dead : map ∉ live) (added : IrqMap)
    (count_pos : 0 < added.count) (inside : added.firstIrq + added.count ≤ irqMax)
    (hardware : added.firstHwirq + added.count < 2 ^ 32)
    (clear : state.irqAllocated.ClearRun added.firstIrq added.count) :
    IrqMaps.Inv ⟨{ state with
      irqAllocated := bitmapSetRange state.irqAllocated added.firstIrq added.count
      maps := Function.update state.maps map added }, insert map live⟩ := by
  have kept {other : ℕ} (alive : other ∈ live) :
      Function.update state.maps map added other = state.maps other := by
    have distinct : other ≠ map := fun same => dead (same ▸ alive)
    exact Function.update_of_ne distinct _ _
  have each (P : IrqMap → Prop) (new : P added) (old : ∀ other ∈ live, P (state.maps other)) :
      ∀ other ∈ insert map live, P (Function.update state.maps map added other) := by
    rintro other (rfl | alive)
    · rwa [Function.update_self]
    · rw [kept alive]
      exact old other alive
  have unowned {other irq : ℕ} (alive : other ∈ live) (owned : (state.maps other).Owns irq) :
      ¬ added.Owns irq := by
    intro owned'
    have marked := (inv.bits irq).mpr ⟨other, alive, owned⟩
    rw [clear irq owned'.1 owned'.2] at marked
    cases marked
  constructor
  case nonempty => exact each (fun added => 0 < added.count) count_pos inv.nonempty
  case inside => exact each (fun added => added.firstIrq + added.count ≤ irqMax) inside inv.inside
  case hardware =>
    exact each (fun added => added.firstHwirq + added.count < 2 ^ 32) hardware inv.hardware
  case apart =>
    rintro other (rfl | alive) other' (rfl | alive') irq owned owned'
    all_goals dsimp only at owned owned'
    · rfl
    · rw [Function.update_self] at owned
      rw [kept alive'] at owned'
      exact absurd owned (unowned alive' owned')
    · rw [kept alive] at owned
      rw [Function.update_self] at owned'
      exact absurd owned' (unowned alive owned)
    · rw [kept alive] at owned
      rw [kept alive'] at owned'
      exact inv.apart other alive other' alive' irq owned owned'
  case bits =>
    intro irq
    dsimp only
    rw [bitmapTest_bitmapSetRange, Bool.or_eq_true, decide_eq_true_iff, inv.bits]
    constructor
    · rintro (owned | ⟨other, alive, owned⟩)
      · exact ⟨map, Set.mem_insert _ _, by rwa [Function.update_self]⟩
      · exact ⟨other, Set.mem_insert_of_mem _ alive, by rwa [kept alive]⟩
    · rintro ⟨other, rfl | alive, owned⟩
      · rw [Function.update_self] at owned
        exact .inl owned
      · rw [kept alive] at owned
        exact .inr ⟨other, alive, owned⟩

theorem IrqMaps.Inv.destroy {state : IrqState Handler} {live : Set ℕ}
    (inv : IrqMaps.Inv ⟨state, live⟩) {map : ℕ} (alive : map ∈ live) :
    IrqMaps.Inv ⟨{ state with
      irqAllocated := bitmapClearRange state.irqAllocated (state.maps map).firstIrq
        (state.maps map).count }, live \ {map}⟩ where
  nonempty := fun other member => inv.nonempty other member.1
  inside := fun other member => inv.inside other member.1
  hardware := fun other member => inv.hardware other member.1
  apart := fun other member other' member' =>
    inv.apart other member.1 other' member'.1
  bits := by
    intro irq
    rw [bitmapTest_bitmapClearRange, Bool.and_eq_true, inv.bits, Bool.not_eq_true',
      decide_eq_false_iff_not]
    constructor
    · rintro ⟨outside, other, member, owned⟩
      refine ⟨other, ⟨member, ?_⟩, owned⟩
      rintro rfl
      exact outside owned
    · rintro ⟨other, ⟨member, distinct⟩, owned⟩
      refine ⟨fun owned' => distinct ?_, other, member, owned⟩
      exact inv.apart other member map alive irq owned owned'

theorem IrqMapStep.inv {system system' : IrqMaps Handler} (step : IrqMapStep system system')
    (inv : system.Inv) : system'.Inv := by
  cases step with
  | @init state state' live map firstHwirq count name dead bounded call =>
      rcases irqMapInit_cases state map name firstHwirq count with
        ⟨_, failed⟩ | ⟨_, _, _, failed⟩ | ⟨first, count_pos, upper, clear, succeeded⟩
      · rw [failed] at call
        cases call
      · rw [failed] at call
        cases call
      · rw [succeeded] at call
        cases call
        exact inv.init dead ⟨name, firstHwirq, first, count⟩ count_pos upper bounded clear
  | @initFailed state state' live map firstHwirq count name error dead bounded call =>
      rcases irqMapInit_cases state map name firstHwirq count with
        ⟨_, failed⟩ | ⟨_, _, _, failed⟩ | ⟨first, _, _, _, succeeded⟩
      · rw [failed] at call
        cases call
        exact inv
      · rw [failed] at call
        cases call
        exact inv
      · rw [succeeded] at call
        cases call
  | @destroy state state' live map alive call =>
      rcases irqFreeRange_cases state (state.maps map).firstIrq (state.maps map).count with
        ⟨error, failed, _⟩ | ⟨_, _, _, succeeded⟩
      · rw [irqMapDestroy, failed] at call
        cases call
      · rw [irqMapDestroy, succeeded] at call
        cases call
        exact inv.destroy alive
  | @destroyFailed state state' live map error alive call =>
      rcases irqFreeRange_cases state (state.maps map).firstIrq (state.maps map).count with
        ⟨error', failed, _⟩ | ⟨_, _, _, succeeded⟩
      · rw [irqMapDestroy, failed] at call
        cases call
        exact inv
      · rw [irqMapDestroy, succeeded] at call
        cases call

theorem irqMaps_inv_of_run {maps : ℕ → IrqMap} {system : IrqMaps Handler}
    (run : Relation.ReflTransGen IrqMapStep ⟨irqInit maps, ∅⟩ system) : system.Inv := by
  induction run with
  | refl => exact irqInit_inv maps
  | tail _ step induction => exact step.inv induction

/-! ## Translation of hardware numbers -/

theorem IrqMap.covers_iff {map : IrqMap} (hardware : map.firstHwirq + map.count < 2 ^ 32)
    (hwirq : ℕ) : map.covers hwirq = true ↔ map.Maps hwirq := by
  rw [covers, Nat.mod_eq_of_lt hardware, Maps, Bool.not_eq_true', Bool.or_eq_false_iff,
    decide_eq_false_iff_not, decide_eq_false_iff_not]
  omega

theorem irqMapHwirqToIrq_inside {map : IrqMap} (hardware : map.firstHwirq + map.count < 2 ^ 32)
    (inside : map.firstIrq + map.count ≤ irqMax) {hwirq : ℕ} (mapped : map.Maps hwirq) :
    irqMapHwirqToIrq map hwirq = map.firstIrq + (hwirq - map.firstHwirq) ∧
      map.Owns (irqMapHwirqToIrq map hwirq) := by
  have value : irqMapHwirqToIrq map hwirq = map.firstIrq + (hwirq - map.firstHwirq) := by
    rw [irqMapHwirqToIrq, if_pos ((IrqMap.covers_iff hardware hwirq).mpr mapped)]
    apply Nat.mod_eq_of_lt
    unfold IrqMap.Maps irqMax at *
    omega
  refine ⟨value, ?_⟩
  rw [value]
  unfold IrqMap.Maps IrqMap.Owns at *
  omega

theorem irqMapHwirqToIrq_outside {map : IrqMap} (hardware : map.firstHwirq + map.count < 2 ^ 32)
    {hwirq : ℕ} (outside : ¬ map.Maps hwirq) : irqMapHwirqToIrq map hwirq = irqInvalid := by
  rw [irqMapHwirqToIrq, if_neg (fun covered =>
    outside ((IrqMap.covers_iff hardware hwirq).mp covered))]

/-- In every run the live maps own disjoint ranges of numbers that make up the allocated ones,
`irq_map_init` fails for lack of space only when there is no free run, and the translation of
hardware numbers is injective over all live maps. -/
theorem irqMaps_of_run {maps : ℕ → IrqMap} {system : IrqMaps Handler}
    (run : Relation.ReflTransGen IrqMapStep ⟨irqInit maps, ∅⟩ system) :
    (∀ map ∈ system.live, ∀ map' ∈ system.live, map ≠ map' → ∀ irq,
      ¬ ((system.state.maps map).Owns irq ∧ (system.state.maps map').Owns irq)) ∧
    (∀ map ∈ system.live, ∀ irq, (system.state.maps map).Owns irq → irq < irqMax) ∧
    (∀ irq, bitmapTest system.state.irqAllocated irq = true ↔
      ∃ map ∈ system.live, (system.state.maps map).Owns irq) ∧
    (∀ map name firstHwirq count,
      ((irqMapInit system.state map name firstHwirq count).1 = .error .nospc ↔
        count ≤ irqMax ∧
          ∀ first, first + count ≤ irqMax → ¬ system.state.irqAllocated.ClearRun first count) ∧
      ((irqMapInit system.state map name firstHwirq count).1 = .error .nospc →
        (irqMapInit system.state map name firstHwirq count).2 = system.state)) ∧
    (∀ map ∈ system.live, ∀ map' ∈ system.live, ∀ hwirq hwirq',
      (system.state.maps map).Maps hwirq → (system.state.maps map').Maps hwirq' →
      irqMapHwirqToIrq (system.state.maps map) hwirq =
        irqMapHwirqToIrq (system.state.maps map') hwirq' → map = map' ∧ hwirq = hwirq') ∧
    (∀ map ∈ system.live, ∀ hwirq, ¬ (system.state.maps map).Maps hwirq →
      irqMapHwirqToIrq (system.state.maps map) hwirq = irqInvalid) ∧
    (∀ map ∈ system.live, ∀ hwirq,
      irqMapHwirqToIrq (system.state.maps map) hwirq ≠ irqInvalid →
      irqIsAllocated system.state (irqMapHwirqToIrq (system.state.maps map) hwirq) = true) := by
  have inv := irqMaps_inv_of_run run
  have below {map irq : ℕ} (alive : map ∈ system.live)
      (owned : (system.state.maps map).Owns irq) : irq < irqMax :=
    Nat.lt_of_lt_of_le owned.2 (inv.inside map alive)
  have translated {map hwirq : ℕ} (alive : map ∈ system.live)
      (mapped : (system.state.maps map).Maps hwirq) :=
    irqMapHwirqToIrq_inside (inv.hardware map alive) (inv.inside map alive) mapped
  refine ⟨fun map alive map' alive' distinct irq owned => ?_, fun map alive irq => below alive,
    inv.bits, fun map name firstHwirq count => ?_,
    fun map alive map' alive' hwirq hwirq' mapped mapped' same => ?_,
    fun map alive hwirq outside => irqMapHwirqToIrq_outside (inv.hardware map alive) outside,
    fun map alive hwirq valid => ?_⟩
  · exact distinct (inv.apart map alive map' alive' irq owned.1 owned.2)
  · rcases irqMapInit_cases system.state map name firstHwirq count with
      ⟨rejected, call⟩ | ⟨_, bounded, none_clear, call⟩ | ⟨first, _, upper, clear, call⟩
    · rw [call]
      refine ⟨⟨nofun, fun ⟨bounded, none_clear⟩ => ?_⟩, nofun⟩
      rcases rejected with zero | large
      · exact absurd (fun irq lower upper => by omega) (none_clear 0 (by omega))
      · omega
    · rw [call]
      exact ⟨⟨fun _ => ⟨bounded, none_clear⟩, fun _ => rfl⟩, fun _ => rfl⟩
    · rw [call]
      exact ⟨⟨nofun, fun ⟨_, none_clear⟩ => absurd clear (none_clear first upper)⟩, nofun⟩
  · obtain ⟨value, owned⟩ := translated alive mapped
    obtain ⟨value', owned'⟩ := translated alive' mapped'
    obtain rfl := inv.apart map alive map' alive' _ owned (same ▸ owned')
    refine ⟨rfl, ?_⟩
    unfold IrqMap.Maps at mapped mapped'
    omega
  · by_cases mapped : (system.state.maps map).Maps hwirq
    · have owned := (translated alive mapped).2
      rw [irqIsAllocated, if_neg (Nat.not_le.mpr (below alive owned))]
      exact (inv.bits _).mpr ⟨map, alive, owned⟩
    · exact absurd (irqMapHwirqToIrq_outside (inv.hardware map alive) mapped) valid

/-- The state after the map of the i8259 controller has been initialised. -/
def i8259Maps : IrqMaps Unit where
  state := (irqMapInit (irqInit fun _ => ⟨"", 0, 0, 0⟩) 0x1000 "i8259-pic-map" 0 16).2
  live := {0x1000}

theorem irqMaps_of_run_i8259 :
    Relation.ReflTransGen IrqMapStep ⟨irqInit fun _ => ⟨"", 0, 0, 0⟩, ∅⟩ i8259Maps ∧
      irqMapHwirqToIrq (i8259Maps.state.maps 0x1000) 5 = 5 ∧
      irqIsAllocated i8259Maps.state (irqMapHwirqToIrq (i8259Maps.state.maps 0x1000) 5) =
        true := by
  have step : IrqMapStep (⟨irqInit fun _ => ⟨"", 0, 0, 0⟩, ∅⟩ : IrqMaps Unit) i8259Maps := by
    rw [i8259Maps, ← insert_empty_eq]
    exact .init (Set.notMem_empty 0x1000) (by decide : 0 + 16 < 2 ^ 32) rfl
  have run := Relation.ReflTransGen.single step
  have value : irqMapHwirqToIrq (i8259Maps.state.maps 0x1000) 5 = 5 := by decide
  refine ⟨run, value, ?_⟩
  exact (irqMaps_of_run run).2.2.2.2.2.2 0x1000 rfl 5 (by rw [value]; decide)

end ItWorksOS
