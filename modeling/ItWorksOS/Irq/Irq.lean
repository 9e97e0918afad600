import ItWorksOS.Kernel.Error
import ItWorksOS.Klib.Bitmap

/-!
# Interrupt numbers, maps and descriptors of `irq/`

The bitmap of allocated numbers, the descriptor table and the map structures are three separate
stores; a map is named by the address of its structure.
-/

namespace ItWorksOS

/-- `IRQ_MAX`. -/
def irqMax : ℕ := 256

/-- `IRQ_INVALID`. -/
def irqInvalid : ℕ := 2 ^ 32 - 1

/-- `struct irq_map`. -/
@[ext] structure IrqMap where
  /-- Name of the map. -/
  name : String
  /-- First hardware number. -/
  firstHwirq : ℕ
  /-- First kernel number. -/
  firstIrq : ℕ
  /-- Number of mapped interrupts. -/
  count : ℕ

/-- The part of `struct irq_chip` that decides what is dispatched. -/
structure IrqChip where
  /-- Name of the controller. -/
  name : String
  /-- `handle_vector`: the hardware number of a vector, or an error. -/
  handleVector : ℕ → Except KError ℕ

/-- `struct irq_desc`. -/
@[ext] structure IrqDesc (Handler : Type*) where
  /-- Hardware number. -/
  hwirq : ℕ
  /-- Address of the map that owns the interrupt. -/
  map : Option ℕ
  /-- Interrupt controller. -/
  chip : Option IrqChip
  /-- Registered handler. -/
  handler : Option Handler
  /-- Context passed to the handler. -/
  devId : ℕ

/-- The static data of `irq.c` and `desc.c`, and the map structures. -/
@[ext] structure IrqState (Handler : Type*) where
  /-- `irq_allocated`. -/
  irqAllocated : Bitmap
  /-- `irq_descs`. -/
  irqDescs : ℕ → IrqDesc Handler
  /-- The map structure at each address. -/
  maps : ℕ → IrqMap

variable {Handler : Type*}

/-- `irq_init`, over the zero-initialised static data. -/
def irqInit (maps : ℕ → IrqMap) : IrqState Handler where
  irqAllocated := { data := fun _ => 0#32, nbits := irqMax }
  irqDescs := fun _ => { hwirq := 0, map := none, chip := none, handler := none, devId := 0 }
  maps := maps

/-- `irq_alloc_range`. -/
def irqAllocRange (state : IrqState Handler) (n : ℕ) : Except KError ℕ × IrqState Handler :=
  if n = 0 then (.error .inval, state)
  else if irqMax < n then (.error .inval, state)
  else
    match bitmapFindRun state.irqAllocated n irqMax 0 0 with
    | some firstIrq =>
        (.ok firstIrq, { state with irqAllocated := bitmapSetRange state.irqAllocated firstIrq n })
    | none => (.error .nospc, state)

/-- `irq_free_range`. -/
def irqFreeRange (state : IrqState Handler) (firstIrq n : ℕ) : Status × IrqState Handler :=
  if n = 0 then (.error .inval, state)
  else if irqMax ≤ firstIrq ∨ irqMax - firstIrq < n then (.error .inval, state)
  else if bitmapAllSet state.irqAllocated firstIrq n = false then (.error .noent, state)
  else (.ok (), { state with irqAllocated := bitmapClearRange state.irqAllocated firstIrq n })

/-- `irq_is_allocated`. -/
def irqIsAllocated (state : IrqState Handler) (irq : ℕ) : Bool :=
  if irqMax ≤ irq then false else bitmapTest state.irqAllocated irq

/-- `irq_map_init`. -/
def irqMapInit (state : IrqState Handler) (map : ℕ) (name : String) (firstHwirq count : ℕ) :
    Status × IrqState Handler :=
  if count = 0 then (.error .inval, state)
  else
    match irqAllocRange state count with
    | (.error error, state) => (.error error, state)
    | (.ok irq, state) =>
        (.ok (), { state with
          maps := Function.update state.maps map
            { name := name, firstHwirq := firstHwirq, firstIrq := irq, count := count } })

/-- The range check of `irq_map_hwirq_to_irq` and `irq_desc_configure`, in 32-bit arithmetic. -/
def IrqMap.covers (map : IrqMap) (hwirq : ℕ) : Bool :=
  !(decide (hwirq < map.firstHwirq) || decide ((map.firstHwirq + map.count) % 2 ^ 32 ≤ hwirq))

/-- `irq_map_hwirq_to_irq`. -/
def irqMapHwirqToIrq (map : IrqMap) (hwirq : ℕ) : ℕ :=
  if map.covers hwirq then (map.firstIrq + (hwirq - map.firstHwirq)) % 2 ^ 32 else irqInvalid

/-- `irq_map_destroy`. -/
def irqMapDestroy (state : IrqState Handler) (map : ℕ) : Status × IrqState Handler :=
  irqFreeRange state (state.maps map).firstIrq (state.maps map).count

/-- `irq_desc_configure`. -/
def irqDescConfigure (state : IrqState Handler) (irq hwirq map : ℕ) (chip : IrqChip) :
    Status × IrqState Handler :=
  if irqMax ≤ irq then (.error .inval, state)
  else if irqIsAllocated state irq = false then (.error .noent, state)
  else if (state.irqDescs irq).map.isSome then (.error .busy, state)
  else if (state.maps map).covers hwirq = false then (.error .inval, state)
  else
    (.ok (), { state with
      irqDescs := Function.update state.irqDescs irq
        { state.irqDescs irq with hwirq := hwirq, map := some map, chip := some chip } })

/-- `irq_request`. -/
def irqRequest (state : IrqState Handler) (irq : ℕ) (handler : Handler) (devId : ℕ) :
    Status × IrqState Handler :=
  if irqMax ≤ irq then (.error .inval, state)
  else if irqIsAllocated state irq = false then (.error .noent, state)
  else if (state.irqDescs irq).map.isNone || (state.irqDescs irq).chip.isNone then
    (.error .noent, state)
  else if (state.irqDescs irq).handler.isSome then (.error .busy, state)
  else
    (.ok (), { state with
      irqDescs := Function.update state.irqDescs irq
        { state.irqDescs irq with handler := some handler, devId := devId } })

/-- `irq_free`. -/
def irqFree (state : IrqState Handler) (irq : ℕ) : Status × IrqState Handler :=
  if irqMax ≤ irq then (.error .inval, state)
  else if irqIsAllocated state irq = false then (.error .noent, state)
  else if (state.irqDescs irq).map.isNone || (state.irqDescs irq).chip.isNone then
    (.error .noent, state)
  else if (state.irqDescs irq).handler.isNone then (.error .noent, state)
  else
    (.ok (), { state with
      irqDescs := Function.update state.irqDescs irq
        { state.irqDescs irq with handler := none } })

/-- `irq_dispatch`: the number and the handler that is invoked, with its context. -/
def irqDispatch (state : IrqState Handler) (chip : IrqChip) (map vector : ℕ) :
    Except KError (ℕ × Handler × ℕ) :=
  match chip.handleVector vector with
  | .error error => .error error
  | .ok hwirq =>
      let irq := irqMapHwirqToIrq (state.maps map) hwirq
      if irq = irqInvalid then .error .noent
      else if irqMax ≤ irq then .error .noent
      else
        match (state.irqDescs irq).handler with
        | none => .error .noent
        | some handler => .ok (irq, handler, (state.irqDescs irq).devId)

/-- The loop of `i8259_init`: configure the first `n` numbers of a map for a controller. -/
def irqMapConfigure (state : IrqState Handler) (map : ℕ) (chip : IrqChip) :
    ℕ → Status × IrqState Handler
  | 0 => (.ok (), state)
  | n + 1 =>
      kerrTry (irqMapConfigure state map chip n) fun state =>
        let hwirq := (state.maps map).firstHwirq + n
        irqDescConfigure state (irqMapHwirqToIrq (state.maps map) hwirq) hwirq map chip

/-! ## Outcomes of the calls -/

/-- What `irq_map_init` does: it rejects the count, finds no run, or takes the first clear run. -/
theorem irqMapInit_cases (state : IrqState Handler) (map : ℕ) (name : String)
    (firstHwirq count : ℕ) :
    ((count = 0 ∨ irqMax < count) ∧
        irqMapInit state map name firstHwirq count = (.error .inval, state)) ∨
      (0 < count ∧ count ≤ irqMax ∧
        (∀ first, first + count ≤ irqMax → ¬ state.irqAllocated.ClearRun first count) ∧
        irqMapInit state map name firstHwirq count = (.error .nospc, state)) ∨
      ∃ first, 0 < count ∧ first + count ≤ irqMax ∧ state.irqAllocated.ClearRun first count ∧
        irqMapInit state map name firstHwirq count =
          (.ok (), { state with
            irqAllocated := bitmapSetRange state.irqAllocated first count
            maps := Function.update state.maps map
              { name := name, firstHwirq := firstHwirq, firstIrq := first, count := count } }) := by
  by_cases zero : count = 0
  · exact .inl ⟨.inl zero, by rw [irqMapInit, if_pos zero]⟩
  by_cases large : irqMax < count
  · refine .inl ⟨.inr large, ?_⟩
    rw [irqMapInit, if_neg zero, irqAllocRange, if_neg zero, if_pos large]
  rcases bitmapFindRun_cases state.irqAllocated (by omega : 0 < count) irqMax 0 with
    ⟨first, found, _, upper, clear⟩ | ⟨found, none_clear⟩
  · refine .inr (.inr ⟨first, by omega, by omega, clear, ?_⟩)
    rw [irqMapInit, if_neg zero, irqAllocRange, if_neg zero, if_neg large, found]
  · refine .inr (.inl ⟨by omega, by omega, fun first upper => ?_, ?_⟩)
    · exact none_clear first (Nat.zero_le _) (by omega)
    · rw [irqMapInit, if_neg zero, irqAllocRange, if_neg zero, if_neg large, found]

/-- What `irq_free_range` does: it fails without effect, or clears a range of allocated numbers. -/
theorem irqFreeRange_cases (state : IrqState Handler) (firstIrq n : ℕ) :
    (∃ error, irqFreeRange state firstIrq n = (.error error, state) ∧
        ¬ (0 < n ∧ firstIrq + n ≤ irqMax ∧ bitmapAllSet state.irqAllocated firstIrq n = true)) ∨
      (0 < n ∧ firstIrq + n ≤ irqMax ∧ bitmapAllSet state.irqAllocated firstIrq n = true ∧
        irqFreeRange state firstIrq n =
          (.ok (), { state with
            irqAllocated := bitmapClearRange state.irqAllocated firstIrq n })) := by
  by_cases zero : n = 0
  · exact .inl ⟨.inval, by rw [irqFreeRange, if_pos zero], by omega⟩
  by_cases outside : irqMax ≤ firstIrq ∨ irqMax - firstIrq < n
  · exact .inl ⟨.inval, by rw [irqFreeRange, if_neg zero, if_pos outside], by omega⟩
  cases all : bitmapAllSet state.irqAllocated firstIrq n with
  | false =>
      exact .inl ⟨.noent, by rw [irqFreeRange, if_neg zero, if_neg outside, if_pos all], by simp⟩
  | true =>
      refine .inr ⟨by omega, by omega, rfl, ?_⟩
      rw [irqFreeRange, if_neg zero, if_neg outside, if_neg (by simp [all])]

end ItWorksOS
