import ItWorksOS.Kernel.Error

/-!
# Device and driver registration of `device/bus.c`

A bus keeps its devices and drivers in registration order. A new device is probed by the drivers
already there, and a new driver probes the devices already there until the first success.
-/

namespace ItWorksOS

/-- The `match` and `probe` functions of a `struct bus`. -/
structure BusOps (Device Driver : Type*) where
  /-- Whether the driver is compatible with the device. -/
  busMatch : Device → Driver → Bool
  /-- Probe the device with the driver. -/
  probe : Device → Driver → Status

/-- The two lists of a `struct bus`, and the `driver` field of every device. -/
structure Bus (Device Driver : Type*) where
  /-- Registered devices. -/
  devices : List Device
  /-- Registered drivers. -/
  drivers : List Driver
  /-- The driver bound to each device. -/
  driver : Device → Option Driver

section

variable {Device Driver : Type*}

/-- `bus_init`, with no device bound. -/
def busInit : Bus Device Driver where
  devices := []
  drivers := []
  driver := fun _ => none

variable [DecidableEq Device] (ops : BusOps Device Driver)

/-- The loop of `bus_add_device` over the bus drivers. -/
def probeDrivers (dev : Device) : List Driver → Bus Device Driver → Bus Device Driver
  | [], bus => bus
  | drv :: rest, bus =>
      if ops.busMatch dev drv = false then
        probeDrivers dev rest bus
      else
        match ops.probe dev drv with
        | .ok () => { bus with driver := Function.update bus.driver dev (some drv) }
        | .error _ => probeDrivers dev rest bus

/-- `bus_add_device`. -/
def busAddDevice (bus : Bus Device Driver) (dev : Device) : Status × Bus Device Driver :=
  let bus := { bus with devices := bus.devices ++ [dev] }
  (.ok (), probeDrivers ops dev bus.drivers bus)

/-- The loop of `bus_add_driver` over the bus devices; it leaves after the first binding. -/
def probeDevices (drv : Driver) : List Device → Bus Device Driver → Bus Device Driver
  | [], bus => bus
  | dev :: rest, bus =>
      if (bus.driver dev).isSome then
        probeDevices drv rest bus
      else if ops.busMatch dev drv = false then
        probeDevices drv rest bus
      else
        match ops.probe dev drv with
        | .ok () => { bus with driver := Function.update bus.driver dev (some drv) }
        | .error _ => probeDevices drv rest bus

/-- `bus_add_driver`. -/
def busAddDriver (bus : Bus Device Driver) (drv : Driver) : Status × Bus Device Driver :=
  let bus := { bus with drivers := bus.drivers ++ [drv] }
  (.ok (), probeDevices ops drv bus.devices bus)

/-- The driver matches the device and its probe succeeds. -/
def BusOps.Accepts (dev : Device) (drv : Driver) : Prop :=
  ops.busMatch dev drv = true ∧ ops.probe dev drv = .ok ()

/-- A registration on the bus. -/
inductive Registration (Device Driver : Type*) where
  /-- `bus_add_device`. -/
  | device (dev : Device)
  /-- `bus_add_driver`. -/
  | driver (drv : Driver)
  deriving DecidableEq

/-- One registration. -/
def busRegister (bus : Bus Device Driver) : Registration Device Driver → Bus Device Driver
  | .device dev => (busAddDevice ops bus dev).2
  | .driver drv => (busAddDriver ops bus drv).2

/-- Registrations in the given order, on an initialised bus. -/
def busRegisterAll (order : List (Registration Device Driver)) : Bus Device Driver :=
  order.foldl (busRegister ops) busInit

/-! ## The two loops -/

variable {ops} {bus : Bus Device Driver} {dev : Device} {drv : Driver}

/-- The device loop binds the new device to the first accepting driver, or to none. -/
theorem probeDrivers_cases (drivers : List Driver) :
    (probeDrivers ops dev drivers bus = bus ∧ ∀ drv ∈ drivers, ¬ ops.Accepts dev drv) ∨
      ∃ drv ∈ drivers, ops.Accepts dev drv ∧
        probeDrivers ops dev drivers bus =
          { bus with driver := Function.update bus.driver dev (some drv) } := by
  induction drivers with
  | nil => exact .inl ⟨rfl, nofun⟩
  | cons drv rest induction =>
      have skip (refused : ¬ ops.Accepts dev drv)
          (same : probeDrivers ops dev (drv :: rest) bus = probeDrivers ops dev rest bus) :
          (probeDrivers ops dev (drv :: rest) bus = bus ∧
              ∀ drv' ∈ drv :: rest, ¬ ops.Accepts dev drv') ∨
            ∃ drv' ∈ drv :: rest, ops.Accepts dev drv' ∧
              probeDrivers ops dev (drv :: rest) bus =
                { bus with driver := Function.update bus.driver dev (some drv') } := by
        rw [same]
        rcases induction with ⟨unchanged, none_accepts⟩ | ⟨found, member, accepted, bound⟩
        · exact .inl ⟨unchanged, List.forall_mem_cons.mpr ⟨refused, none_accepts⟩⟩
        · exact .inr ⟨found, List.mem_cons_of_mem _ member, accepted, bound⟩
      by_cases matched : ops.busMatch dev drv = false
      · refine skip (fun accepted => ?_) (by rw [probeDrivers, if_pos matched])
        rw [accepted.1] at matched
        cases matched
      · cases probed : ops.probe dev drv with
        | error error =>
            refine skip (fun accepted => ?_) (by simp [probeDrivers, matched, probed])
            rw [accepted.2] at probed
            cases probed
        | ok =>
            refine .inr ⟨drv, List.mem_cons_self, ⟨by simpa using matched, probed⟩, ?_⟩
            simp [probeDrivers, matched, probed]

/-- The driver loop binds the first unbound accepted device, or none. -/
theorem probeDevices_cases (devices : List Device) :
    (probeDevices ops drv devices bus = bus ∧
        ∀ dev ∈ devices, bus.driver dev = none → ¬ ops.Accepts dev drv) ∨
      ∃ dev ∈ devices, bus.driver dev = none ∧ ops.Accepts dev drv ∧
        probeDevices ops drv devices bus =
          { bus with driver := Function.update bus.driver dev (some drv) } := by
  induction devices with
  | nil => exact .inl ⟨rfl, nofun⟩
  | cons dev rest induction =>
      have skip (refused : bus.driver dev = none → ¬ ops.Accepts dev drv)
          (same : probeDevices ops drv (dev :: rest) bus = probeDevices ops drv rest bus) :
          (probeDevices ops drv (dev :: rest) bus = bus ∧
              ∀ dev' ∈ dev :: rest, bus.driver dev' = none → ¬ ops.Accepts dev' drv) ∨
            ∃ dev' ∈ dev :: rest, bus.driver dev' = none ∧ ops.Accepts dev' drv ∧
              probeDevices ops drv (dev :: rest) bus =
                { bus with driver := Function.update bus.driver dev' (some drv) } := by
        rw [same]
        rcases induction with ⟨unchanged, none_accepts⟩ | ⟨found, member, free, accepted, bound⟩
        · exact .inl ⟨unchanged, List.forall_mem_cons.mpr ⟨refused, none_accepts⟩⟩
        · exact .inr ⟨found, List.mem_cons_of_mem _ member, free, accepted, bound⟩
      cases current : bus.driver dev with
      | some other =>
          exact skip (by rw [current]; nofun) (by rw [probeDevices, if_pos (by rw [current]; rfl)])
      | none =>
          have free : ¬ (bus.driver dev).isSome := by simp [current]
          by_cases matched : ops.busMatch dev drv = false
          · refine skip (fun _ accepted => ?_) (by rw [probeDevices, if_neg free, if_pos matched])
            rw [accepted.1] at matched
            cases matched
          · cases probed : ops.probe dev drv with
            | error error =>
                refine skip (fun _ accepted => ?_)
                  (by simp [probeDevices, current, matched, probed])
                rw [accepted.2] at probed
                cases probed
            | ok =>
                refine .inr ⟨dev, List.mem_cons_self, current, ⟨by simpa using matched, probed⟩, ?_⟩
                simp [probeDevices, current, matched, probed]

/-! ## One registration -/

variable (ops) (bus) (dev) in
/-- What registering a device does. -/
theorem busRegister_device :
    (busRegister ops bus (.device dev) = { bus with devices := bus.devices ++ [dev] } ∧
        ∀ drv ∈ bus.drivers, ¬ ops.Accepts dev drv) ∨
      ∃ drv ∈ bus.drivers, ops.Accepts dev drv ∧
        busRegister ops bus (.device dev) =
          { bus with
            devices := bus.devices ++ [dev]
            driver := Function.update bus.driver dev (some drv) } :=
  probeDrivers_cases bus.drivers

variable (ops) (bus) (drv) in
/-- What registering a driver does: at most one device is bound. -/
theorem busRegister_driver :
    (busRegister ops bus (.driver drv) = { bus with drivers := bus.drivers ++ [drv] } ∧
        ∀ dev ∈ bus.devices, bus.driver dev = none → ¬ ops.Accepts dev drv) ∨
      ∃ dev ∈ bus.devices, bus.driver dev = none ∧ ops.Accepts dev drv ∧
        busRegister ops bus (.driver drv) =
          { bus with
            drivers := bus.drivers ++ [drv]
            driver := Function.update bus.driver dev (some drv) } :=
  probeDevices_cases bus.devices

/-- The driver of another device changes only to a driver that is being registered. -/
theorem bound_of_busRegister {entry : Registration Device Driver} (other : entry ≠ .device dev)
    (bound : (busRegister ops bus entry).driver dev = some drv) :
    bus.driver dev = some drv ∨ entry = .driver drv := by
  cases entry with
  | device added =>
      have distinct : dev ≠ added := fun same => other (by rw [same])
      rcases busRegister_device ops bus added with ⟨same, _⟩ | ⟨_, _, _, same⟩
      all_goals simp only [same] at bound
      · exact .inl bound
      · exact .inl (by rwa [Function.update_of_ne distinct] at bound)
  | driver added =>
      rcases busRegister_driver ops bus added with ⟨same, _⟩ | ⟨found, _, _, _, same⟩
      all_goals simp only [same] at bound
      · exact .inl bound
      · by_cases equal : dev = found
        · subst equal
          rw [Function.update_self] at bound
          exact .inr (by rw [Option.some.inj bound])
        · rw [Function.update_of_ne equal] at bound
          exact .inl bound

variable (ops) in
/-- The lists hold what was registered, and a bound driver was registered and accepts. -/
structure Bus.Sound (order : List (Registration Device Driver)) (bus : Bus Device Driver) :
    Prop where
  devices : ∀ dev, dev ∈ bus.devices ↔ .device dev ∈ order
  drivers : ∀ drv, drv ∈ bus.drivers ↔ .driver drv ∈ order
  bound : ∀ dev drv, bus.driver dev = some drv →
    .device dev ∈ order ∧ .driver drv ∈ order ∧ ops.Accepts dev drv

theorem Bus.Sound.step {order : List (Registration Device Driver)} (sound : bus.Sound ops order)
    (entry : Registration Device Driver) :
    (busRegister ops bus entry).Sound ops (order ++ [entry]) := by
  have earlier {dev : Device} {drv : Driver} (bound : bus.driver dev = some drv) :
      .device dev ∈ order ++ [entry] ∧ .driver drv ∈ order ++ [entry] ∧ ops.Accepts dev drv := by
    obtain ⟨device, driver, accepted⟩ := sound.bound dev drv bound
    exact ⟨List.mem_append_left _ device, List.mem_append_left _ driver, accepted⟩
  have updated {found : Device} {bindings : Driver} (device : .device found ∈ order ++ [entry])
      (driver : .driver bindings ∈ order ++ [entry]) (accepted : ops.Accepts found bindings)
      (dev : Device) (drv : Driver)
      (bound : Function.update bus.driver found (some bindings) dev = some drv) :
      .device dev ∈ order ++ [entry] ∧ .driver drv ∈ order ++ [entry] ∧ ops.Accepts dev drv := by
    by_cases equal : dev = found
    · subst equal
      rw [Function.update_self] at bound
      cases bound
      exact ⟨device, driver, accepted⟩
    · rw [Function.update_of_ne equal] at bound
      exact earlier bound
  cases entry with
  | device added =>
      have devices (dev : Device) :
          dev ∈ bus.devices ++ [added] ↔ .device dev ∈ order ++ [.device added] := by
        simp [sound.devices]
      have drivers (drv : Driver) : drv ∈ bus.drivers ↔ .driver drv ∈ order ++ [.device added] := by
        simp [sound.drivers]
      rcases busRegister_device ops bus added with ⟨same, _⟩ | ⟨drv, member, accepted, same⟩
      all_goals rw [same]
      · exact ⟨devices, drivers, fun dev drv => earlier⟩
      · exact ⟨devices, drivers, updated (by simp) ((drivers drv).mp member) accepted⟩
  | driver added =>
      have devices (dev : Device) :
          dev ∈ bus.devices ↔ .device dev ∈ order ++ [.driver added] := by
        simp [sound.devices]
      have drivers (drv : Driver) :
          drv ∈ bus.drivers ++ [added] ↔ .driver drv ∈ order ++ [.driver added] := by
        simp [sound.drivers]
      rcases busRegister_driver ops bus added with ⟨same, _⟩ | ⟨dev, member, _, accepted, same⟩
      all_goals rw [same]
      · exact ⟨devices, drivers, fun dev drv => earlier⟩
      · exact ⟨devices, drivers, updated ((devices dev).mp member) (by simp) accepted⟩

/-! ## Whole registration orders -/

theorem busRegisterAll_append (order : List (Registration Device Driver))
    (entry : Registration Device Driver) :
    busRegisterAll ops (order ++ [entry]) = busRegister ops (busRegisterAll ops order) entry := by
  rw [busRegisterAll, List.foldl_append]
  rfl

theorem busRegisterAll_sound (order : List (Registration Device Driver)) :
    (busRegisterAll ops order).Sound ops order := by
  induction order using List.reverseRecOn with
  | nil => exact ⟨by simp [busRegisterAll, busInit], by simp [busRegisterAll, busInit], nofun⟩
  | append_singleton order entry induction =>
      rw [busRegisterAll_append]
      exact induction.step entry

variable (ops)

/-- Each registered device matches at most one registered driver. -/
def MatchUnique (order : List (Registration Device Driver)) : Prop :=
  ∀ dev drv drv', .device dev ∈ order → .driver drv ∈ order → .driver drv' ∈ order →
    ops.busMatch dev drv = true → ops.busMatch dev drv' = true → drv = drv'

/-- Each registered device is bound to exactly the registered driver that accepts it. -/
def BindingsExact (order : List (Registration Device Driver)) (bus : Bus Device Driver) : Prop :=
  ∀ dev drv, .device dev ∈ order →
    (bus.driver dev = some drv ↔ .driver drv ∈ order ∧ ops.Accepts dev drv)

/-- When a driver is registered, it accepts at most one of the devices registered before it. -/
def OneWaiting (order : List (Registration Device Driver)) : Prop :=
  ∀ before drv after, order = before ++ .driver drv :: after →
    ∀ dev dev', .device dev ∈ before → .device dev' ∈ before →
      ops.Accepts dev drv → ops.Accepts dev' drv → dev = dev'

variable {ops} {order : List (Registration Device Driver)}

omit [DecidableEq Device] in
theorem MatchUnique.init {entry : Registration Device Driver}
    (unique : MatchUnique ops (order ++ [entry])) : MatchUnique ops order :=
  fun dev drv drv' device driver driver' => unique dev drv drv' (List.mem_append_left _ device)
    (List.mem_append_left _ driver) (List.mem_append_left _ driver')

omit [DecidableEq Device] in
theorem OneWaiting.init {entry : Registration Device Driver}
    (waiting : OneWaiting ops (order ++ [entry])) : OneWaiting ops order := by
  intro before drv after split
  refine waiting before drv (after ++ [entry]) ?_
  rw [split, List.append_assoc, List.cons_append]

/-- A registration that leaves at most one accepted device waiting keeps the bindings exact. -/
theorem BindingsExact.step {entry : Registration Device Driver} (sound : bus.Sound ops order)
    (exact_before : BindingsExact ops order bus) (fresh : entry ∉ order)
    (unique : MatchUnique ops (order ++ [entry])) (waiting : OneWaiting ops (order ++ [entry])) :
    BindingsExact ops (order ++ [entry]) (busRegister ops bus entry) := by
  cases entry with
  | device added =>
      have unbound : bus.driver added = none := by
        cases current : bus.driver added with
        | none => rfl
        | some drv => exact absurd (sound.bound added drv current).1 fresh
      have registered (drv : Driver) :
          .driver drv ∈ order ++ [.device added] ↔ drv ∈ bus.drivers := by
        simp [sound.drivers]
      intro dev drv device
      rw [registered]
      by_cases equal : dev = added
      · subst equal
        rcases busRegister_device ops bus dev with ⟨same, refused⟩ | ⟨found, member, accepted, same⟩
        all_goals simp only [same]
        · rw [unbound]
          exact ⟨nofun, fun accepts => absurd accepts.2 (refused drv accepts.1)⟩
        · rw [Function.update_self, Option.some.injEq]
          refine ⟨fun found_eq => found_eq ▸ ⟨member, accepted⟩, fun accepts => ?_⟩
          exact unique dev found drv device ((registered found).mpr member)
            ((registered drv).mpr accepts.1) accepted.1 accepts.2.1
      · have old : .device dev ∈ order := by simpa [equal] using device
        rw [sound.drivers, ← exact_before dev drv old]
        rcases busRegister_device ops bus added with ⟨same, _⟩ | ⟨found, _, _, same⟩
        all_goals simp only [same]
        rw [Function.update_of_ne equal]
  | driver added =>
      intro dev drv device
      have old : .device dev ∈ order := by simpa using device
      have added_mem : .driver added ∈ order ++ [.driver added] := by simp
      have unbound (accepted : ops.Accepts dev added) : bus.driver dev = none := by
        cases current : bus.driver dev with
        | none => rfl
        | some drv =>
            obtain ⟨_, driver, accepts⟩ := sound.bound dev drv current
            have same := unique dev drv added device (List.mem_append_left _ driver) added_mem
              accepts.1 accepted.1
            exact absurd (same ▸ driver) fresh
      have before : bus.driver dev = some drv ↔ .driver drv ∈ order ∧ ops.Accepts dev drv :=
        exact_before dev drv old
      have refused_iff (refused : ¬ ops.Accepts dev added) :
          (.driver drv ∈ order ++ [.driver added] ∧ ops.Accepts dev drv) ↔
            .driver drv ∈ order ∧ ops.Accepts dev drv := by
        constructor
        · rintro ⟨member, accepted⟩
          refine ⟨?_, accepted⟩
          rcases List.mem_append.mp member with member | member
          · exact member
          · cases List.mem_singleton.mp member
            exact absurd accepted refused
        · exact fun ⟨member, accepted⟩ => ⟨List.mem_append_left _ member, accepted⟩
      rcases busRegister_driver ops bus added with
        ⟨same, refused⟩ | ⟨found, member, _, accepted, same⟩
      all_goals simp only [same]
      · rw [before, refused_iff]
        exact fun accepted => refused dev ((sound.devices dev).mpr old) (unbound accepted) accepted
      · by_cases equal : dev = found
        · subst equal
          rw [Function.update_self, Option.some.injEq]
          refine ⟨fun drv_eq => drv_eq ▸ ⟨added_mem, accepted⟩, fun accepts => ?_⟩
          exact unique dev added drv device added_mem accepts.1 accepted.1 accepts.2.1
        · rw [Function.update_of_ne equal, before, refused_iff]
          intro accepts
          exact equal (waiting order added [] rfl dev found old
            ((sound.devices found).mp member) accepts accepted)

theorem bindingsExact_of_oneWaiting (distinct : order.Nodup) (unique : MatchUnique ops order)
    (waiting : OneWaiting ops order) : BindingsExact ops order (busRegisterAll ops order) := by
  induction order using List.reverseRecOn with
  | nil => exact fun dev drv device => absurd device (by simp)
  | append_singleton order entry induction =>
      rw [busRegisterAll_append]
      have fresh : entry ∉ order := fun member =>
        List.disjoint_of_nodup_append distinct member List.mem_cons_self
      exact BindingsExact.step (busRegisterAll_sound order)
        (induction (List.Nodup.of_append_left distinct) unique.init waiting.init) fresh unique
        waiting

/-- A binding to an earlier driver was there before the later registrations. -/
theorem bound_of_foldl {after : List (Registration Device Driver)}
    (others : ∀ entry ∈ after, entry ≠ .device dev ∧ entry ≠ .driver drv)
    (bound : (after.foldl (busRegister ops) bus).driver dev = some drv) :
    bus.driver dev = some drv := by
  induction after generalizing bus with
  | nil => exact bound
  | cons entry after induction =>
      rw [List.forall_mem_cons] at others
      rcases bound_of_busRegister others.1.1 (induction others.2 bound) with earlier | added
      · exact earlier
      · exact absurd added others.1.2

theorem oneWaiting_of_bindingsExact (distinct : order.Nodup)
    (exact_bindings : BindingsExact ops order (busRegisterAll ops order)) :
    OneWaiting ops order := by
  rintro before drv after rfl dev dev' device device' accepted accepted'
  have apart := List.nodup_append.mp distinct
  have fresh : .driver drv ∉ before := fun member =>
    apart.2.2 _ member _ List.mem_cons_self rfl
  have driver_last : .driver drv ∉ after := (List.nodup_cons.mp apart.2.1).1
  have sound : (busRegisterAll ops before).Sound ops before := busRegisterAll_sound before
  have bound {dev : Device} (device : .device dev ∈ before) (accepted : ops.Accepts dev drv) :
      (busRegister ops (busRegisterAll ops before) (.driver drv)).driver dev = some drv := by
    have final := (exact_bindings dev drv (List.mem_append_left _ device)).mpr
      ⟨List.mem_append_right _ List.mem_cons_self, accepted⟩
    rw [busRegisterAll, List.foldl_append, List.foldl_cons] at final
    refine bound_of_foldl (fun entry member => ⟨?_, ?_⟩) final
    · rintro rfl
      exact apart.2.2 _ device _ (List.mem_cons_of_mem _ member) rfl
    · rintro rfl
      exact driver_last member
  have unbound (dev : Device) : (busRegisterAll ops before).driver dev ≠ some drv :=
    fun current => fresh (sound.bound dev drv current).2.1
  rcases busRegister_driver ops (busRegisterAll ops before) drv with
    ⟨same, _⟩ | ⟨found, _, _, _, same⟩
  · exact absurd (by simpa only [same] using bound device accepted) (unbound dev)
  · have only_found {dev : Device} (device : .device dev ∈ before)
        (accepted : ops.Accepts dev drv) : dev = found := by
      by_contra distinct
      have current := bound device accepted
      simp only [same, Function.update_of_ne distinct] at current
      exact unbound dev current
    rw [only_found device accepted, only_found device' accepted']

/-- All devices are bound exactly to their accepting drivers if and only if no driver arrives when
two devices that it accepts are already waiting; orders of that kind give the same bindings. -/
theorem busRegisterAll_exact_iff (ops : BusOps Device Driver)
    (order : List (Registration Device Driver)) (distinct : order.Nodup)
    (unique : MatchUnique ops order) :
    (BindingsExact ops order (busRegisterAll ops order) ↔ OneWaiting ops order) ∧
      ∀ order', order.Perm order' → OneWaiting ops order → OneWaiting ops order' →
        (busRegisterAll ops order').driver = (busRegisterAll ops order).driver := by
  refine ⟨⟨oneWaiting_of_bindingsExact distinct, bindingsExact_of_oneWaiting distinct unique⟩, ?_⟩
  intro order' permuted waiting waiting'
  have unique' : MatchUnique ops order' := fun dev drv drv' device driver driver' =>
    unique dev drv drv' (permuted.mem_iff.mpr device) (permuted.mem_iff.mpr driver)
      (permuted.mem_iff.mpr driver')
  have exact_left := bindingsExact_of_oneWaiting distinct unique waiting
  have exact_right := bindingsExact_of_oneWaiting (permuted.nodup_iff.mp distinct) unique' waiting'
  funext dev
  apply Option.ext
  intro drv
  by_cases device : .device dev ∈ order
  · rw [exact_left dev drv device, exact_right dev drv (permuted.mem_iff.mp device),
      permuted.mem_iff]
  · constructor
    · intro bound
      exact absurd (permuted.mem_iff.mpr ((busRegisterAll_sound order').bound dev drv bound).1)
        device
    · intro bound
      exact absurd ((busRegisterAll_sound order).bound dev drv bound).1 device

end

/-! ## The platform bus -/

/-- `struct platform_device`: the name and the instance identifier of its `struct device`. -/
structure PlatformDevice where
  /-- Device name, possibly `NULL`. -/
  name : Option String
  /-- Instance identifier. -/
  id : ℕ
  deriving DecidableEq

/-- `struct platform_driver`. -/
structure PlatformDriver where
  /-- Driver name, possibly `NULL`. -/
  name : Option String
  /-- Probe function, possibly `NULL`. -/
  probe : Option (PlatformDevice → Status)

/-- `platform_match`. -/
def platformMatch (dev : PlatformDevice) (drv : PlatformDriver) : Bool :=
  match dev.name, drv.name with
  | some devName, some drvName => devName == drvName
  | _, _ => false

/-- `platform_probe`. -/
def platformProbe (dev : PlatformDevice) (drv : PlatformDriver) : Status :=
  match drv.probe with
  | none => .error .inval
  | some probe => probe dev

/-- `platform_bus`. -/
def platformBus : BusOps PlatformDevice PlatformDriver where
  busMatch := platformMatch
  probe := platformProbe

/-- An instance of the timer device of `arch/x86/platform/i8254.c`. -/
def timerDevice (id : ℕ) : PlatformDevice := ⟨some "i8254", id⟩

/-- The driver of `drivers/timer/i8254.c`, with a probe that succeeds. -/
def timerDriver : PlatformDriver := ⟨some "i8254", some fun _ => .ok ()⟩

/-- The driver registered between the two devices binds both. -/
theorem busRegisterAll_exact_iff_timer :
    BindingsExact platformBus
      [.device (timerDevice 0), .driver timerDriver, .device (timerDevice 1)]
      (busRegisterAll platformBus
        [.device (timerDevice 0), .driver timerDriver, .device (timerDevice 1)]) := by
  refine (busRegisterAll_exact_iff platformBus _ ?_ ?_).1.mpr ?_
  · simp [timerDevice]
  · intro dev drv drv' _ driver driver' _ _
    have only : drv = timerDriver ∧ drv' = timerDriver := by simpa using And.intro driver driver'
    rw [only.1, only.2]
  · intro before drv after split dev dev' device device' _ _
    match before, split with
    | [], _ => cases device
    | [entry], split =>
        rw [List.mem_singleton] at device device'
        rw [← device] at device'
        exact (Registration.device.inj device').symm
    | [_, _], split => cases split
    | _ :: _ :: _ :: _, split => simp at split

/-- The driver registered after both devices binds only the first. -/
theorem busRegisterAll_leaves_second_device :
    platformBus.Accepts (timerDevice 1) timerDriver ∧
      (busRegisterAll platformBus
        [.device (timerDevice 0), .device (timerDevice 1), .driver timerDriver]).driver
          (timerDevice 1) = none ∧
      ¬ BindingsExact platformBus
        [.device (timerDevice 0), .device (timerDevice 1), .driver timerDriver]
        (busRegisterAll platformBus
          [.device (timerDevice 0), .device (timerDevice 1), .driver timerDriver]) := by
  have accepted : platformBus.Accepts (timerDevice 1) timerDriver := ⟨by decide, rfl⟩
  have unbound : (busRegisterAll platformBus
      [.device (timerDevice 0), .device (timerDevice 1), .driver timerDriver]).driver
        (timerDevice 1) = none := rfl
  refine ⟨accepted, unbound, fun bindings => ?_⟩
  have bound := (bindings (timerDevice 1) timerDriver (by simp)).mpr ⟨by simp, accepted⟩
  rw [unbound] at bound
  cases bound

end ItWorksOS
