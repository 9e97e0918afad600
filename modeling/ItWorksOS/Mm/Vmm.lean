import ItWorksOS.Arch.X86.Mm

/-!
# Address spaces of `mm/vmm.c`

An address space is a sorted list of virtual memory areas over architecture page tables. The
functions only use the heap, the architecture layer and the kernel mappings through their
interface, so they are written over an arbitrary implementation of it.
-/

namespace ItWorksOS

/-- `struct vma`, with the address `kmalloc` returned for it. -/
structure Vma where
  /-- First address. -/
  start : ℕ
  /-- `end`, exclusive. -/
  stop : ℕ
  /-- Permissions. -/
  flags : ℕ
  /-- Address of the record in the kernel heap. -/
  ptr : ℕ
  deriving DecidableEq, Repr

/-- `sizeof(struct vma)`. -/
abbrev vmaSize : ℕ := 20

/-- `struct vm_space`. -/
structure VmSpace where
  /-- Areas in list order. -/
  vmas : List Vma
  /-- Architecture data. -/
  arch : ArchVmSpace
  deriving DecidableEq, Repr

/-- What `mm/vmm.c` calls: the kernel heap, the architecture layer and `vm_kern_attach`. -/
structure VmEnv (State : Type*) where
  /-- `kmalloc`. -/
  kmalloc : State → ℕ → ℕ × State
  /-- `kfree`. -/
  kfree : State → ℕ → Status × State
  /-- `arch_vm_map`. -/
  archVmMap : State → ArchVmSpace → ℕ → ℕ → ℕ → ℕ → Status × State
  /-- `arch_vm_unmap`. -/
  archVmUnmap : State → ArchVmSpace → ℕ → ℕ → Status × State
  /-- `arch_vm_protect`. -/
  archVmProtect : State → ArchVmSpace → ℕ → ℕ → ℕ → Status × State
  /-- `arch_vm_space_init`. -/
  archVmSpaceInit : State → Except KError ArchVmSpace × State
  /-- `arch_vm_space_destroy`. -/
  archVmSpaceDestroy : State → ArchVmSpace → Status × ArchVmSpace × State
  /-- `vm_kern_attach`. -/
  vmKernAttach : State → ArchVmSpace → Status × State

/-- `VM_USER_START`. -/
abbrev vmUserStart : ℕ := 0

/-- `vm_user_range_valid`, in 32-bit arithmetic. -/
def vmUserRangeValid (virt size : ℕ) : Bool :=
  if size = 0 then false
  else if virt < vmUserStart ∨ vmUserEnd ≤ virt then false
  else if 2 ^ 32 - 1 - virt < size - 1 then false
  else decide ((virt + size) % 2 ^ 32 ≤ vmUserEnd)

/-- `vm_phys_range_valid`. -/
def vmPhysRangeValid (phys size : ℕ) : Bool :=
  if size = 0 then false
  else if 2 ^ 64 - 1 - phys < size - 1 then false
  else true

/-- The search loop of `vm_find_vma_range` and `vm_find_vma`, which stops at the first area that
starts after the address. -/
def vmSearch (virt : ℕ) (found : Vma → Bool) : List Vma → Option Vma
  | [] => none
  | vma :: vmas =>
      if virt < vma.start then none
      else if vma.start ≤ virt && found vma then some vma
      else vmSearch virt found vmas

/-- `vm_find_vma_range`. -/
def vmFindVmaRange (vm : VmSpace) (virt size : ℕ) : Option Vma :=
  if !vmUserRangeValid virt size then none
  else vmSearch virt (fun vma => (virt + size) % 2 ^ 32 ≤ vma.stop) vm.vmas

/-- `vm_find_vma`. -/
def vmFindVma (vm : VmSpace) (virt : ℕ) : Option Vma :=
  if vmUserEnd ≤ virt then none
  else vmSearch virt (fun vma => virt < vma.stop) vm.vmas

/-- The loop of `vm_add_vma`: the areas before and after the insertion point, or `none` when an
area overlaps the new range. -/
def vmAddPosition (virt newEnd : ℕ) : List Vma → Option (List Vma × List Vma)
  | [] => some ([], [])
  | vma :: vmas =>
      if vma.stop ≤ virt then
        (vmAddPosition virt newEnd vmas).map fun position => (vma :: position.1, position.2)
      else if newEnd ≤ vma.start then some ([], vma :: vmas)
      else none

section Operations

variable {State : Type*} (env : VmEnv State)

/-- `vm_add_vma`. -/
def vmAddVma (vm : VmSpace) (virt size flags : ℕ) (state : State) :
    Status × VmSpace × State :=
  if size = 0 then (.error .inval, vm, state)
  else if !alignTest virt archVmPageSize || !alignTest size archVmPageSize then
    (.error .inval, vm, state)
  else if !vmUserRangeValid virt size then (.error .inval, vm, state)
  else
    let newEnd := (virt + size) % 2 ^ 32
    match vmAddPosition virt newEnd vm.vmas with
    | none => (.error .existing, vm, state)
    | some (before, after) =>
        match env.kmalloc state vmaSize with
        | (newVma, state) =>
            if kerrPtrIsErr newVma then (.error .nomem, vm, state)
            else
              (.ok (), { vm with vmas := before ++ ⟨virt, newEnd, flags, newVma⟩ :: after }, state)

/-- `vm_remove_vma`. -/
def vmRemoveVma (vm : VmSpace) (virt : ℕ) (state : State) : Status × VmSpace × State :=
  match vmFindVma vm virt with
  | none => (.error .noent, vm, state)
  | some vma =>
      let vm := { vm with vmas := vm.vmas.erase vma }
      (.ok (), vm, (env.kfree state vma.ptr).2)

/-- `vm_map`. -/
def vmMap (vm : VmSpace) (virt phys size flags : ℕ) (state : State) :
    Status × VmSpace × State :=
  if size = 0 then (.error .inval, vm, state)
  else if !alignTest virt archVmPageSize || !alignTest phys archVmPageSize ||
      !alignTest size archVmPageSize then
    (.error .inval, vm, state)
  else if !vmUserRangeValid virt size then (.error .inval, vm, state)
  else if !vmPhysRangeValid phys size then (.error .inval, vm, state)
  else
    match vmAddVma env vm virt size flags state with
    | (.error error, vm, state) => (.error error, vm, state)
    | (.ok (), vm, state) =>
        match env.archVmMap state vm.arch virt phys size flags with
        | (.error error, state) =>
            match vmRemoveVma env vm virt state with
            | (_, vm, state) => (.error error, vm, state)
        | (.ok (), state) => (.ok (), vm, state)

/-- The checks shared by `vm_unmap` and `vm_protect`: the range must be one whole area. -/
def vmWholeVma (vm : VmSpace) (virt size : ℕ) : Except KError Vma :=
  if size = 0 then .error .inval
  else if !alignTest virt archVmPageSize || !alignTest size archVmPageSize then .error .inval
  else if !vmUserRangeValid virt size then .error .inval
  else
    match vmFindVmaRange vm virt size with
    | none => .error .noent
    | some vma =>
        if vma.start ≠ virt ∨ vma.stop ≠ (virt + size) % 2 ^ 32 then .error .inval else .ok vma

/-- `vm_unmap`. -/
def vmUnmap (vm : VmSpace) (virt size : ℕ) (state : State) : Status × VmSpace × State :=
  match vmWholeVma vm virt size with
  | .error error => (.error error, vm, state)
  | .ok vma =>
      match env.archVmUnmap state vm.arch virt size with
      | (.error error, state) => (.error error, vm, state)
      | (.ok (), state) =>
          (.ok (), { vm with vmas := vm.vmas.erase vma }, (env.kfree state vma.ptr).2)

/-- `vm_protect`. -/
def vmProtect (vm : VmSpace) (virt size flags : ℕ) (state : State) :
    Status × VmSpace × State :=
  match vmWholeVma vm virt size with
  | .error error => (.error error, vm, state)
  | .ok vma =>
      match env.archVmProtect state vm.arch virt size flags with
      | (.error error, state) => (.error error, vm, state)
      | (.ok (), state) =>
          (.ok (), { vm with vmas := vm.vmas.replace vma { vma with flags := flags } }, state)

/-- `vm_space_init`. -/
def vmSpaceInit (state : State) : Except KError VmSpace × State :=
  match env.archVmSpaceInit state with
  | (.error error, state) => (.error error, state)
  | (.ok arch, state) =>
      match env.vmKernAttach state arch with
      | (.error error, state) => (.error error, (env.archVmSpaceDestroy state arch).2.2)
      | (.ok (), state) => (.ok { vmas := [], arch := arch }, state)

/-- The loop of `vm_space_destroy` that releases the areas. -/
def vmFreeVmas : List Vma → State → State
  | [], state => state
  | vma :: vmas, state => vmFreeVmas vmas (env.kfree state vma.ptr).2

/-- `vm_space_destroy`. -/
def vmSpaceDestroy (vm : VmSpace) (state : State) : Status × VmSpace × State :=
  let state := vmFreeVmas env vm.vmas state
  match env.archVmSpaceDestroy state vm.arch with
  | (status, arch, state) => (status, { vmas := [], arch := arch }, state)

/-- A call that a client makes on its address space. -/
inductive VmOp where
  | map (virt phys size flags : ℕ)
  | unmap (virt size : ℕ)
  | protect (virt size flags : ℕ)
  deriving DecidableEq, Repr

/-- Start of the range of a call. -/
def VmOp.virt : VmOp → ℕ
  | .map virt _ _ _ => virt
  | .unmap virt _ => virt
  | .protect virt _ _ => virt

/-- End of the range of a call, without wrapping. -/
def VmOp.rangeEnd : VmOp → ℕ
  | .map virt _ size _ => virt + size
  | .unmap virt size => virt + size
  | .protect virt size _ => virt + size

/-- One call. -/
def vmCall (op : VmOp) (vm : VmSpace) (state : State) : Status × VmSpace × State :=
  match op with
  | .map virt phys size flags => vmMap env vm virt phys size flags state
  | .unmap virt size => vmUnmap env vm virt size state
  | .protect virt size flags => vmProtect env vm virt size flags state

/-- A sequence of calls, whatever each of them returns. -/
def vmCalls : List VmOp → VmSpace → State → VmSpace × State
  | [], vm, state => (vm, state)
  | op :: ops, vm, state =>
      let result := vmCall env op vm state
      vmCalls ops result.2.1 result.2.2

end Operations

/-! ## Ranges -/

theorem vmUserRangeValid_iff {virt size : ℕ} :
    vmUserRangeValid virt size = true ↔ 0 < size ∧ virt < vmUserEnd ∧
      (virt + size ≤ vmUserEnd ∨ virt + size = 2 ^ 32) := by
  unfold vmUserRangeValid vmUserStart vmUserEnd
  split
  · simp only [Bool.false_eq_true, false_iff]
    omega
  split
  · simp only [Bool.false_eq_true, false_iff]
    omega
  split
  · simp only [Bool.false_eq_true, false_iff]
    omega
  · simp only [decide_eq_true_eq]
    omega

theorem vmPhysRangeValid_iff {phys size : ℕ} (phys_lt : phys < 2 ^ 64) :
    vmPhysRangeValid phys size = true ↔ 0 < size ∧ phys + size ≤ 2 ^ 64 := by
  unfold vmPhysRangeValid
  split
  · simp only [Bool.false_eq_true, false_iff]
    omega
  split
  · simp only [Bool.false_eq_true, false_iff]
    omega
  · simp only [true_iff]
    omega

end ItWorksOS
