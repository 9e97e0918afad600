import ItWorksOS.Process.Process
import ItWorksOS.Mm.KheapOwners

/-!
# Creating processes

`process_create` takes a process number, a heap block, an address space and a kernel stack, one
after the other, and each failure undoes the steps before it by hand. The functions of
`process/pid.c` hand out the numbers.
-/

namespace ItWorksOS

/-! ## Process numbers -/

/-- `PID_MAX`, which is also `PROCESS_MAX`. -/
abbrev pidMax : ℕ := 64

/-- `PID_FIRST`. -/
abbrev pidFirst : ℕ := 1

/-- `pid_bm` before `pid_init`. -/
def pidBm : Bitmap where
  data _ := 0#32
  nbits := pidMax

/-- `pid_init`. -/
def pidInit (bm : Bitmap) : Status × Bitmap := (.ok (), bitmapSet bm 0)

/-- `pid_alloc`. -/
def pidAlloc (bm : Bitmap) : Except KError ℕ × Bitmap :=
  match bitmapFindZero bm with
  | none => (.error .nospc, bm)
  | some pos => (.ok pos, bitmapSet bm pos)

/-- `pid_free`. -/
def pidFree (bm : Bitmap) (pid : ℤ) : Status × Bitmap :=
  if pid < pidFirst ∨ pidMax ≤ pid then (.error .inval, bm)
  else if !bitmapTest bm pid.toNat then (.error .noent, bm)
  else (.ok (), bitmapClear bm pid.toNat)

/-! ## The process table -/

/-- `struct process`, without its place in the scheduler. -/
structure NamedProcess extends Process where
  /-- Address of the name. -/
  name : ℕ
  /-- `pid`. -/
  pid : ℕ

/-- `sizeof(struct process)`. -/
abbrev processSize : ℕ := 52

/-- Memory management and the data of `process.c` and `pid.c`. -/
structure ProcessTable where
  /-- Memory management with its kernel stacks. -/
  memory : KstackState Kheap
  /-- `pid_bm`. -/
  pids : Bitmap
  /-- `process_table`: addresses, where `0` is `NULL`. -/
  table : ℕ → ℕ
  /-- The `struct process` at each address. -/
  procs : ℕ → NamedProcess

namespace ProcessTable

/-- Memory management without the kernel stacks. -/
def kernel (state : ProcessTable) : Kernel Kheap := state.memory.kernel

def setKernel (state : ProcessTable) (kernel : Kernel Kheap) : ProcessTable :=
  { state with memory := { state.memory with kernel := kernel } }

/-- Write the `struct process` at an address. -/
def setProc (state : ProcessTable) (proc : ℕ) (process : NamedProcess) : ProcessTable :=
  { state with procs := Function.update state.procs proc process }

/-- `pid_free(pid)`, whose result is ignored. -/
def freePid (state : ProcessTable) (pid : ℕ) : ProcessTable :=
  { state with pids := (pidFree state.pids pid).2 }

/-- `kfree(proc)`, whose result is ignored. -/
def freeProc (state : ProcessTable) (proc : ℕ) : ProcessTable :=
  state.setKernel { state.kernel with heap := (kfree state.kernel.heap proc).2 }

end ProcessTable

/-- `process_get`. -/
def processGet (state : ProcessTable) (pid : ℤ) : ℕ :=
  if pid < pidFirst ∨ pidMax ≤ pid then 0 else state.table pid.toNat

theorem processGet_of_valid {state : ProcessTable} {pid : ℕ} (first_le : pidFirst ≤ pid)
    (pid_lt : pid < pidMax) : processGet state pid = state.table pid := by
  unfold pidFirst at first_le
  unfold pidMax at pid_lt
  rw [processGet, if_neg (by unfold pidFirst pidMax; omega), Int.toNat_natCast]

/-- `process_get` finds a process only under a valid number. -/
theorem processGet_ne_zero {state : ProcessTable} {pid : ℤ} (found : processGet state pid ≠ 0) :
    ∃ index : ℕ, pid = index ∧ pidFirst ≤ index ∧ index < pidMax := by
  by_cases invalid : pid < pidFirst ∨ pidMax ≤ pid
  · rw [processGet, if_pos invalid] at found
    exact absurd rfl found
  · unfold pidFirst pidMax at *
    exact ⟨pid.toNat, by omega, by omega, by omega⟩

/-- The structure after `memset`, with the members that `process_create` sets. -/
def freshProcess (name pid : ℕ) : NamedProcess where
  state := .created
  vm := { vmas := [], arch := ⟨0⟩ }
  kstack := { base := 0, stackPointer := 0, size := 0 }
  entry := 0
  name := name
  pid := pid

/-- `process_create` until its address space exists: the number and the address of the process, or
the error pointer that is returned. -/
def processCreateSpace (name : ℕ) (state : ProcessTable) : Except ℕ (ℕ × ℕ) × ProcessTable :=
  if name = 0 then (.error (kerrPtr .inval), state)
  else
    match pidAlloc state.pids with
    | (.error error, pids) => (.error (kerrPtr error), { state with pids := pids })
    | (.ok pid, pids) =>
        let state := { state with pids := pids }
        match kheapOps.kmalloc state.kernel.heap processSize with
        | (proc, heap) =>
            let state := state.setKernel { state.kernel with heap := heap }
            if kerrPtrIsErr proc then (.error proc, state.freePid pid)
            else
              match vmSpaceInit (x86Env kheapOps) state.kernel with
              | (.error error, kernel) =>
                  (.error (kerrPtr error),
                    (((state.setProc proc (freshProcess name pid)).setKernel kernel).freePid
                      pid).freeProc proc)
              | (.ok vm, kernel) =>
                  (.ok (pid, proc), (state.setProc proc
                    { freshProcess name pid with vm := vm }).setKernel kernel)

/-- `process_create` from `kstack_alloc` on. -/
def processCreateStack (pid proc : ℕ) (state : ProcessTable) : ℕ × ProcessTable :=
  let process := state.procs proc
  match kstackAlloc state.memory process.kstack with
  | (.error error, kstack, memory) =>
      match vmSpaceDestroy (x86Env kheapOps) process.vm memory.kernel with
      | (_, vm, kernel) =>
          let state := { state with memory := { memory with kernel := kernel } }
          (kerrPtr error,
            ((state.setProc proc { process with vm := vm, kstack := kstack }).freePid pid).freeProc
              proc)
  | (.ok (), kstack, memory) =>
      let state := { state with memory := memory }
      (proc, { state.setProc proc { process with kstack := kstack } with
        table := Function.update state.table pid proc })

/-- `process_create`: the address of the new process, or an error pointer. -/
def processCreate (name : ℕ) (state : ProcessTable) : ℕ × ProcessTable :=
  match processCreateSpace name state with
  | (.error ptr, state) => (ptr, state)
  | (.ok (pid, proc), state) => processCreateStack pid proc state

/-! ## The parts of `process_create` -/

theorem processCreate_of_error {state state' : ProcessTable} {name ptr : ℕ}
    (failed : processCreateSpace name state = (.error ptr, state')) :
    processCreate name state = (ptr, state') := by
  rw [processCreate, failed]

theorem processCreate_of_ok {state state' : ProcessTable} {name pid proc : ℕ}
    (spaced : processCreateSpace name state = (.ok (pid, proc), state')) :
    processCreate name state = processCreateStack pid proc state' := by
  rw [processCreate, spaced]

theorem processCreateStack_of_error {state : ProcessTable} {pid proc : ℕ} {error : KError}
    {kstack : KernelStack} {memory : KstackState Kheap} {status : Status} {vm : VmSpace}
    {kernel : Kernel Kheap}
    (call : kstackAlloc state.memory (state.procs proc).kstack = (.error error, kstack, memory))
    (destroyed : vmSpaceDestroy (x86Env kheapOps) (state.procs proc).vm memory.kernel =
      (status, vm, kernel)) :
    processCreateStack pid proc state = (kerrPtr error,
      ((ProcessTable.setProc { state with memory := { memory with kernel := kernel } } proc
        { state.procs proc with vm := vm, kstack := kstack }).freePid pid).freeProc proc) := by
  rw [processCreateStack, call]
  simp only [destroyed]

theorem processCreateStack_of_ok {state : ProcessTable} {pid proc : ℕ} {kstack : KernelStack}
    {memory : KstackState Kheap}
    (call : kstackAlloc state.memory (state.procs proc).kstack = (.ok (), kstack, memory)) :
    processCreateStack pid proc state = (proc,
      { ProcessTable.setProc { state with memory := memory } proc
          { state.procs proc with kstack := kstack } with
        table := Function.update state.table pid proc }) := by
  rw [processCreateStack, call]

/-! ## Undoing -/

/-- Freeing a number right after its allocation restores the bitmap. -/
theorem pidFree_pidAlloc {bm : Bitmap} {pid : ℕ} (clear : bitmapTest bm pid = false)
    (first_le : pidFirst ≤ pid) (pid_lt : pid < pidMax) :
    pidFree (bitmapSet bm pid) pid = (.ok (), bm) := by
  have restored : bitmapClear (bitmapSet bm pid) pid = bm := by
    refine Bitmap.ext (data_eq_of_bitmapTest fun query => ?_) rfl
    rw [bitmapTest_bitmapClear, bitmapTest_bitmapSet]
    by_cases same : query = pid
    · simp [same, clear]
    · simp [same]
  unfold pidFirst at first_le
  unfold pidMax at pid_lt
  rw [pidFree, if_neg (by unfold pidFirst pidMax; omega)]
  simp [restored]

/-- A number that `pid_alloc` returns was not in use, and is a valid process number when number
`0` is reserved. -/
theorem pidAlloc_cases {bm : Bitmap} (nbits : bm.nbits = pidMax)
    (reserved : bitmapTest bm 0 = true) :
    pidAlloc bm = (.error .nospc, bm) ∨
      ∃ pid, pidAlloc bm = (.ok pid, bitmapSet bm pid) ∧ pidFirst ≤ pid ∧ pid < pidMax ∧
        bitmapTest bm pid = false := by
  rcases bitmapFindZero_cases bm with ⟨full, -⟩ | ⟨pid, found, pid_lt, clear, -⟩
  · exact Or.inl (by rw [pidAlloc, full])
  · refine Or.inr ⟨pid, by rw [pidAlloc, found], ?_, nbits ▸ pid_lt, clear⟩
    refine Nat.pos_of_ne_zero ?_
    rintro rfl
    rw [reserved] at clear
    cases clear

end ItWorksOS
