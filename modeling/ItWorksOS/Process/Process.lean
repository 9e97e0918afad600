import ItWorksOS.Foundation.Word32
import ItWorksOS.Format.Iwbf
import ItWorksOS.Mm.AddressSpaces
import ItWorksOS.Mm.KernelStack

/-!
# Processes of `process/process.c`

`process_load` trusts nothing in an image: it parses one segment descriptor after the other, gives
each segment frames of its own and maps them before it copies the data of the file. The image is
read where it lies in memory, so its bytes are those of the moment. The loader reaches memory
through operations that record what they read and write.
-/

namespace ItWorksOS

/-- `enum process_state`. -/
inductive ProcessState where
  | created
  | ready
  | running
  | blocked
  | exited
  deriving DecidableEq

/-- `struct process`, without its name, its number and its place in the scheduler. -/
structure Process where
  state : ProcessState
  vm : VmSpace
  kstack : KernelStack
  entry : ℕ

/-- `USER_STACK_TOP`. -/
abbrev userStackTop : ℕ := 0xBFFFE000

/-- `USER_STACK_SIZE`. -/
abbrev userStackSize : ℕ := 4 * 4096

/-- What the loader does to memory, and the steps that its accesses depend on. -/
inductive LoadAccess where
  /-- A byte that is read. -/
  | read (address : ℕ)
  /-- A byte that is written. -/
  | write (address : ℕ)
  /-- Position and length that a descriptor is parsed with. -/
  | descriptor (i segOff left : ℕ)
  /-- Frames that a segment receives. -/
  | frames (phys pages : ℕ)
  deriving DecidableEq

/-! ## Reading -/

/-- A computation that records its accesses, latest first. -/
abbrev Recorded := StateM (List LoadAccess)

/-- Read a byte. -/
def recordedRead (mem : ByteMemory) (address : ℕ) : Recorded UInt8 := do
  modify (.read address :: ·)
  return mem address

/-- `read_le16`, with recorded reads. -/
def recordedReadLe16 (mem : ByteMemory) (buf : ℕ) : Recorded UInt16 := do
  let low ← recordedRead mem buf
  let high ← recordedRead mem (buf + 1)
  return low.toUInt16 ||| high.toUInt16 <<< 8

/-- `read_le32`, with recorded reads. -/
def recordedReadLe32 (mem : ByteMemory) (buf : ℕ) : Recorded UInt32 := do
  let first ← recordedRead mem buf
  let second ← recordedRead mem (buf + 1)
  let third ← recordedRead mem (buf + 2)
  let fourth ← recordedRead mem (buf + 3)
  return first.toUInt32 ||| second.toUInt32 <<< 8 ||| third.toUInt32 <<< 16 |||
    fourth.toUInt32 <<< 24

/-- `iwbf_parse_hdr`, with recorded reads. -/
def recordedParseHdr (mem : ByteMemory) (buf size : ℕ) (out : Iwbf32Hdr) :
    Recorded (Status × Iwbf32Hdr) :=
  if size < iwbf32HdrSize then return (.error .inval, out)
  else do
    let magic ← recordedReadLe32 mem buf
    let type ← recordedReadLe16 mem (buf + 4)
    let arch ← recordedReadLe16 mem (buf + 6)
    let entry ← recordedReadLe32 mem (buf + 8)
    let segmentCount ← recordedReadLe16 mem (buf + 12)
    let out : Iwbf32Hdr := { magic, type, arch, entry, segmentCount := segmentCount.toUInt32 }
    if out.magic ≠ iwbfHdrMagic then return (.error .inval, out)
    else if out.type ≠ iwbfHdrTypeExec then return (.error .inval, out)
    else if out.arch ≠ iwbfHdrArchI386 then return (.error .inval, out)
    else if out.segmentCount = 0 then return (.error .inval, out)
    else return (.ok (), out)

/-- `iwbf_parse_segment_hdr`, with recorded reads. -/
def recordedParseSegmentHdr (mem : ByteMemory) (buf size : ℕ) (out : Iwbf32SegmentHdr) :
    Recorded (Status × Iwbf32SegmentHdr) :=
  if size < iwbf32SegmentHdrSize then return (.error .inval, out)
  else do
    let vaddr ← recordedReadLe32 mem buf
    let fileOff ← recordedReadLe32 mem (buf + 4)
    let fileSize ← recordedReadLe32 mem (buf + 8)
    let memSize ← recordedReadLe32 mem (buf + 12)
    let flags ← recordedReadLe32 mem (buf + 16)
    let out : Iwbf32SegmentHdr := { vaddr, fileOff, fileSize, memSize, flags }
    if out.memSize < out.fileSize then return (.error .inval, out)
    else if out.flags &&& (iwbfSegFlagRead ||| iwbfSegFlagWrite ||| iwbfSegFlagExec) = 0 then
      return (.error .inval, out)
    else if out.flags &&& ~~~(iwbfSegFlagRead ||| iwbfSegFlagWrite ||| iwbfSegFlagExec) ≠ 0 then
      return (.error .inval, out)
    else return (.ok (), out)

/-- The bytes that are read lie inside a buffer. -/
def ReadsInside (buf size : ℕ) (reads : List LoadAccess) : Prop :=
  ∀ access ∈ reads, ∃ address, access = .read address ∧ buf ≤ address ∧ address < buf + size

/-- A computation returns the value, from reads inside a buffer. -/
def Recorded.Within {α : Type} (buf size : ℕ) (computation : Recorded α) (value : α) : Prop :=
  ∀ accesses, ∃ reads, computation accesses = (value, reads ++ accesses) ∧
    ReadsInside buf size reads

namespace Recorded.Within

variable {α β : Type} {mem : ByteMemory} {buf size address : ℕ}

theorem pure (value : α) : Within buf size (Pure.pure value) value :=
  fun _ => ⟨[], rfl, fun _ listed => by cases listed⟩

theorem bind {computation : Recorded α} {next : α → Recorded β} {value : α} {result : β}
    (first : Within buf size computation value) (rest : Within buf size (next value) result) :
    Within buf size (computation >>= next) result := by
  intro accesses
  obtain ⟨reads, ran, inside⟩ := first accesses
  obtain ⟨reads', ran', inside'⟩ := rest (reads ++ accesses)
  refine ⟨reads' ++ reads, ?_, List.forall_mem_append.mpr ⟨inside', inside⟩⟩
  rw [List.append_assoc, ← ran']
  exact congrArg (fun outcome : α × List LoadAccess => next outcome.1 outcome.2) ran

theorem read (lower : buf ≤ address) (upper : address < buf + size) :
    Within buf size (recordedRead mem address) (mem address) := fun _ =>
  ⟨[.read address], rfl, List.forall_mem_singleton.mpr ⟨address, rfl, lower, upper⟩⟩

theorem readLe16 (lower : buf ≤ address) (upper : address + 2 ≤ buf + size) :
    Within buf size (recordedReadLe16 mem address) (ItWorksOS.readLe16 mem address) := by
  refine (read lower (by omega)).bind ?_
  refine (read (by omega) (by omega)).bind ?_
  exact .pure _

theorem readLe32 (lower : buf ≤ address) (upper : address + 4 ≤ buf + size) :
    Within buf size (recordedReadLe32 mem address) (ItWorksOS.readLe32 mem address) := by
  refine (read lower (by omega)).bind ?_
  refine (read (by omega) (by omega)).bind ?_
  refine (read (by omega) (by omega)).bind ?_
  refine (read (by omega) (by omega)).bind ?_
  exact .pure _

end Recorded.Within

/-- The header is parsed as by `iwbf_parse_hdr`, from reads inside the buffer. -/
theorem recordedParseHdr_within (mem : ByteMemory) (buf size : ℕ) (out : Iwbf32Hdr) :
    Recorded.Within buf size (recordedParseHdr mem buf size out)
      (iwbfParseHdr mem buf size out) := by
  unfold recordedParseHdr iwbfParseHdr
  split_ifs with short
  · exact .pure _
  · unfold iwbf32HdrSize at short
    refine (Recorded.Within.readLe32 le_rfl (by omega)).bind ?_
    refine (Recorded.Within.readLe16 (by omega) (by omega)).bind ?_
    refine (Recorded.Within.readLe16 (by omega) (by omega)).bind ?_
    refine (Recorded.Within.readLe32 (by omega) (by omega)).bind ?_
    refine (Recorded.Within.readLe16 (by omega) (by omega)).bind ?_
    dsimp only
    split_ifs
    all_goals exact .pure _

/-- A descriptor is parsed as by `iwbf_parse_segment_hdr`, from reads inside the buffer. -/
theorem recordedParseSegmentHdr_within (mem : ByteMemory) (buf size : ℕ) (out : Iwbf32SegmentHdr) :
    Recorded.Within buf size (recordedParseSegmentHdr mem buf size out)
      (iwbfParseSegmentHdr mem buf size out) := by
  unfold recordedParseSegmentHdr iwbfParseSegmentHdr
  split_ifs with short
  · exact .pure _
  · unfold iwbf32SegmentHdrSize at short
    refine (Recorded.Within.readLe32 le_rfl (by omega)).bind ?_
    refine (Recorded.Within.readLe32 (by omega) (by omega)).bind ?_
    refine (Recorded.Within.readLe32 (by omega) (by omega)).bind ?_
    refine (Recorded.Within.readLe32 (by omega) (by omega)).bind ?_
    refine (Recorded.Within.readLe32 (by omega) (by omega)).bind ?_
    dsimp only
    split_ifs
    all_goals exact .pure _

/-! ## Loading -/

variable {Heap : Type*}

/-- The process being loaded, with the accesses so far, latest first. -/
structure LoadState (Heap : Type*) where
  vm : VmSpace
  kernel : Kernel Heap
  accesses : List LoadAccess

/-- Record a step. -/
def LoadState.record (state : LoadState Heap) (access : LoadAccess) : LoadState Heap :=
  { state with accesses := access :: state.accesses }

/-- Parse the memory of the kernel. -/
def LoadState.parse {α : Type} (state : LoadState Heap) (parser : ByteMemory → Recorded α) :
    α × LoadState Heap :=
  let (value, accesses) := parser state.kernel.machine.mem state.accesses
  (value, { state with accesses })

/-- The kernel with other contents of its memory. -/
def Kernel.setMem (kernel : Kernel Heap) (mem : ByteMemory) : Kernel Heap :=
  { kernel with machine := { kernel.machine with mem := mem } }

/-- Copy a byte. -/
def LoadState.copyByte (state : LoadState Heap) (dst src : ℕ) : LoadState Heap :=
  { state with
    kernel := state.kernel.setMem
      (state.kernel.machine.mem.write8 dst (state.kernel.machine.mem src))
    accesses := .write dst :: .read src :: state.accesses }

/-- Store a byte. -/
def LoadState.storeByte (state : LoadState Heap) (dst : ℕ) (val : UInt8) : LoadState Heap :=
  { state with
    kernel := state.kernel.setMem (state.kernel.machine.mem.write8 dst val)
    accesses := .write dst :: state.accesses }

/-- `memcpy`, with recorded accesses. -/
def LoadState.memcpy (state : LoadState Heap) (dst src : ℕ) : ℕ → LoadState Heap
  | 0 => state
  | n + 1 => (state.memcpy dst src n).copyByte (dst + n) (src + n)

/-- `memset`, with recorded accesses. -/
def LoadState.memset (state : LoadState Heap) (dst : ℕ) (val : UInt8) : ℕ → LoadState Heap
  | 0 => state
  | n + 1 => (state.memset dst val n).storeByte (dst + n) val

/-- The bytes are copied as by `memcpy`. -/
theorem LoadState.memcpy_eq (state : LoadState Heap) (dst src n : ℕ) :
    ∃ accesses, state.memcpy dst src n =
      { state with
        kernel := state.kernel.setMem (ItWorksOS.memcpy state.kernel.machine.mem dst src n)
        accesses } := by
  induction n with
  | zero => exact ⟨state.accesses, rfl⟩
  | succ n induction =>
      obtain ⟨accesses, copied⟩ := induction
      exact ⟨_, by rw [memcpy, copied]; rfl⟩

/-- The bytes are filled as by `memset`. -/
theorem LoadState.memset_eq (state : LoadState Heap) (dst : ℕ) (val : UInt8) (n : ℕ) :
    ∃ accesses, state.memset dst val n =
      { state with
        kernel := state.kernel.setMem (ItWorksOS.memset state.kernel.machine.mem dst val n)
        accesses } := by
  induction n with
  | zero => exact ⟨state.accesses, rfl⟩
  | succ n induction =>
      obtain ⟨accesses, filled⟩ := induction
      exact ⟨_, by rw [memset, filled]; rfl⟩

theorem LoadState.parse_hdr (state : LoadState Heap) (image size : ℕ) (out : Iwbf32Hdr) :
    ∃ reads, state.parse (recordedParseHdr · image size out) =
        (iwbfParseHdr state.kernel.machine.mem image size out,
          { state with accesses := reads ++ state.accesses }) ∧ ReadsInside image size reads := by
  obtain ⟨reads, result, inside⟩ :=
    recordedParseHdr_within state.kernel.machine.mem image size out state.accesses
  exact ⟨reads, by rw [parse, result], inside⟩

theorem LoadState.parse_segmentHdr (state : LoadState Heap) (buf size : ℕ)
    (out : Iwbf32SegmentHdr) :
    ∃ reads, state.parse (recordedParseSegmentHdr · buf size out) =
        (iwbfParseSegmentHdr state.kernel.machine.mem buf size out,
          { state with accesses := reads ++ state.accesses }) ∧ ReadsInside buf size reads := by
  obtain ⟨reads, result, inside⟩ :=
    recordedParseSegmentHdr_within state.kernel.machine.mem buf size out state.accesses
  exact ⟨reads, by rw [parse, result], inside⟩

/-- IWBF permissions as permissions of an area. -/
def segmentVmFlags (flags : UInt32) : ℕ :=
  let vmFlags := vmUser
  let vmFlags := if flags &&& iwbfSegFlagRead ≠ 0 then vmFlags ||| vmRead else vmFlags
  let vmFlags := if flags &&& iwbfSegFlagWrite ≠ 0 then vmFlags ||| vmWrite else vmFlags
  if flags &&& iwbfSegFlagExec ≠ 0 then vmFlags ||| vmExec else vmFlags

/-- Copy the file data of a segment. -/
def copyFileData (image phys : ℕ) (seg : Iwbf32SegmentHdr) (state : LoadState Heap) :
    LoadState Heap :=
  if seg.fileSize ≠ 0 then
    state.memcpy phys (image + seg.fileOff.toNat) seg.fileSize.toNat
  else state

/-- Fill the remaining part of a segment with zero bytes. -/
def fillRest (phys : ℕ) (seg : Iwbf32SegmentHdr) (state : LoadState Heap) : LoadState Heap :=
  if seg.fileSize < seg.memSize then
    state.memset (phys + seg.fileSize.toNat) 0 (seg.memSize.toNat - seg.fileSize.toNat)
  else state

/-- Map the frames of a segment, and release them when that fails. -/
def mapSegment (ops : HeapOps Heap) (image phys pages : ℕ) (seg : Iwbf32SegmentHdr)
    (state : LoadState Heap) : Status × LoadState Heap :=
  match vmMap (x86Env ops) state.vm seg.vaddr.toNat phys seg.memSize.toNat
      (segmentVmFlags seg.flags) state.kernel with
  | (.error error, vm, kernel) =>
      (.error error, { state with
        vm := vm
        kernel := kernel.setPmm (pmmFree kernel.machine.pmm phys pages).2 })
  | (.ok (), vm, kernel) =>
      (.ok (), fillRest phys seg
        (copyFileData image phys seg { state with vm := vm, kernel := kernel }))

/-- Check a segment against the file, and give it frames. -/
def placeSegment (ops : HeapOps Heap) (image size : ℕ) (seg : Iwbf32SegmentHdr)
    (state : LoadState Heap) : Status × LoadState Heap :=
  if seg.memSize < seg.fileSize then (.error .inval, state)
  else if size < seg.fileOff.toNat then (.error .inval, state)
  else if size - seg.fileOff.toNat < seg.fileSize.toNat then (.error .inval, state)
  else
    let pages := seg.memSize.toNat / archVmPageSize
    match pmmAllocLowmem state.kernel.machine.pmm pages with
    | (.error error, pmm) => (.error error, { state with kernel := state.kernel.setPmm pmm })
    | (.ok phys, pmm) =>
        mapSegment ops image phys pages seg
          (LoadState.record { state with kernel := state.kernel.setPmm pmm } (.frames phys pages))

/-- One iteration of `process_load`. -/
def processLoadSegment (ops : HeapOps Heap) (image size i : ℕ) (state : LoadState Heap) :
    Status × LoadState Heap :=
  let segOff := Word32.add iwbf32HdrSize (Word32.mul iwbf32SegmentHdrSize i)
  let left := Word32.sub size segOff
  let state := state.record (.descriptor i segOff left)
  match state.parse (recordedParseSegmentHdr · (image + segOff) left default) with
  | ((.error error, _), state) => (.error error, state)
  | ((.ok (), seg), state) => placeSegment ops image size seg state

/-- The loop of `process_load` over `count` segments from segment `i`. -/
def processLoadSegments (ops : HeapOps Heap) (image size : ℕ) :
    ℕ → ℕ → LoadState Heap → Status × LoadState Heap
  | 0, _, state => (.ok (), state)
  | count + 1, i, state =>
      kerrTry (processLoadSegment ops image size i state) fun state =>
        processLoadSegments ops image size count (i + 1) state

/-- `process_load`, for an image at a physical address. -/
def processLoad (ops : HeapOps Heap) (proc : Process) (image size : ℕ) (kernel : Kernel Heap) :
    Status × Process × LoadState Heap :=
  let state : LoadState Heap := { vm := proc.vm, kernel := kernel, accesses := [] }
  if size = 0 then (.error .inval, proc, state)
  else if proc.state ≠ .created then (.error .inval, proc, state)
  else
    match state.parse (recordedParseHdr · image size default) with
    | ((.error error, _), state) => (.error error, proc, state)
    | ((.ok (), hdr), state) =>
        match processLoadSegments ops image size hdr.segmentCount.toNat 0 state with
        | (.error error, state) => (.error error, { proc with vm := state.vm }, state)
        | (.ok (), state) =>
            (.ok (), { proc with vm := state.vm, entry := hdr.entry.toNat }, state)

/-- Store a word at a virtual address of the kernel. -/
def kernelStore32 (kernel : Kernel Heap) (va value : ℕ) : Kernel Heap :=
  match vmKernTranslate kernel va with
  | .error _ => kernel
  | .ok phys => kernel.setMem (kernel.machine.mem.write32 phys value)

/-- `arch_process_stack_prepare`: push the frame of an interrupt return on the kernel stack. -/
def archProcessStackPrepare (proc : Process) (kernel : Kernel Heap) :
    Status × Process × Kernel Heap :=
  let top := Word32.add proc.kstack.base proc.kstack.size
  let frame := [0x20 ||| 3, userStackTop, 2 ^ 9 ||| 2 ^ 1, 0x18 ||| 3, proc.entry]
  let pushed := frame.foldl (fun (stack : ℕ × Kernel Heap) value =>
    (Word32.sub stack.1 4, kernelStore32 stack.2 (Word32.sub stack.1 4) value)) (top, kernel)
  (.ok (), { proc with kstack := { proc.kstack with stackPointer := pushed.1 } }, pushed.2)

/-- `process_prepare`. -/
def processPrepare (ops : HeapOps Heap) (proc : Process) (kernel : Kernel Heap) :
    Status × Process × Kernel Heap :=
  if proc.state ≠ .created then (.error .inval, proc, kernel)
  else
    match pmmAllocLowmem kernel.machine.pmm (userStackSize / archVmPageSize) with
    | (.error error, pmm) => (.error error, proc, kernel.setPmm pmm)
    | (.ok stackPhys, pmm) =>
        match vmMap (x86Env ops) proc.vm (userStackTop - userStackSize) stackPhys userStackSize
            (vmUser ||| vmRead ||| vmWrite ||| vmGrowsdown) (kernel.setPmm pmm) with
        | (.error error, vm, kernel) => (.error error, { proc with vm := vm }, kernel)
        | (.ok (), vm, kernel) => archProcessStackPrepare { proc with vm := vm } kernel

end ItWorksOS
