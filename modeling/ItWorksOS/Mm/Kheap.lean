import ItWorksOS.Klib.List
import ItWorksOS.Mm.Pmm

/-!
# Kernel heap

`kheap.c` overlays boundary tags and free-list links on raw LowMem memory. A block starts with a
16-byte header (size, flags, list node) and ends with a 4-byte footer that repeats the size. The
memory is indexed by kernel virtual address.
-/

namespace ItWorksOS

/-- The heap's static data and the memory it manages. -/
structure Kheap where
  /-- Kernel memory, by virtual address. -/
  mem : ByteMemory
  /-- `kheap_start`. -/
  start : ℕ
  /-- `kheap_end`. -/
  stop : ℕ
  /-- Address of the sentinel of `kheap_free_list`. -/
  freeList : ℕ

/-- `sizeof(struct kheap_header)`. -/
abbrev kheapHeaderSize : ℕ := 16

/-- `sizeof(struct kheap_footer)`. -/
abbrev kheapFooterSize : ℕ := 4

/-- `KHEAP_MIN_BLOCK_SIZE`: a header, one aligned payload unit and a footer. -/
abbrev kheapMinBlockSize : ℕ := 24

/-- `MASK_TEST(hdr->flags, KHEAP_FLAG_ALLOC)`. -/
def kheapAllocated (mem : ByteMemory) (hdr : ℕ) : Bool := mem.read32 (hdr + 4) &&& 1 != 0

/-- `MASK_SET(hdr->flags, KHEAP_FLAG_ALLOC)`. -/
def kheapSetAlloc (mem : ByteMemory) (hdr : ℕ) : ByteMemory :=
  mem.write32 (hdr + 4) (mem.read32 (hdr + 4) ||| 1)

/-- `MASK_CLEAR(hdr->flags, KHEAP_FLAG_ALLOC)`. -/
def kheapClearAlloc (mem : ByteMemory) (hdr : ℕ) : ByteMemory :=
  mem.write32 (hdr + 4) (mem.read32 (hdr + 4) &&& 0xFFFFFFFE)

/-- `kheap_init`, from the memory and the PMM state it starts in. -/
def kheapInit (mem : ByteMemory) (freeList : ℕ) (pmm : Pmm) : Except KError Kheap × Pmm :=
  match pmmAllocLowmem pmm 256 with
  | (.error error, pmm) => (.error error, pmm)
  | (.ok phys, pmm) =>
      let start := physToVirt phys
      let blockSize := pmmFrameSize * 256
      let stop := (start + blockSize) % 2 ^ 32
      let mem := mem.write32 start blockSize
      let mem := mem.write32 (start + 4) 0
      let mem := mem.write32 (stop - kheapFooterSize) blockSize
      let mem := listInit wordNodes mem freeList
      let mem := listInsertFront wordNodes mem freeList (start + 8)
      (.ok { mem := mem, start := start, stop := stop, freeList := freeList }, pmm)

/-- The first-fit loop of `kmalloc`. The result is `none` when the fuel runs out, and otherwise the
header of the first block of the free list that is large enough, if any. -/
def kmallocFind (mem : ByteMemory) (freeList blockSize : ℕ) : ℕ → ℕ → Option (Option ℕ)
  | 0, _ => none
  | fuel + 1, node =>
      if node = freeList then some none
      else if blockSize ≤ mem.read32 (node - 8) then some (some (node - 8))
      else kmallocFind mem freeList blockSize fuel (mem.read32 node)

/-- The boundary tags `kmalloc` writes when it splits a block: an allocated block of `blockSize`
bytes followed by a free block of `remaining` bytes. -/
def kheapSplit (mem : ByteMemory) (hdr blockSize remaining : ℕ) : ByteMemory :=
  let mem := kheapSetAlloc mem hdr
  let mem := mem.write32 hdr blockSize
  let footer := hdr + blockSize - kheapFooterSize
  let mem := mem.write32 footer blockSize
  let freeHdr := footer + kheapFooterSize
  let mem := kheapClearAlloc mem freeHdr
  let mem := mem.write32 freeHdr remaining
  mem.write32 (freeHdr + remaining - kheapFooterSize) remaining

/-- The body of the first-fit loop once a block is found: split it or take it whole. -/
def kmallocTake (mem : ByteMemory) (hdr blockSize : ℕ) : ByteMemory :=
  let remaining := mem.read32 hdr - blockSize
  if kheapMinBlockSize ≤ remaining then
    let freeHdr := hdr + blockSize
    listReplace wordNodes 0 (kheapSplit mem hdr blockSize remaining) (hdr + 8) (freeHdr + 8)
  else
    let mem := listRemove wordNodes 0 mem (hdr + 8)
    kheapSetAlloc mem hdr

/-- Size of the block that serves a request, in 32-bit arithmetic. -/
def kmallocBlockSize (size : ℕ) : ℕ :=
  (kheapHeaderSize + alignUp 32 size 4 + kheapFooterSize) % 2 ^ 32

/-- `kmalloc`. There are at most `2 ^ 32` node addresses, so a loop that takes more iterations
never ends; the result is then `none`. -/
def kmalloc (heap : Kheap) (size : ℕ) : Option (ℕ × Kheap) :=
  if size = 0 then some (kerrPtr .inval, heap)
  else
    match kmallocFind heap.mem heap.freeList (kmallocBlockSize size) (2 ^ 32)
        (heap.mem.read32 heap.freeList) with
    | none => none
    | some none => some (kerrPtr .nomem, heap)
    | some (some hdr) =>
        some (hdr + kheapHeaderSize,
          { heap with mem := kmallocTake heap.mem hdr (kmallocBlockSize size) })

/-- `kheap_merge`. -/
def kheapMerge (mem : ByteMemory) (left right : ℕ) : ByteMemory :=
  let mem := mem.write32 left (mem.read32 left + mem.read32 right)
  mem.write32 (right + mem.read32 right - kheapFooterSize) (mem.read32 left)

/-- The part of `kfree` that follows the validation of the pointer: mark the block as free and
coalesce it with its free neighbours. -/
def kfreeBlock (heap : Kheap) (hdr : ℕ) : ByteMemory :=
  let mem := kheapClearAlloc heap.mem hdr
  let nextHdr := (hdr + mem.read32 hdr) % 2 ^ 32
  let nextFree := decide (nextHdr < heap.stop) && !kheapAllocated mem nextHdr
  let prevHdr := (hdr + 2 ^ 32 - mem.read32 (hdr - kheapFooterSize)) % 2 ^ 32
  let prevFree := decide (hdr ≠ heap.start) && !kheapAllocated mem prevHdr
  let mem := if prevFree then kheapMerge mem prevHdr hdr else mem
  let hdr := if prevFree then prevHdr else hdr
  let mem :=
    if nextFree then kheapMerge (listRemove wordNodes 0 mem (nextHdr + 8)) hdr nextHdr else mem
  if prevFree then mem else listInsertFront wordNodes mem heap.freeList (hdr + 8)

/-- `kfree`. -/
def kfree (heap : Kheap) (ptr : ℕ) : Status × Kheap :=
  if ptr = 0 then (.error .inval, heap)
  else if ptr < heap.start + kheapHeaderSize ∨ heap.stop - kheapMinBlockSize ≤ ptr then
    (.error .inval, heap)
  else if ptr % 4 ≠ 0 then (.error .inval, heap)
  else if !kheapAllocated heap.mem (ptr - kheapHeaderSize) then (.error .inval, heap)
  else (.ok (), { heap with mem := kfreeBlock heap (ptr - kheapHeaderSize) })

/-- One line of `kheap_dump`: a block header and the state it reports. -/
structure KheapBlock where
  /-- Header address. -/
  addr : ℕ
  /-- Size of the whole block. -/
  size : ℕ
  /-- Reported as free. -/
  free : Bool
  deriving DecidableEq, Repr

/-- The block walk of `kheap_dump`: the blocks it reports and the address at which it stops, or
`none` when the fuel runs out. -/
def kheapWalk (heap : Kheap) : ℕ → ℕ → Option (List KheapBlock × ℕ)
  | 0, _ => none
  | fuel + 1, addr =>
      if addr < heap.stop then
        let size := heap.mem.read32 addr
        (kheapWalk heap fuel ((addr + size) % 2 ^ 32)).map fun walked =>
          (⟨addr, size, !kheapAllocated heap.mem addr⟩ :: walked.1, walked.2)
      else
        some ([], addr)

end ItWorksOS
