import ItWorksOS.Kernel.Error
import ItWorksOS.Klib.Endian

/-!
# The IWBF executable format of `format/iwbf.c`

The parsers fill the caller's record before they validate it, so they are modelled with the record
as an argument and a result. The encoders follow the layout documented in `format/iwbf.h`.
-/

namespace ItWorksOS

/-- `IWBF_HDR_MAGIC`. -/
def iwbfHdrMagic : UInt32 := 0x46425749

/-- `IWBF_HDR_TYPE_EXEC`. -/
def iwbfHdrTypeExec : UInt16 := 1

/-- `IWBF_HDR_ARCH_I386`. -/
def iwbfHdrArchI386 : UInt16 := 1

/-- `IWBF_SEG_FLAG_READ`. -/
def iwbfSegFlagRead : UInt32 := (1 : UInt32) <<< 0

/-- `IWBF_SEG_FLAG_WRITE`. -/
def iwbfSegFlagWrite : UInt32 := (1 : UInt32) <<< 1

/-- `IWBF_SEG_FLAG_EXEC`. -/
def iwbfSegFlagExec : UInt32 := (1 : UInt32) <<< 2

/-- `IWBF32_HDR_SIZE`. -/
def iwbf32HdrSize : ℕ := 16

/-- `IWBF32_SEGMENT_HDR_SIZE`. -/
def iwbf32SegmentHdrSize : ℕ := 20

/-- `struct iwbf32_hdr`. -/
@[ext] structure Iwbf32Hdr where
  /-- Must be `IWBF_HDR_MAGIC`. -/
  magic : UInt32
  /-- File type. -/
  type : UInt16
  /-- Target architecture. -/
  arch : UInt16
  /-- Virtual address at which execution starts. -/
  entry : UInt32
  /-- Number of segment descriptors. -/
  segmentCount : UInt32
  deriving DecidableEq, Inhabited

/-- `struct iwbf32_segment_hdr`. -/
@[ext] structure Iwbf32SegmentHdr where
  /-- First virtual address. -/
  vaddr : UInt32
  /-- Offset of the segment's data in the file. -/
  fileOff : UInt32
  /-- Number of bytes present in the file. -/
  fileSize : UInt32
  /-- Number of bytes in the address space. -/
  memSize : UInt32
  /-- Permissions. -/
  flags : UInt32
  deriving DecidableEq, Inhabited

/-- `iwbf_parse_hdr`; the segment count is read with `read_le16`, as the source does. -/
def iwbfParseHdr (mem : ByteMemory) (buf size : ℕ) (out : Iwbf32Hdr) : Status × Iwbf32Hdr :=
  if size < iwbf32HdrSize then
    (.error .inval, out)
  else
    let out : Iwbf32Hdr :=
      { magic := readLe32 mem buf
        type := readLe16 mem (buf + 4)
        arch := readLe16 mem (buf + 6)
        entry := readLe32 mem (buf + 8)
        segmentCount := (readLe16 mem (buf + 12)).toUInt32 }
    if out.magic ≠ iwbfHdrMagic then (.error .inval, out)
    else if out.type ≠ iwbfHdrTypeExec then (.error .inval, out)
    else if out.arch ≠ iwbfHdrArchI386 then (.error .inval, out)
    else if out.segmentCount = 0 then (.error .inval, out)
    else (.ok (), out)

/-- `iwbf_parse_segment_hdr`. -/
def iwbfParseSegmentHdr (mem : ByteMemory) (buf size : ℕ) (out : Iwbf32SegmentHdr) :
    Status × Iwbf32SegmentHdr :=
  if size < iwbf32SegmentHdrSize then
    (.error .inval, out)
  else
    let out : Iwbf32SegmentHdr :=
      { vaddr := readLe32 mem buf
        fileOff := readLe32 mem (buf + 4)
        fileSize := readLe32 mem (buf + 8)
        memSize := readLe32 mem (buf + 12)
        flags := readLe32 mem (buf + 16) }
    if out.memSize < out.fileSize then (.error .inval, out)
    else if out.flags &&& (iwbfSegFlagRead ||| iwbfSegFlagWrite ||| iwbfSegFlagExec) = 0 then
      (.error .inval, out)
    else if out.flags &&& ~~~(iwbfSegFlagRead ||| iwbfSegFlagWrite ||| iwbfSegFlagExec) ≠ 0 then
      (.error .inval, out)
    else (.ok (), out)

/-- The documented 16-byte header layout, 4+2+2+4+4. -/
def Iwbf32Hdr.encode (hdr : Iwbf32Hdr) : List UInt8 :=
  le32 hdr.magic ++ (le16 hdr.type ++ (le16 hdr.arch ++ (le32 hdr.entry ++ le32 hdr.segmentCount)))

/-- The documented 20-byte segment descriptor layout. -/
def Iwbf32SegmentHdr.encode (seg : Iwbf32SegmentHdr) : List UInt8 :=
  le32 seg.vaddr ++ (le32 seg.fileOff ++ (le32 seg.fileSize ++ (le32 seg.memSize ++
    le32 seg.flags)))

/-- A header record the format allows for this target. -/
structure Iwbf32Hdr.Valid (hdr : Iwbf32Hdr) : Prop where
  magic : hdr.magic = iwbfHdrMagic
  type : hdr.type = iwbfHdrTypeExec
  arch : hdr.arch = iwbfHdrArchI386
  segments : hdr.segmentCount ≠ 0

/-- A segment record the format allows: `flags` is a non-empty subset of the three permissions. -/
structure Iwbf32SegmentHdr.Valid (seg : Iwbf32SegmentHdr) : Prop where
  sizes : seg.fileSize ≤ seg.memSize
  some_flag : seg.flags &&& (iwbfSegFlagRead ||| iwbfSegFlagWrite ||| iwbfSegFlagExec) ≠ 0
  known_flags : seg.flags &&& ~~~(iwbfSegFlagRead ||| iwbfSegFlagWrite ||| iwbfSegFlagExec) = 0

instance (hdr : Iwbf32Hdr) : Decidable hdr.Valid :=
  decidable_of_iff (hdr.magic = iwbfHdrMagic ∧ hdr.type = iwbfHdrTypeExec ∧
    hdr.arch = iwbfHdrArchI386 ∧ hdr.segmentCount ≠ 0)
    ⟨fun ⟨a, b, c, d⟩ => ⟨a, b, c, d⟩, fun ⟨a, b, c, d⟩ => ⟨a, b, c, d⟩⟩

instance (seg : Iwbf32SegmentHdr) : Decidable seg.Valid :=
  decidable_of_iff (seg.fileSize ≤ seg.memSize ∧
    seg.flags &&& (iwbfSegFlagRead ||| iwbfSegFlagWrite ||| iwbfSegFlagExec) ≠ 0 ∧
    seg.flags &&& ~~~(iwbfSegFlagRead ||| iwbfSegFlagWrite ||| iwbfSegFlagExec) = 0)
    ⟨fun ⟨a, b, c⟩ => ⟨a, b, c⟩, fun ⟨a, b, c⟩ => ⟨a, b, c⟩⟩

/-! ## What an accepting parse reads -/

/-- A header is accepted exactly when it is valid and holds what was read. -/
theorem iwbfParseHdr_ok_iff {mem : ByteMemory} {buf size : ℕ} {out hdr : Iwbf32Hdr} :
    iwbfParseHdr mem buf size out = (.ok (), hdr) ↔
      iwbf32HdrSize ≤ size ∧ hdr.Valid ∧ readLe32 mem buf = hdr.magic ∧
        readLe16 mem (buf + 4) = hdr.type ∧ readLe16 mem (buf + 6) = hdr.arch ∧
        readLe32 mem (buf + 8) = hdr.entry ∧
        (readLe16 mem (buf + 12)).toUInt32 = hdr.segmentCount := by
  constructor
  · intro parsed
    simp only [iwbfParseHdr] at parsed
    split_ifs at parsed with short magic type arch segments
    all_goals cases parsed
    exact ⟨by omega, ⟨not_not.mp magic, not_not.mp type, not_not.mp arch, segments⟩,
      rfl, rfl, rfl, rfl, rfl⟩
  · rintro ⟨long, valid, magic, type, arch, entry, segments⟩
    simp only [iwbfParseHdr]
    rw [if_neg (by omega), magic, type, arch, entry, segments, if_neg (not_not.mpr valid.magic),
      if_neg (not_not.mpr valid.type), if_neg (not_not.mpr valid.arch), if_neg valid.segments]

/-- A segment descriptor is accepted exactly when it is valid and holds what was read. -/
theorem iwbfParseSegmentHdr_ok_iff {mem : ByteMemory} {buf size : ℕ}
    {out seg : Iwbf32SegmentHdr} :
    iwbfParseSegmentHdr mem buf size out = (.ok (), seg) ↔
      iwbf32SegmentHdrSize ≤ size ∧ seg.Valid ∧ readLe32 mem buf = seg.vaddr ∧
        readLe32 mem (buf + 4) = seg.fileOff ∧ readLe32 mem (buf + 8) = seg.fileSize ∧
        readLe32 mem (buf + 12) = seg.memSize ∧ readLe32 mem (buf + 16) = seg.flags := by
  constructor
  · intro parsed
    simp only [iwbfParseSegmentHdr] at parsed
    split_ifs at parsed with short sizes some_flag known_flags
    all_goals cases parsed
    exact ⟨by omega, ⟨UInt32.not_lt.mp sizes, some_flag, not_not.mp known_flags⟩,
      rfl, rfl, rfl, rfl, rfl⟩
  · rintro ⟨long, valid, vaddr, fileOff, fileSize, memSize, flags⟩
    simp only [iwbfParseSegmentHdr]
    rw [if_neg (by omega), vaddr, fileOff, fileSize, memSize, flags,
      if_neg (UInt32.not_lt.mpr valid.sizes), if_neg valid.some_flag,
      if_neg (not_not.mpr valid.known_flags)]

/-- A header is parsed from the bytes of the buffer. -/
theorem iwbfParseHdr_congr {mem mem' : ByteMemory} {buf buf' size : ℕ}
    (same : ∀ offset < size, mem' (buf' + offset) = mem (buf + offset)) (out : Iwbf32Hdr) :
    iwbfParseHdr mem' buf' size out = iwbfParseHdr mem buf size out := by
  rw [iwbfParseHdr, iwbfParseHdr]
  split_ifs with short
  · rfl
  · unfold iwbf32HdrSize at short
    have byte (start offset : ℕ) (inside : start + offset < size) :
        mem' (buf' + start + offset) = mem (buf + start + offset) := by
      rw [Nat.add_assoc, Nat.add_assoc]
      exact same (start + offset) inside
    have magic : readLe32 mem' buf' = readLe32 mem buf :=
      readLe32_congr fun offset offset_lt => same offset (by omega)
    rw [magic, readLe16_congr fun offset offset_lt => byte 4 offset (by omega),
      readLe16_congr fun offset offset_lt => byte 6 offset (by omega),
      readLe32_congr fun offset offset_lt => byte 8 offset (by omega),
      readLe16_congr fun offset offset_lt => byte 12 offset (by omega)]

/-- A segment descriptor is parsed from the bytes of the buffer. -/
theorem iwbfParseSegmentHdr_congr {mem mem' : ByteMemory} {buf buf' size : ℕ}
    (same : ∀ offset < size, mem' (buf' + offset) = mem (buf + offset)) (out : Iwbf32SegmentHdr) :
    iwbfParseSegmentHdr mem' buf' size out = iwbfParseSegmentHdr mem buf size out := by
  rw [iwbfParseSegmentHdr, iwbfParseSegmentHdr]
  split_ifs with short
  · rfl
  · unfold iwbf32SegmentHdrSize at short
    have word (start : ℕ) (inside : start + 4 ≤ size) :
        readLe32 mem' (buf' + start) = readLe32 mem (buf + start) := by
      refine readLe32_congr fun offset offset_lt => ?_
      rw [Nat.add_assoc, Nat.add_assoc]
      exact same (start + offset) (by omega)
    have first := word 0 (by omega)
    rw [Nat.add_zero, Nat.add_zero] at first
    rw [first, word 4 (by omega), word 8 (by omega), word 12 (by omega), word 16 (by omega)]

private theorem hdr_holds_iff {mem : ByteMemory} {buf : ℕ} {hdr : Iwbf32Hdr} :
    Holds mem buf hdr.encode ↔ readLe32 mem buf = hdr.magic ∧ readLe16 mem (buf + 4) = hdr.type ∧
      readLe16 mem (buf + 6) = hdr.arch ∧ readLe32 mem (buf + 8) = hdr.entry ∧
      readLe32 mem (buf + 12) = hdr.segmentCount := by
  simp only [Iwbf32Hdr.encode, holds_append, holds_le16_iff, holds_le32_iff,
    show (le32 hdr.magic).length = 4 from rfl, show (le16 hdr.type).length = 2 from rfl,
    show (le16 hdr.arch).length = 2 from rfl, show (le32 hdr.entry).length = 4 from rfl,
    Nat.add_assoc, Nat.reduceAdd]

theorem segment_holds_iff {mem : ByteMemory} {buf : ℕ} {seg : Iwbf32SegmentHdr} :
    Holds mem buf seg.encode ↔ readLe32 mem buf = seg.vaddr ∧
      readLe32 mem (buf + 4) = seg.fileOff ∧ readLe32 mem (buf + 8) = seg.fileSize ∧
      readLe32 mem (buf + 12) = seg.memSize ∧ readLe32 mem (buf + 16) = seg.flags := by
  simp only [Iwbf32SegmentHdr.encode, holds_append, holds_le32_iff,
    show (le32 seg.vaddr).length = 4 from rfl, show (le32 seg.fileOff).length = 4 from rfl,
    show (le32 seg.fileSize).length = 4 from rfl, show (le32 seg.memSize).length = 4 from rfl,
    Nat.add_assoc, Nat.reduceAdd]

/-! ## Decoding undoes encoding -/

/-- The 16-bit read of a 32-bit field is the field exactly when its upper two bytes are zero. -/
theorem readLe16_eq_readLe32_iff {mem : ByteMemory} {buf : ℕ} :
    (readLe16 mem buf).toUInt32 = readLe32 mem buf ↔ mem (buf + 2) = 0 ∧ mem (buf + 3) = 0 := by
  have third := (mem (buf + 2)).toNat_lt
  have fourth := (mem (buf + 3)).toNat_lt
  rw [← UInt32.toNat_inj, UInt16.toNat_toUInt32, readLe16_toNat, readLe32_toNat,
    ← UInt8.toNat_inj, ← UInt8.toNat_inj, ByteMemory.read32, UInt8.toNat_zero]
  omega

/-- The upper two bytes of an encoded segment count are zero exactly below `2 ^ 16`. -/
private theorem segmentCount_small_iff {mem : ByteMemory} {buf : ℕ} :
    (mem (buf + 2) = 0 ∧ mem (buf + 3) = 0) ↔ (readLe32 mem buf).toNat < 2 ^ 16 := by
  have first := (mem buf).toNat_lt
  have second := (mem (buf + 1)).toNat_lt
  rw [readLe32_toNat, ByteMemory.read32, ← UInt8.toNat_inj, ← UInt8.toNat_inj, UInt8.toNat_zero]
  omega

/-- Decoding undoes encoding for every segment descriptor, and for exactly the headers whose
segment count fits in the 16 bits that `iwbf_parse_hdr` reads; conversely every accepted segment
descriptor re-encodes to its own bytes, and exactly the accepted headers with a zero upper half of
the segment count do. -/
theorem iwbfParse_encode_iff (mem : ByteMemory) (buf size : ℕ) :
    (∀ out hdr : Iwbf32Hdr, hdr.Valid →
      iwbf32HdrSize ≤ size → Holds mem buf hdr.encode →
      (iwbfParseHdr mem buf size out = (.ok (), hdr) ↔ hdr.segmentCount.toNat < 2 ^ 16)) ∧
    (∀ out hdr : Iwbf32Hdr,
      iwbfParseHdr mem buf size out = (.ok (), hdr) →
      (Holds mem buf hdr.encode ↔ (readLe32 mem (buf + 12)).toNat < 2 ^ 16)) ∧
    (∀ out seg : Iwbf32SegmentHdr, seg.Valid →
      iwbf32SegmentHdrSize ≤ size → Holds mem buf seg.encode →
      iwbfParseSegmentHdr mem buf size out = (.ok (), seg)) ∧
    (∀ out seg : Iwbf32SegmentHdr,
      iwbfParseSegmentHdr mem buf size out = (.ok (), seg) → Holds mem buf seg.encode) := by
  refine ⟨fun out hdr valid long held => ?_, fun out hdr parsed => ?_,
    fun out seg valid long held => ?_, fun out seg parsed => ?_⟩
  · obtain ⟨magic, type, arch, entry, segments⟩ := hdr_holds_iff.mp held
    rw [iwbfParseHdr_ok_iff, ← segments, ← segmentCount_small_iff, ← readLe16_eq_readLe32_iff]
    exact ⟨fun accepted => accepted.2.2.2.2.2.2,
      fun same => ⟨long, valid, magic, type, arch, entry, same⟩⟩
  · obtain ⟨long, valid, magic, type, arch, entry, segments⟩ := iwbfParseHdr_ok_iff.mp parsed
    rw [hdr_holds_iff, ← segmentCount_small_iff, ← readLe16_eq_readLe32_iff, segments]
    exact ⟨fun held => held.2.2.2.2.symm, fun same => ⟨magic, type, arch, entry, same.symm⟩⟩
  · exact iwbfParseSegmentHdr_ok_iff.mpr ⟨long, valid, segment_holds_iff.mp held⟩
  · exact segment_holds_iff.mpr (iwbfParseSegmentHdr_ok_iff.mp parsed).2.2

/-- A memory that holds the listed bytes from address 0 on. -/
def bytesAtZero (bytes : List UInt8) : ByteMemory := fun address => bytes.getD address 0

theorem holds_bytesAtZero (bytes : List UInt8) : Holds (bytesAtZero bytes) 0 bytes := by
  intro index inside
  simp only [Nat.zero_add, bytesAtZero, List.getD_eq_getElem?_getD, List.getElem?_eq_getElem inside,
    Option.getD_some]

/-- The header that `user/system.asm` writes. -/
def systemHdr : Iwbf32Hdr :=
  { magic := iwbfHdrMagic
    type := iwbfHdrTypeExec
    arch := iwbfHdrArchI386
    entry := 0x00400000
    segmentCount := 1 }

/-- The segment descriptor that `user/system.asm` writes. -/
def systemSegmentHdr : Iwbf32SegmentHdr :=
  { vaddr := 0x00400000
    fileOff := 36
    fileSize := 2
    memSize := 4096
    flags := 5 }

theorem iwbfParse_encode_iff_system :
    iwbfParseHdr (bytesAtZero systemHdr.encode) 0 16 default = (.ok (), systemHdr) ∧
      iwbfParseSegmentHdr (bytesAtZero systemSegmentHdr.encode) 0 20 default =
        (.ok (), systemSegmentHdr) := by
  obtain ⟨header, -, -, -⟩ := iwbfParse_encode_iff (bytesAtZero systemHdr.encode) 0 16
  obtain ⟨-, -, segment, -⟩ := iwbfParse_encode_iff (bytesAtZero systemSegmentHdr.encode) 0 20
  exact ⟨(header default systemHdr (by decide) (by decide) (holds_bytesAtZero _)).mpr (by decide),
    segment default systemSegmentHdr (by decide) (by decide) (holds_bytesAtZero _)⟩

/-- A header with `0x10001` segments is accepted with one segment. -/
theorem iwbfParseHdr_truncates_segmentCount :
    { systemHdr with segmentCount := 0x10001 }.Valid ∧
      iwbfParseHdr (bytesAtZero { systemHdr with segmentCount := 0x10001 }.encode) 0 16 default =
        (.ok (), systemHdr) ∧
      systemHdr ≠ { systemHdr with segmentCount := 0x10001 } := by
  refine ⟨by decide, ?_, by decide⟩
  rfl

end ItWorksOS
