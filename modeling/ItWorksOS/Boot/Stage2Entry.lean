import ItWorksOS.Boot.Mbr
import ItWorksOS.Boot.BootInfo
import ItWorksOS.Boot.BootImage

/-!
# The entry point of Stage2

`stage2_entry` checks the parameters that the earlier stages leave in memory, loads the kernel and
the system executable, collects the memory map and the video mode, and jumps to the kernel.
-/

namespace ItWorksOS

/-- The copies in `stage2_context`: fields of the entry of the partition, and of the VBR. -/
structure Stage2Parameters where
  bootIndicator : UInt8
  partitionType : UInt8
  lbaStart : ℕ
  totalSectors16 : ℕ
  vbr : Vbr

/-- What `stage2_init` copies from `SI` and `DI`. -/
def Stage2Parameters.copy (mem : ByteMemory) (si di : ℕ) : Stage2Parameters where
  bootIndicator := mem si
  partitionType := mem (si + 0x04)
  lbaStart := mem.read32 (si + 0x08)
  totalSectors16 := (readLe16 mem (di + 11 + 0x08)).toNat
  vbr := Vbr.read mem di

/-- `stage2_validate`, with the string of the first check that fails. -/
def stage2Validate (parameters : Stage2Parameters) : Option String :=
  if parameters.bootIndicator ≠ 0x80 then some "ERR_BOOT_INDICATOR"
  else if parameters.partitionType ≠ 0x0C then some "ERR_NOT_FAT32_LBA"
  else if parameters.lbaStart ≠ parameters.vbr.hiddenSectors then
    some "ERR_HIDDEN_SECTORS_MISMATCH"
  else if parameters.lbaStart = 0 then some "ERR_INVALID_HIDDEN_SECTORS"
  else if parameters.vbr.bytesPerSector ≠ 512 then some "ERR_INVALID_BYTES_PER_SECTOR"
  else if parameters.vbr.sectorsPerCluster = 0 then some "ERR_INVALID_SECTORS_PER_CLUSTER"
  else if parameters.vbr.fatCount = 0 then some "ERR_INVALID_NUMBER_FATS"
  else if parameters.vbr.rootCluster < 2 then some "ERR_INVALID_ROOT_CLUSTER"
  else if parameters.totalSectors16 ≠ 0 then some "ERR_INVALID_TOTAL_SECTORS_16"
  else if parameters.vbr.totalSectors32 = 0 then some "ERR_INVALID_TOTAL_SECTORS_32"
  else if parameters.vbr.fatSize32 = 0 then some "ERR_INVALID_FAT_SIZE_32"
  else none

/-- What `INT 10h` with `AH = 0Fh` leaves in `AL`, `AH` and `BH`. -/
structure VideoReply where
  al : UInt8
  ah : UInt8
  bh : UInt8

/-- `video_detect_mode`: the bytes of `struct boot_video`, or `none` if the carry flag is set. -/
def videoDetectMode (reply : VideoReply) : Option (List UInt8) :=
  if reply.al = 0x03 then
    some (le32 1 ++ [reply.al, reply.bh, reply.ah, 25] ++ le32 0x000B8000 ++ le32 0)
  else none

/-- The machine of the boot loader, with the other services of its BIOS. The data of Stage2 lie
behind `buf_fat`. -/
structure BootMachine extends Stage2Machine where
  extensions : ℕ → ExtensionsReply
  memoryMap : List E820Reply
  video : VideoReply
  data_fits : bufFat + 2630 ≤ 2 ^ 16

/-- `e820_buffer`, behind both buffers and the descriptors of the GDT. -/
def BootMachine.e820Buffer (machine : BootMachine) : ℕ := machine.bufFat + 1024 + 24 + 6

/-- `e820_count`. -/
def BootMachine.e820Count (machine : BootMachine) : ℕ :=
  machine.e820Buffer + e820MaxEntries * e820EntrySize

/-- `boot_info`. -/
def BootMachine.bootInfo (machine : BootMachine) : ℕ := machine.e820Count + 2

/-- `bin_dir`. -/
def binDir : List UInt8 := [66, 73, 78, 32, 32, 32, 32, 32, 32, 32, 32]

/-- `kernel_file`. -/
def kernelFile : List UInt8 := [75, 69, 82, 78, 69, 76, 32, 32, 66, 73, 78]

/-- `system_file`. -/
def systemFile : List UInt8 := [83, 89, 83, 84, 69, 77, 32, 32, 66, 73, 78]

/-- `KERNEL_LOAD_ADDR`. -/
def kernelLoadAddr : ℕ := 0x10000

/-- `SYSTEM_LOAD_SEG`. -/
def systemLoadSeg : ℕ := 0x7000

/-- `BOOT_MAGIC`. -/
def bootMagic : ℕ := 0x54425749

/-- How `stage2_entry` ends: in `stage2_error`, or at `KERNEL_LOAD_ADDR` with `EAX` and `EBX`, which
points to the boot information. -/
inductive Stage2Exit where
  | error (message : String)
  | kernel (eax ebx : ℕ) (mem : ByteMemory)

/-- `stage2_error`. -/
def stage2Error (message : String) : Stage2Exit := .error ("Boot failed (Stage2): " ++ message)

/-- One half of the loads of `stage2_entry`: the size in the entry and the memory, or an inner
`none` if a carry flag is set. -/
def stage2LoadPath (machine : Stage2Machine) (ctx : Stage2Context) (fuel : ℕ)
    (path : List (List UInt8)) (es : ℕ) (mem : ByteMemory) : Option (Option (ℕ × ByteMemory)) :=
  match stage2Resolve machine ctx fuel path ctx.rootCluster mem with
  | none => none
  | some (none, _) => some none
  | some (some bx, mem) =>
      match fat32LoadFile machine ctx fuel (stage2EntryCluster machine bx mem) es 0 mem with
      | none => none
      | some load =>
          if load.carry then some none
          else some (some (stage2EntryFileSize machine bx mem, load.mem))

/-- The rest of `stage2_entry`, for the size of the system executable. -/
def stage2HandOver (machine : BootMachine) (size : ℕ) (mem : ByteMemory) : Option Stage2Exit :=
  let mem := mem.store (machine.bootInfo + 26)
    (le32 (UInt32.ofNat systemLoadAddr) ++ le32 0 ++ le32 (UInt32.ofNat size))
  match e820GetMemoryMap 0 machine.e820Buffer machine.memoryMap ⟨mem, []⟩ with
  | none => none
  | some out =>
      if out.carry then some (stage2Error "ERR_E820_MEMORY_MAP")
      else
        let mem := out.mem.bytes.store machine.e820Count (le16 (UInt16.ofNat out.cx))
        -- `stage2_boot_info_init`
        let mem := mem.store machine.bootInfo (le16 (UInt16.ofNat out.cx) ++
          (le32 (UInt32.ofNat machine.e820Buffer) ++ le32 0))
        match videoDetectMode machine.video with
        | none => some (stage2Error "ERR_VIDEO_MODE_NOT_SUP")
        | some video =>
            some (.kernel bootMagic machine.bootInfo (mem.store (machine.bootInfo + 10) video))

/-- `stage2_entry`, for `DL`, `SI` and `DI`. -/
def stage2Entry (machine : BootMachine) (fuel dl si di : ℕ) (mem : ByteMemory) :
    Option Stage2Exit :=
  let parameters := Stage2Parameters.copy mem si di
  let ctx := stage2Init dl parameters.vbr
  match stage2Validate parameters with
  | some message => some (stage2Error message)
  | none =>
      match stage2LoadPath machine.toStage2Machine ctx fuel [bootDir, kernelFile] kernelLoadSeg
          mem with
      | none => none
      | some none => some (stage2Error "ERR_DISK_READ")
      | some (some (_, mem)) =>
          match stage2LoadPath machine.toStage2Machine ctx fuel [binDir, systemFile] systemLoadSeg
              mem with
          | none => none
          | some none => some (stage2Error "ERR_DISK_READ")
          | some (some (size, mem)) => stage2HandOver machine size mem

/-- How the boot loader ends. -/
inductive BootExit where
  | mbr (message : String)
  | vbr
  | stage2 (exit : Stage2Exit)

/-- The boot loader, from the first sector in memory to the kernel. -/
def bootLoader (machine : BootMachine) (fuel dl : ℕ) (mem : ByteMemory) : Option BootExit :=
  match mbrStage machine.bios machine.extensions dl mem with
  | .halt message => some (.mbr message)
  | .vbr dl si mem =>
      match bootCode machine.bios fuel dl si mem with
      | none => none
      | some .halt => some .vbr
      | some (.stage2 dl si di mem) => (stage2Entry machine fuel dl si di mem).map .stage2

/-! ## Buffers -/

/-- A disk read writes at most the buffer of the packet. -/
def BiosDisk.Confined (bios : BiosDisk) : Prop :=
  ∀ drive packet mem address, packet.offset + 512 * packet.sectors ≤ 2 ^ 16 →
    (address < packet.segment * 16 + packet.offset ∨
      packet.segment * 16 + packet.offset + 512 * packet.sectors ≤ address) →
    (bios drive packet mem).mem address = mem address

theorem extendedRead_confined (disk : ByteMemory) (total : ℕ) :
    (extendedRead disk total).Confined := by
  intro drive packet mem address _ outside
  rw [extendedRead]
  split_ifs with inside
  · simp only [ByteMemory.blit_of_outside outside]
  · rfl

section

variable {machine : Stage2Machine} {ctx : Stage2Context} {mem mem' : ByteMemory} {address : ℕ}
  {name : List UInt8}

/-- The addresses outside `buf_fat` and `buf_dir`. -/
def Stage2Machine.Unbuffered (machine : Stage2Machine) (address : ℕ) : Prop :=
  address < machine.bufFat ∨ machine.bufFat + 1024 ≤ address

theorem diskReadLba_unbuffered (confined : machine.bios.Confined) {drive lba buffer : ℕ}
    (above : machine.bufFat ≤ buffer) (below : buffer + 512 ≤ machine.bufFat + 1024)
    (outside : machine.Unbuffered address) :
    (diskReadLba machine.bios drive lba 1 0 buffer mem).2 address = mem address := by
  have fits := machine.fits
  unfold Stage2Machine.Unbuffered at outside
  have kept := confined drive ⟨1, buffer, 0, lba⟩ mem address (show buffer + 512 * 1 ≤ _ by omega)
    (show address < 0 * 16 + buffer ∨ 0 * 16 + buffer + 512 * 1 ≤ address by omega)
  simp only [diskReadLba]
  split_ifs <;> exact kept

theorem fat32ReadFatEntry_unbuffered (confined : machine.bios.Confined) (cluster : ℕ)
    (outside : machine.Unbuffered address) :
    (fat32ReadFatEntry machine ctx cluster mem).2.2 address = mem address := by
  have kept := @diskReadLba_unbuffered machine mem address confined ctx.bootDrive
    (Word32.add (cluster / 128) ctx.fatStartLba) machine.bufFat le_rfl (by omega) outside
  rw [fat32ReadFatEntry]
  generalize diskReadLba machine.bios ctx.bootDrive _ 1 0 machine.bufFat mem = read at kept ⊢
  obtain ⟨carry, after⟩ := read
  cases carry <;> exact kept

theorem fat32SectorLoop_unbuffered (confined : machine.bios.Confined) (left lba : ℕ)
    (outside : machine.Unbuffered address) (mem : ByteMemory) :
    (fat32SectorLoop machine ctx name left lba mem).2 address = mem address := by
  induction left generalizing lba mem with
  | zero => rfl
  | succ left induction =>
      have kept := @diskReadLba_unbuffered machine mem address confined ctx.bootDrive lba
        machine.bufDir (Nat.le_add_right ..) (by rw [Stage2Machine.bufDir]) outside
      rw [fat32SectorLoop]
      generalize diskReadLba machine.bios ctx.bootDrive lba 1 0 machine.bufDir mem = read at kept ⊢
      obtain ⟨carry, after⟩ := read
      cases carry with
      | true => exact kept
      | false =>
          simp only
          cases fat32EntryLoop name after 16 machine.bufDir with
          | next => exact (induction _ after).trans kept
          | found => exact kept
          | notFound => exact kept

/-- `fat32_find_entry` writes only to its buffers. -/
theorem fat32FindEntry_unbuffered (confined : machine.bios.Confined) {fuel cluster : ℕ}
    {found : Option ℕ}
    (ran : fat32FindEntry machine ctx name fuel cluster mem = some (found, mem'))
    (outside : machine.Unbuffered address) : mem' address = mem address := by
  induction fuel generalizing cluster mem with
  | zero => cases ran
  | succ fuel induction =>
      rw [fat32FindEntry] at ran
      have kept := @fat32SectorLoop_unbuffered machine ctx address name confined
        (if ctx.sectorsPerCluster = 0 then 256 else ctx.sectorsPerCluster)
        (fat32ClusterToLba ctx cluster) outside mem
      generalize fat32SectorLoop machine ctx name _ _ mem = scan at kept ran
      obtain ⟨end_of_scan, scanned⟩ := scan
      cases end_of_scan with
      | found bx =>
          cases ran
          exact kept
      | notFound =>
          cases ran
          exact kept
      | next =>
          have table := @fat32ReadFatEntry_unbuffered machine ctx scanned address confined cluster
            outside
          simp only at ran
          generalize fat32ReadFatEntry machine ctx cluster scanned = entry at table ran
          obtain ⟨carry, next, read⟩ := entry
          cases carry with
          | true =>
              cases ran
              exact table.trans kept
          | false =>
              simp only at ran
              split_ifs at ran with ended
              · cases ran
                exact table.trans kept
              · exact (induction ran).trans (table.trans kept)

/-- Resolving a path writes only to the buffers. -/
theorem stage2Resolve_unbuffered (confined : machine.bios.Confined) {fuel cluster : ℕ}
    {path : List (List UInt8)} {found : Option ℕ}
    (ran : stage2Resolve machine ctx fuel path cluster mem = some (found, mem'))
    (outside : machine.Unbuffered address) : mem' address = mem address := by
  induction path generalizing cluster mem with
  | nil =>
      cases ran
      rfl
  | cons first path induction =>
      cases path with
      | nil => exact fat32FindEntry_unbuffered confined ran outside
      | cons second path =>
          rw [stage2Resolve] at ran
          · obtain missing | ⟨⟨entry, scanned⟩, step⟩ := Option.eq_none_or_eq_some
              (fat32FindEntry machine ctx first fuel cluster mem)
            · rw [missing] at ran
              cases ran
            · rw [step] at ran
              have kept := fat32FindEntry_unbuffered confined step outside
              cases entry with
              | none =>
                  cases ran
                  exact kept
              | some bx => exact (induction ran).trans kept
          · exact List.cons_ne_nil second path

end

end ItWorksOS
