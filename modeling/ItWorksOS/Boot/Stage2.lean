import ItWorksOS.Boot.DiskRead
import ItWorksOS.Foundation.Word32
import ItWorksOS.Klib.Endian
import ItWorksOS.Tools.Mkimage.Fat32

/-!
# The FAT32 reader of Stage2

`stage2.asm` in real mode. Registers are 16 and 32 bits wide; the segments `DS` and `SS` are zero,
so that an offset in them is an address. Loops over the table take fuel.
-/

namespace ItWorksOS

/-- `stage2_context`: the drive, the parameters of the volume and the values computed from them. -/
structure Stage2Context where
  bootDrive : ℕ
  sectorsPerCluster : ℕ
  rootCluster : ℕ
  fatStartLba : ℕ
  dataStartLba : ℕ
  bytesPerCluster : ℕ

/-- `stage2_init`, for the parameter block of the VBR. -/
def stage2Init (bootDrive : ℕ) (vbr : Vbr) : Stage2Context :=
  let fatStartLba := Word32.add vbr.hiddenSectors vbr.reservedSectors
  { bootDrive := bootDrive
    sectorsPerCluster := vbr.sectorsPerCluster
    rootCluster := vbr.rootCluster
    fatStartLba := fatStartLba
    dataStartLba := Word32.add fatStartLba (Word32.mul vbr.fatSize32 vbr.fatCount)
    bytesPerCluster := Word32.mul vbr.bytesPerSector vbr.sectorsPerCluster }

/-- The machine that Stage2 runs on: the BIOS, and the address of `buf_fat`, which `buf_dir` follows
in the first 64 KiB. -/
structure Stage2Machine where
  bios : BiosDisk
  bufFat : ℕ
  fits : bufFat + 1024 ≤ 2 ^ 16

/-- `buf_dir`. -/
def Stage2Machine.bufDir (machine : Stage2Machine) : ℕ := machine.bufFat + 512

section

variable (machine : Stage2Machine) (ctx : Stage2Context)

/-- `fat32_cluster_to_lba`. -/
def fat32ClusterToLba (cluster : ℕ) : ℕ :=
  Word32.add (Word32.mul (Word32.sub cluster 2) ctx.sectorsPerCluster) ctx.dataStartLba

/-- `stage2_read_cluster`. -/
def stage2ReadCluster (cluster es si : ℕ) (mem : ByteMemory) : Bool × ByteMemory :=
  diskReadLba machine.bios ctx.bootDrive (fat32ClusterToLba ctx cluster) ctx.sectorsPerCluster es si
    mem

/-- `fat32_read_fat_entry`: the carry flag and the next cluster. -/
def fat32ReadFatEntry (cluster : ℕ) (mem : ByteMemory) : Bool × ℕ × ByteMemory :=
  match diskReadLba machine.bios ctx.bootDrive (Word32.add (cluster / 128) ctx.fatStartLba) 1 0
      machine.bufFat mem with
  | (true, mem) => (true, 0, mem)
  | (false, mem) =>
      (false, mem.read32 (machine.bufFat + cluster % 128 * 4) &&& 0x0FFFFFFF, mem)

/-- Where the scan of a sector of a directory ends. -/
inductive DirScan where
  | found (bx : ℕ)
  | notFound
  | next
  deriving DecidableEq

/-- `.entry_loop` of `fat32_find_entry`, for the entries left from `BX` on. -/
def fat32EntryLoop (name : List UInt8) (mem : ByteMemory) : ℕ → ℕ → DirScan
  | 0, _ => .next
  | left + 1, bx =>
      if mem bx = 0x00 then .notFound
      else if mem bx = 0xE5 then fat32EntryLoop name mem left (bx + 32)
      else if mem (bx + 0x0B) = 0x0F then fat32EntryLoop name mem left (bx + 32)
      else if mem (bx + 0x0B) &&& 0x08 ≠ 0 then fat32EntryLoop name mem left (bx + 32)
      else if (List.range 11).map (fun i => mem (bx + i)) = name then .found bx
      else fat32EntryLoop name mem left (bx + 32)

/-- `.sector_loop` of `fat32_find_entry`, for the sectors left from an LBA on. -/
def fat32SectorLoop (name : List UInt8) : ℕ → ℕ → ByteMemory → DirScan × ByteMemory
  | 0, _, mem => (.next, mem)
  | left + 1, lba, mem =>
      match diskReadLba machine.bios ctx.bootDrive lba 1 0 machine.bufDir mem with
      | (true, mem) => (.notFound, mem)
      | (false, mem) =>
          match fat32EntryLoop name mem 16 machine.bufDir with
          | .next => fat32SectorLoop name left (Word32.add lba 1) mem
          | scan => (scan, mem)

/-- `fat32_find_entry`: the offset of the entry in `buf_dir`, or `none` if the carry flag is set.
The counter of the sectors is a byte, which is decremented before it is tested. -/
def fat32FindEntry (name : List UInt8) : ℕ → ℕ → ByteMemory → Option (Option ℕ × ByteMemory)
  | 0, _, _ => none
  | fuel + 1, cluster, mem =>
      let sectors := if ctx.sectorsPerCluster = 0 then 256 else ctx.sectorsPerCluster
      match fat32SectorLoop machine ctx name sectors (fat32ClusterToLba ctx cluster) mem with
      | (.found bx, mem) => some (some (bx - machine.bufDir), mem)
      | (.notFound, mem) => some (none, mem)
      | (.next, mem) =>
          match fat32ReadFatEntry machine ctx cluster mem with
          | (true, _, mem) => some (none, mem)
          | (false, next, mem) =>
              if 0x0FFFFFF7 ≤ next then some (none, mem) else fat32FindEntry name fuel next mem

/-- The result of `fat32_load_file`: the carry flag, `ES:SI` and the memory. -/
structure Stage2Load where
  carry : Bool
  es : ℕ
  si : ℕ
  mem : ByteMemory

/-- `fat32_load_file`. -/
def fat32LoadFile : ℕ → ℕ → ℕ → ℕ → ByteMemory → Option Stage2Load
  | 0, _, _, _, _ => none
  | fuel + 1, cluster, es, si, mem =>
      match stage2ReadCluster machine ctx cluster es si mem with
      | (true, mem) => some ⟨true, es, si, mem⟩
      | (false, mem) =>
          let ax := ctx.bytesPerCluster % 2 ^ 16
          let es := if 2 ^ 16 ≤ si + ax then (es + 0x1000) % 2 ^ 16 else es
          let si := (si + ax) % 2 ^ 16
          match fat32ReadFatEntry machine ctx cluster mem with
          | (true, _, mem) => some ⟨true, es, si, mem⟩
          | (false, next, mem) =>
              if next = 0x0FFFFFF7 then some ⟨true, es, si, mem⟩
              else if 0x0FFFFFF8 ≤ next then some ⟨false, es, si, mem⟩
              else fat32LoadFile fuel next es si mem

/-- First cluster of the entry at an offset in `buf_dir`, as `stage2_entry` reads it. -/
def stage2EntryCluster (bx : ℕ) (mem : ByteMemory) : ℕ :=
  (readLe16 mem (machine.bufDir + bx + 0x14)).toNat * 2 ^ 16 +
    (readLe16 mem (machine.bufDir + bx + 0x1A)).toNat

/-- File size of the entry at an offset in `buf_dir`. -/
def stage2EntryFileSize (bx : ℕ) (mem : ByteMemory) : ℕ :=
  (readLe32 mem (machine.bufDir + bx + 0x1C)).toNat

/-- The calls of `fat32_find_entry` in `stage2_entry`: resolve a path component by component, in the
directory of the given cluster. -/
def stage2Resolve (fuel : ℕ) : List (List UInt8) → ℕ → ByteMemory → Option (Option ℕ × ByteMemory)
  | [], _, mem => some (none, mem)
  | [name], cluster, mem => fat32FindEntry machine ctx name fuel cluster mem
  | name :: path, cluster, mem =>
      match fat32FindEntry machine ctx name fuel cluster mem with
      | some (some bx, mem) => stage2Resolve fuel path (stage2EntryCluster machine bx mem) mem
      | result => result

end

end ItWorksOS
