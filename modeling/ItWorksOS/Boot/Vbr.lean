import ItWorksOS.Boot.DiskRead
import ItWorksOS.Foundation.Word32
import ItWorksOS.Klib.Endian
import ItWorksOS.Tools.Mkimage.Fat32

/-!
# The volume boot record

The master boot record loads `fat32_vbr.asm` to `0x0500`. It looks for `/boot/stage2.bin` in the
first clusters of the two directories and loads the chain of the file to `0x0700`. The segments are
zero. The code and the variables of the sector are not memory of the model.
-/

namespace ItWorksOS

/-- `CLUSTER_LOAD_OFF`. -/
def clusterLoadOff : ℕ := 0x0700

/-- `FAT_SEC_LOAD_OFF`. -/
def fatSecLoadOff : ℕ := 0x7E00

/-- `boot_dir`. -/
def bootDir : List UInt8 := [66, 79, 79, 84, 32, 32, 32, 32, 32, 32, 32]

/-- `stage2_file`. -/
def stage2File : List UInt8 := [83, 84, 65, 71, 69, 50, 32, 32, 66, 73, 78]

/-- The fields of `bpb.asm` and `ebpb.asm` in a boot sector. -/
def Vbr.read (mem : ByteMemory) (sector : ℕ) : Vbr where
  bytesPerSector := (readLe16 mem (sector + 11)).toNat
  sectorsPerCluster := (mem (sector + 13)).toNat
  reservedSectors := (readLe16 mem (sector + 14)).toNat
  fatCount := (mem (sector + 16)).toNat
  mediaDescriptor := (mem (sector + 21)).toNat
  hiddenSectors := (readLe32 mem (sector + 28)).toNat
  totalSectors32 := (readLe32 mem (sector + 32)).toNat
  fatSize32 := (readLe32 mem (sector + 36)).toNat
  rootCluster := (readLe32 mem (sector + 44)).toNat
  bytesPerSector_lt := UInt16.toNat_lt _
  sectorsPerCluster_lt := UInt8.toNat_lt _
  reservedSectors_lt := UInt16.toNat_lt _
  fatCount_lt := UInt8.toNat_lt _
  mediaDescriptor_lt := UInt8.toNat_lt _
  hiddenSectors_lt := UInt32.toNat_lt _
  totalSectors32_lt := UInt32.toNat_lt _
  fatSize32_lt := UInt32.toNat_lt _
  rootCluster_lt := UInt32.toNat_lt _

/-- The variables of the sector, and its parameter block. -/
structure VbrContext where
  bootDrive : ℕ
  mbrBootPartitionPtr : ℕ
  fatStartSector : ℕ
  dataStartSector : ℕ
  vbr : Vbr

/-- The first instructions of `boot_code`, for `DL` and `SI`. -/
def vbrInit (dl si : ℕ) (vbr : Vbr) : VbrContext :=
  let fatStartSector := Word32.add vbr.hiddenSectors vbr.reservedSectors
  { bootDrive := dl
    mbrBootPartitionPtr := si
    fatStartSector := fatStartSector
    dataStartSector := Word32.add fatStartSector (Word32.mul vbr.fatCount vbr.fatSize32)
    vbr := vbr }

/-- How `boot_code` ends: in `.halt`, or at the code of Stage2 with `DL`, `SI` and `DI`. -/
inductive VbrExit where
  | halt
  | stage2 (dl si di : ℕ) (mem : ByteMemory)

section

variable (bios : BiosDisk) (ctx : VbrContext)

/-- `cluster_to_sector`. -/
def clusterToSector (cluster : ℕ) : ℕ :=
  Word32.add (Word32.mul (Word32.sub cluster 2) ctx.vbr.sectorsPerCluster) ctx.dataStartSector

/-- `load_cluster`, with the carry flag of its result. -/
def loadCluster (cluster loadPtr : ℕ) (mem : ByteMemory) : Bool × ByteMemory :=
  diskReadLba bios ctx.bootDrive (clusterToSector ctx cluster) ctx.vbr.sectorsPerCluster 0 loadPtr
    mem

/-- `.loop_through_entries` of `find_entry`, for the entries left from `SI` on. -/
def loopThroughEntries (name : List UInt8) (mem : ByteMemory) : ℕ → ℕ → Option ℕ
  | 0, _ => none
  | left + 1, si =>
      if mem si = 0x00 then none
      else if (List.range 11).map (fun i => mem ((si + i) % 2 ^ 16)) = name then some si
      else loopThroughEntries name mem left ((si + 32) % 2 ^ 16)

/-- `find_entry`: the address of the entry, or `none` if the carry flag is set. The counter has 16
bits, and is decremented before it is tested. -/
def findEntry (name : List UInt8) (mem : ByteMemory) : Option ℕ :=
  let cx := ctx.vbr.sectorsPerCluster * 16
  loopThroughEntries name mem (if cx = 0 then 2 ^ 16 else cx) clusterLoadOff

/-- First cluster of the entry at an address. -/
def entryCluster (si : ℕ) (mem : ByteMemory) : ℕ :=
  (readLe16 mem (si + 0x14)).toNat * 2 ^ 16 + (readLe16 mem (si + 0x1A)).toNat

/-- `get_next_cluster`: the carry flag and the next cluster. -/
def getNextCluster (cluster : ℕ) (mem : ByteMemory) : Bool × ℕ × ByteMemory :=
  match diskReadLba bios ctx.bootDrive (Word32.add (cluster / 128) ctx.fatStartSector) 1 0
      fatSecLoadOff mem with
  | (true, mem) => (true, 0, mem)
  | (false, mem) => (false, mem.read32 (fatSecLoadOff + cluster % 128 * 4), mem)

/-- The load address after a cluster: twice the number of its sectors is added to the high byte. -/
def nextLoadPtr (loadPtr : ℕ) : ℕ :=
  let bl := ctx.vbr.sectorsPerCluster * 2 % 2 ^ 8
  loadPtr % 2 ^ 8 + (loadPtr / 2 ^ 8 + bl) % 2 ^ 8 * 2 ^ 8

/-- `.load_stage2_loop`. -/
def loadStage2Loop : ℕ → ℕ → ℕ → ByteMemory → Option VbrExit
  | 0, _, _, _ => none
  | fuel + 1, cluster, loadPtr, mem =>
      match loadCluster bios ctx cluster loadPtr mem with
      | (true, _) => some .halt
      | (false, mem) =>
          match getNextCluster bios ctx cluster mem with
          | (true, _, _) => some .halt
          | (false, next, mem) =>
              if next < 0x0FFFFFF8 then loadStage2Loop fuel next (nextLoadPtr ctx loadPtr) mem
              else some (.stage2 ctx.bootDrive ctx.mbrBootPartitionPtr 0x0500 mem)

/-- `boot_code` from the load of the root directory on. -/
def bootCodeLoad (fuel : ℕ) (mem : ByteMemory) : Option VbrExit :=
  match loadCluster bios ctx ctx.vbr.rootCluster clusterLoadOff mem with
  | (true, _) => some .halt
  | (false, mem) =>
      match findEntry ctx bootDir mem with
      | none => some .halt
      | some si =>
          match loadCluster bios ctx (entryCluster si mem) clusterLoadOff mem with
          | (true, _) => some .halt
          | (false, mem) =>
              match findEntry ctx stage2File mem with
              | none => some .halt
              | some si => loadStage2Loop bios ctx fuel (entryCluster si mem) clusterLoadOff mem

end

/-- `boot_code`, for `DL` and `SI`. -/
def bootCode (bios : BiosDisk) (fuel dl si : ℕ) (mem : ByteMemory) : Option VbrExit :=
  bootCodeLoad bios (vbrInit dl si (Vbr.read mem 0x0500)) fuel mem

end ItWorksOS
