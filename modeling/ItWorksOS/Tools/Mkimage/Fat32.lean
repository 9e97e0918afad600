import ItWorksOS.Klib.Endian
import ItWorksOS.Tools.Mkimage.Names

/-!
# The FAT32 writer of `tools/mkimage/fat32.c`

Clusters are handed out in ascending order. The first cluster of every node is allocated in one pass
over the tree, and the rest of each file while it is written in a second pass.
-/

namespace ItWorksOS

/-- `FAT_FREE`. -/
def fatFree : ℕ := 0

/-- `FAT_EOF`. -/
def fatEof : ℕ := 0x0FFFFFFF

/-- The BPB fields of `fat32_vbr_t` that `fat32.c` and Stage2 use, within their types. -/
structure Vbr where
  bytesPerSector : ℕ
  sectorsPerCluster : ℕ
  reservedSectors : ℕ
  fatCount : ℕ
  mediaDescriptor : ℕ
  hiddenSectors : ℕ
  totalSectors32 : ℕ
  fatSize32 : ℕ
  rootCluster : ℕ
  bytesPerSector_lt : bytesPerSector < 2 ^ 16
  sectorsPerCluster_lt : sectorsPerCluster < 2 ^ 8
  reservedSectors_lt : reservedSectors < 2 ^ 16
  fatCount_lt : fatCount < 2 ^ 8
  mediaDescriptor_lt : mediaDescriptor < 2 ^ 8
  hiddenSectors_lt : hiddenSectors < 2 ^ 32
  totalSectors32_lt : totalSectors32 < 2 ^ 32
  fatSize32_lt : fatSize32 < 2 ^ 32
  rootCluster_lt : rootCluster < 2 ^ 32

/-- The parameter block of `bpb.asm` and `ebpb.asm`. -/
def systemVbr : Vbr where
  bytesPerSector := 512
  sectorsPerCluster := 1
  reservedSectors := 32
  fatCount := 2
  mediaDescriptor := 0xF8
  hiddenSectors := 2048
  totalSectors32 := 0x00020000
  fatSize32 := 1024
  rootCluster := 2
  bytesPerSector_lt := by decide
  sectorsPerCluster_lt := by decide
  reservedSectors_lt := by decide
  fatCount_lt := by decide
  mediaDescriptor_lt := by decide
  hiddenSectors_lt := by decide
  totalSectors32_lt := by decide
  fatSize32_lt := by decide
  rootCluster_lt := by decide

/-- The changing part of `ctx_t`, with a record of its calls. -/
structure Fat32Ctx where
  /-- The image file. -/
  image : ByteMemory
  /-- The file allocation table. -/
  fat : ℕ → ℕ
  /-- `next_free_cluster`. -/
  nextFreeCluster : ℕ
  /-- Results of the `fat32_cluster_alloc` calls so far. -/
  allocs : List ℕ
  /-- Clusters passed to `fat32_write_cluster` so far. -/
  writes : List ℕ

variable (vbr : Vbr)

/-- `fat32_cluster_size`. -/
def fat32ClusterSize : ℕ := vbr.bytesPerSector * vbr.sectorsPerCluster

/-- `fat32_data_offset`. -/
def fat32DataOffset (partitionOffset : ℕ) : ℕ :=
  partitionOffset + (vbr.reservedSectors + vbr.fatCount * vbr.fatSize32) * vbr.bytesPerSector

/-- The number of FAT entries, in 32-bit arithmetic. -/
def fat32Entries : ℕ := vbr.fatSize32 * vbr.bytesPerSector % 2 ^ 32 / 4

/-- `fat32_table_init`, for an image. -/
def fat32TableInit (image : ByteMemory) : Fat32Ctx where
  image := image
  fat :=
    let fat : ℕ → ℕ := fun _ => 0
    let fat := Function.update fat 0 (0xFFFFFF00 ||| vbr.mediaDescriptor)
    let fat := Function.update fat 1 fatEof
    Function.update fat vbr.rootCluster fatEof
  nextFreeCluster := (vbr.rootCluster + 1) % 2 ^ 32
  allocs := []
  writes := []

/-- The loop of `fat32_cluster_alloc` over `count` entries. -/
def fatFindFree (fat : ℕ → ℕ) : ℕ → ℕ → Option ℕ
  | 0, _ => none
  | count + 1, i => if fat i = fatFree then some i else fatFindFree fat count (i + 1)

/-- `fat32_cluster_alloc`. -/
def fat32ClusterAlloc (ctx : Fat32Ctx) : ℕ × Fat32Ctx :=
  match fatFindFree ctx.fat (fat32Entries vbr - ctx.nextFreeCluster) ctx.nextFreeCluster with
  | some i =>
      (i, { ctx with
        fat := Function.update ctx.fat i fatEof
        nextFreeCluster := i + 1
        allocs := ctx.allocs ++ [i] })
  | none => (0, { ctx with allocs := ctx.allocs ++ [0] })

/-- Offset of a cluster in the image, with `cluster - 2` in 32-bit arithmetic. -/
def fat32ClusterOffset (partitionOffset cluster : ℕ) : ℕ :=
  fat32DataOffset vbr partitionOffset +
    (if cluster < 2 then cluster + 2 ^ 32 - 2 else cluster - 2) * fat32ClusterSize vbr

/-- `fat32_write_cluster`. -/
def fat32WriteCluster (partitionOffset : ℕ) (ctx : Fat32Ctx) (cluster : ℕ) (buffer : ℕ → UInt8) :
    Fat32Ctx where
  image := ctx.image.blit (fat32ClusterOffset vbr partitionOffset cluster) (fat32ClusterSize vbr)
    buffer
  fat := ctx.fat
  nextFreeCluster := ctx.nextFreeCluster
  allocs := ctx.allocs
  writes := ctx.writes ++ [cluster]

/-- The first half of an iteration of `fat32_write_file`: link the cluster to the previous one and
fill it from the unread bytes of the file. -/
def fat32WriteChunk (partitionOffset : ℕ) (ctx : Fat32Ctx) (bytes : List UInt8)
    (cluster previous : ℕ) : Fat32Ctx :=
  fat32WriteCluster vbr partitionOffset
    (if previous ≠ 0 then { ctx with fat := Function.update ctx.fat previous cluster } else ctx)
    cluster fun i => (bytes.take (fat32ClusterSize vbr)).getD i 0

/-- The loop of `fat32_write_file`, with the context and the value of `previous` at its end; there
is none when the loop takes more iterations than the fuel. -/
def fat32WriteFileLoop (partitionOffset : ℕ) :
    ℕ → Fat32Ctx → List UInt8 → ℕ → ℕ → ℕ → Option (Fat32Ctx × ℕ)
  | _, ctx, _, 0, _, previous => some (ctx, previous)
  | 0, _, _, _ + 1, _, _ => none
  | fuel + 1, ctx, bytes, remaining + 1, cluster, previous =>
      let ctx := fat32WriteChunk vbr partitionOffset ctx bytes cluster previous
      let bytes := bytes.drop (fat32ClusterSize vbr)
      let remaining := remaining + 1 -
        (if fat32ClusterSize vbr < remaining + 1 then fat32ClusterSize vbr else remaining + 1)
      if 0 < remaining then
        fat32WriteFileLoop partitionOffset fuel (fat32ClusterAlloc vbr ctx).2 bytes remaining
          (fat32ClusterAlloc vbr ctx).1 cluster
      else
        fat32WriteFileLoop partitionOffset fuel ctx bytes remaining cluster cluster

/-- `fat32_write_file`. With a cluster size of zero the loop does not end. -/
def fat32WriteFile (host : HostFiles) (partitionOffset : ℕ) (ctx : Fat32Ctx) (firstCluster : ℕ)
    (hostPath : CString) (size : ℕ) : Option Fat32Ctx :=
  match host hostPath with
  | none => some ctx
  | some bytes =>
      (fat32WriteFileLoop vbr partitionOffset size ctx bytes size firstCluster 0).map fun result =>
        { result.1 with fat := Function.update result.1.fat result.2 fatEof }

/-- The fields of `fat_dir_entry_t` that are not zero. -/
structure FatDirEntry where
  /-- The 11 name bytes. -/
  name : List UInt8
  /-- Attributes. -/
  attr : UInt8
  /-- First cluster, stored in two halves. -/
  cluster : ℕ
  /-- File size. -/
  fileSize : ℕ

/-- The 32 bytes of a directory entry. -/
def FatDirEntry.bytes (entry : FatDirEntry) : List UInt8 :=
  entry.name ++ [entry.attr, 0, 0] ++ List.replicate 6 0 ++
    le16 (UInt16.ofNat (entry.cluster / 2 ^ 16)) ++ List.replicate 4 0 ++
    le16 (UInt16.ofNat entry.cluster) ++ le32 (UInt32.ofNat entry.fileSize)

/-- `ATTR_DIRECTORY`. -/
def attrDirectory : UInt8 := 0x10

/-- `ATTR_ARCHIVE`. -/
def attrArchive : UInt8 := 0x20

/-- `fat32_create_entry`. There is no result for a name that overflows the buffers. -/
def fat32CreateEntry : FsNode → Option FatDirEntry
  | .directory name cluster _ =>
      (fatName name).map fun bytes => ⟨bytes, attrDirectory, cluster, 0⟩
  | .file name cluster _ size =>
      (fatName name).map fun bytes => ⟨bytes, attrArchive, cluster, size⟩

/-- The `.` and `..` entries of a directory that is not the root. -/
def fat32DotEntries (cluster parent : ℕ) : List FatDirEntry :=
  [⟨46 :: List.replicate 10 32, attrDirectory, cluster, 0⟩,
    ⟨46 :: 46 :: List.replicate 9 32, attrDirectory, parent, 0⟩]

/-- `fat32_write_directory`: the parent is `none` for the root. There is no result when the entries,
32 bytes each, would be written past the cluster-sized buffer. -/
def fat32WriteDirectory (partitionOffset : ℕ) (ctx : Fat32Ctx) (parent : Option ℕ) (cluster : ℕ)
    (children : List FsNode) : Option Fat32Ctx :=
  (children.mapM fat32CreateEntry).bind fun created =>
    let entries := (match parent with
      | none => []
      | some parent => fat32DotEntries cluster parent) ++ created
    if fat32ClusterSize vbr < 32 * entries.length then none
    else
      some (fat32WriteCluster vbr partitionOffset ctx cluster fun i =>
        (entries.flatMap FatDirEntry.bytes).getD i 0)

mutual

/-- `fat32_prepare_tree`, for a node other than the root. -/
def fat32PrepareNode (ctx : Fat32Ctx) : FsNode → FsNode × Fat32Ctx
  | .file name cluster hostPath size =>
      if cluster = 0 then
        (.file name (fat32ClusterAlloc vbr ctx).1 hostPath size, (fat32ClusterAlloc vbr ctx).2)
      else
        (.file name cluster hostPath size, ctx)
  | .directory name cluster children =>
      if cluster = 0 then
        let below := fat32PrepareNodes (fat32ClusterAlloc vbr ctx).2 children
        (.directory name (fat32ClusterAlloc vbr ctx).1 below.1, below.2)
      else
        let below := fat32PrepareNodes ctx children
        (.directory name cluster below.1, below.2)

/-- The loop of `fat32_prepare_tree` over the children of a directory. -/
def fat32PrepareNodes (ctx : Fat32Ctx) : List FsNode → List FsNode × Fat32Ctx
  | [] => ([], ctx)
  | node :: nodes =>
      let first := fat32PrepareNode ctx node
      let rest := fat32PrepareNodes first.2 nodes
      (first.1 :: rest.1, rest.2)

end

/-- `fat32_prepare_tree`, for the root. -/
def fat32PrepareTree (ctx : Fat32Ctx) : FsNode → FsNode × Fat32Ctx
  | .file name _ hostPath size => (.file name vbr.rootCluster hostPath size, ctx)
  | .directory name _ children =>
      let below := fat32PrepareNodes vbr ctx children
      (.directory name vbr.rootCluster below.1, below.2)

mutual

/-- `fat32_write_tree`, with the first cluster of the parent, or `none` for the root. There is no
result when a file never ends or a directory overflows a buffer. -/
def fat32WriteNode (host : HostFiles) (partitionOffset : ℕ) (parent : Option ℕ) (ctx : Fat32Ctx) :
    FsNode → Option Fat32Ctx
  | .file _ cluster hostPath size =>
      fat32WriteFile vbr host partitionOffset ctx cluster hostPath size
  | .directory _ cluster children =>
      (fat32WriteDirectory vbr partitionOffset ctx parent cluster children).bind fun ctx =>
        fat32WriteNodes host partitionOffset cluster ctx children

/-- The loop of `fat32_write_tree` over the children of a directory. -/
def fat32WriteNodes (host : HostFiles) (partitionOffset cluster : ℕ) (ctx : Fat32Ctx) :
    List FsNode → Option Fat32Ctx
  | [] => some ctx
  | node :: nodes =>
      (fat32WriteNode host partitionOffset (some cluster) ctx node).bind fun ctx =>
        fat32WriteNodes host partitionOffset cluster ctx nodes

end

/-- `fat32_write_tree`, for the root. -/
def fat32WriteTree (host : HostFiles) (partitionOffset : ℕ) (ctx : Fat32Ctx) (root : FsNode) :
    Option Fat32Ctx :=
  fat32WriteNode vbr host partitionOffset none ctx root

/-- Byte of the table as it lies in memory. -/
def fatByte (fat : ℕ → ℕ) (offset : ℕ) : UInt8 :=
  UInt8.ofNat (fat (offset / 4) / 2 ^ (8 * (offset % 4)))

/-- The loop of `fat32_table_flush`: the first `count` copies of the table. -/
def fat32TableFlushCopies (partitionOffset : ℕ) (ctx : Fat32Ctx) : ℕ → ByteMemory
  | 0 => ctx.image
  | count + 1 =>
      let fatSize := vbr.fatSize32 * vbr.bytesPerSector
      let firstFat := partitionOffset + vbr.reservedSectors * vbr.bytesPerSector
      (fat32TableFlushCopies partitionOffset ctx count).blit (firstFat + count * fatSize) fatSize
        (fatByte ctx.fat)

/-- `fat32_table_flush`. -/
def fat32TableFlush (partitionOffset : ℕ) (ctx : Fat32Ctx) : Fat32Ctx :=
  { ctx with image := fat32TableFlushCopies vbr partitionOffset ctx vbr.fatCount }

end ItWorksOS
