import ItWorksOS.Boot.VbrReads

/-!
# The image that the boot loader starts from

`mkimage` copies the boot sectors to their places and keeps them there. The VBR and Stage2 both read
the files of the tree from the same image.
-/

namespace ItWorksOS

/-- The image of a tree: the boot sectors, and the nodes of the tree with their clusters. -/
structure BootImage (vbr : Vbr) (host : HostFiles) (mbr vbrSector : ℕ → UInt8) (root : FsNode)
    (image : ByteMemory) (name : CString) (nodes : List FsNode) : Prop where
  mbr : ∀ i < 512, image i = mbr i
  sector : ∀ i < 512, image (512 * vbr.hiddenSectors + i) = vbrSector i
  held : ∀ item ∈ (FsNode.directory name vbr.rootCluster nodes).items none, item.2.HostReads host →
    ∃ chain, ImageHolds vbr host (vbr.hiddenSectors * vbr.bytesPerSector) image
      (vbr.rootCluster + treeClusters vbr root) item chain
  same : (FsNode.directory name vbr.rootCluster nodes).unassign = root.unassign

/-! ## The boot sectors -/

section

variable {vbr : Vbr} {host : HostFiles} {mbr vbrSector : ℕ → UInt8} {name : CString}
  {cluster : ℕ} {children : List FsNode} {image : ByteMemory}

/-- Every allocation that is written is for a cluster of the tree. -/
theorem ClusterWritten.below {root : FsNode} (sized : 0 < fat32ClusterSize vbr) {i : ℕ}
    (written : ClusterWritten vbr host root i) : i < treeClusters vbr root := by
  have counted := extraClusterCount_add_length_le sized host root.preorder
  rw [← treeClusters] at counted
  rcases written with ⟨node, at_i, -⟩ | ⟨-, below⟩
  · have := (List.getElem?_eq_some_iff.mp at_i).1
    omega
  · omega

/-- `mkimage` keeps the sectors before the tables. -/
theorem mkimage_reserved {lbaStart : ℕ} (sector_size : vbr.bytesPerSector = 512)
    (sectors : 0 < vbr.sectorsPerCluster) (above : 2 ≤ vbr.rootCluster)
    (fits : vbr.rootCluster + treeClusters vbr (.directory name cluster children) ≤
      fat32Entries vbr)
    (unassigned : FsNode.Unassigned children)
    (made : mkimage vbr mbr vbrSector lbaStart host (.directory name cluster children) =
      some image) {address : ℕ} (reserved : address < 512 * (lbaStart + vbr.reservedSectors)) :
    image address = mkimageStart mbr vbrSector (512 * lbaStart) address := by
  have sized : 0 < fat32ClusterSize vbr := by
    rw [fat32ClusterSize, sector_size]
    exact Nat.mul_pos (by decide) sectors
  have positive := treeClusters_pos vbr (.directory name cluster children)
  have offset_eq : lbaStart * vbr.bytesPerSector = 512 * lbaStart := by
    rw [sector_size, Nat.mul_comm]
  obtain ⟨⟨tree, ctx⟩, prepare⟩ : ∃ prepared, fat32PrepareTree vbr
    (fat32TableInit vbr (mkimageStart mbr vbrSector (512 * lbaStart)))
    (.directory name cluster children) = prepared := ⟨_, rfl⟩
  rw [mkimage, offset_eq, prepare, Option.map_eq_some_iff] at made
  obtain ⟨after, wrote, rfl⟩ := made
  have entries := fat32WriteTree_fits wrote
  rw [← congrArg Prod.fst prepare, fat32PrepareTree_fit] at entries
  obtain ⟨after', ran, writes, kept⟩ := fat32WriteTree_traced sized host (512 * lbaStart) _ above
    (by omega) name cluster unassigned entries prepare
  obtain rfl : after = after' := Option.some.inj (wrote.symm.trans ran)
  rw [fat32TableFlush]
  simp only
  rw [fat32TableFlushCopies_of_outside after (.inl (by rw [sector_size]; omega))]
  refine kept address fun c member => .inl ?_
  obtain ⟨i, written, rfl⟩ := (writes c).mp member
  have below := written.below sized
  rw [allocCluster, if_pos (by omega), fat32ClusterOffset, fat32DataOffset, sector_size,
    Nat.add_mul]
  omega

/-- The image of a tree can be booted from. -/
theorem mkimage_bootImage (mbr vbrSector : ℕ → UInt8) (host : HostFiles)
    (volume : BootVolume.Regular vbr (.directory name cluster children))
    (unassigned : FsNode.Unassigned children)
    (entries : (FsNode.directory name cluster children).EntriesFit vbr)
    (hidden : 0 < vbr.hiddenSectors) (reserved : 0 < vbr.reservedSectors) :
    ∃ image nodes, mkimage vbr mbr vbrSector vbr.hiddenSectors host
        (.directory name cluster children) = some image ∧
      BootImage vbr host mbr vbrSector (.directory name cluster children) image name nodes := by
  have limit : vbr.rootCluster + treeClusters vbr (.directory name cluster children) ≤
      min (fat32Entries vbr) fatEof :=
    le_min volume.table (volume.named.trans (by decide))
  obtain ⟨image, made, held⟩ := @mkimage_holds vbr host mbr vbrSector vbr.hiddenSectors name cluster
    children volume.sector_size volume.sectors_pos volume.root_cluster volume.copied limit
    unassigned entries
  obtain ⟨nodes, tree_eq⟩ : ∃ nodes, mkimageTree vbr mbr vbrSector vbr.hiddenSectors
    (.directory name cluster children) = .directory name vbr.rootCluster nodes := ⟨_, rfl⟩
  have kept {address : ℕ} := @mkimage_reserved vbr host mbr vbrSector name cluster children image
    vbr.hiddenSectors volume.sector_size volume.sectors_pos volume.root_cluster volume.table
    unassigned made address
  refine ⟨image, nodes, made, fun i small => ?_, fun i small => ?_, tree_eq ▸ held,
    tree_eq ▸ fat32PrepareTree_unassign vbr _ (.directory name cluster children)⟩
  · rw [kept (by omega), mkimageStart, ByteMemory.blit_of_outside (by omega)]
    have first := @ByteMemory.blit_of_inside (fun _ => 0) 0 512 i mbr small
    rwa [Nat.zero_add] at first
  · rw [kept (by omega), mkimageStart, ByteMemory.blit_of_inside small]

end

/-! ## The files -/

/-- A range of memory holds a file, with zeros up to the end of the last cluster. -/
def Loaded (vbr : Vbr) (mem : ByteMemory) (address : ℕ) (bytes : List UInt8) : Prop :=
  ∀ offset < loadedSize vbr bytes.length, mem (address + offset) = bytes.getD offset 0

theorem Loaded.congr {vbr : Vbr} {mem mem' : ByteMemory} {address : ℕ} {bytes : List UInt8}
    (loaded : Loaded vbr mem address bytes)
    (same : ∀ target, address ≤ target → target < address + loadedSize vbr bytes.length →
      mem' target = mem target) : Loaded vbr mem' address bytes :=
  fun offset small =>
    (same _ (Nat.le_add_right ..) (Nat.add_lt_add_left small _)).trans (loaded offset small)

section

variable {vbr : Vbr} {host : HostFiles} {mbr vbrSector : ℕ → UInt8} {root : FsNode}
  {image mem : ByteMemory} {name fileName hostPath : CString} {nodes : List FsNode}
  {machine : Stage2Machine} {dl si fileCluster : ℕ} {bytes : List UInt8} {chain : List ℕ}

/-- The file at a path has the same name and contents on the image. -/
theorem BootImage.lookup (boot : BootImage vbr host mbr vbrSector root image name nodes)
    {path : List CString} {size : ℕ}
    (found : root.lookup path = some (.file fileName fileCluster hostPath size)) :
    ∃ first, (FsNode.directory name vbr.rootCluster nodes).lookup path =
      some (.file fileName first hostPath size) := by
  have twin := FsNode.lookup_unassign path (.directory name vbr.rootCluster nodes)
  rw [boot.same, FsNode.lookup_unassign, found, Option.map_some] at twin
  obtain ⟨node, node_found, node_eq⟩ := Option.map_eq_some_iff.mp twin.symm
  cases node with
  | directory => cases node_eq
  | file _ first _ _ =>
      cases node_eq
      exact ⟨first, node_found⟩

/-- The table leads through a chain as it lies on the disk. -/
theorem fatLeads_of_chain {fat : ℕ → ℕ} {count cluster : ℕ}
    (followed : fatChain fat count cluster = some chain) (below : ∀ c ∈ chain, c < 0x0FFFFFF7) :
    FatLeads fat chain := by
  induction count generalizing cluster chain with
  | zero => cases followed
  | succ count induction =>
      rw [fatChain] at followed
      split_ifs at followed with last
      · obtain rfl := Option.some.inj followed
        rw [FatLeads, last]
        decide
      · obtain ⟨rest, inner, rfl⟩ := Option.map_eq_some_iff.mp followed
        obtain ⟨tail, rfl⟩ := fatChain_head inner
        have next_lt : fat cluster < 0x0FFFFFF7 := below (fat cluster) (by simp)
        exact ⟨rfl, next_lt,
          induction inner fun c member => below c (List.mem_cons_of_mem _ member)⟩

/-- Bytes that lie in the clusters of a file are its contents. -/
theorem ImageHolds.loaded (volume : BootVolume.Regular vbr root) {parent : Option ℕ} {address : ℕ}
    (holds : ImageHolds vbr host (vbr.hiddenSectors * vbr.bytesPerSector) image
      (vbr.rootCluster + treeClusters vbr root)
      (parent, .file fileName fileCluster hostPath bytes.length) chain)
    (opened : host hostPath = some bytes)
    (read : ∀ k c, chain[k]? = some c → ∀ offset < fat32ClusterSize vbr,
      mem (address + k * fat32ClusterSize vbr + offset) =
        image (512 * (stage2Init dl vbr).clusterLba c + offset)) :
    Loaded vbr mem address bytes := by
  have sized := volume.clusterSize_dvd.1
  have loaded_eq : chain.length * fat32ClusterSize vbr = loadedSize vbr bytes.length :=
    congrArg (· * fat32ClusterSize vbr) holds.length
  intro offset offset_lt
  have split := Nat.div_add_mod offset (fat32ClusterSize vbr)
  have inside : offset / fat32ClusterSize vbr < chain.length := by
    rw [Nat.div_lt_iff_lt_mul sized, loaded_eq]
    exact offset_lt
  have at_k := List.getElem?_eq_getElem inside
  have above := (holds.inside _ (List.mem_of_getElem? at_k)).1
  have stored := holds.holds _ _ at_k _ (Nat.mod_lt offset sized)
  rw [Nat.mul_comm (fat32ClusterSize vbr)] at split
  rw [← volume.clusterLba above, ← read _ _ at_k _ (Nat.mod_lt offset sized), split, fsItemBytes,
    opened, Option.getD_some, Nat.add_assoc, split] at stored
  exact stored

/-- The VBR loads the file from its first cluster on. -/
theorem loadStage2Loop_file (volume : BootVolume.Regular vbr root)
    (disk : Stage2Disk machine (stage2Init dl vbr) image (treeEndLba vbr root)) {parent : Option ℕ}
    (holds : ImageHolds vbr host (vbr.hiddenSectors * vbr.bytesPerSector) image
      (vbr.rootCluster + treeClusters vbr root)
      (parent, .file fileName fileCluster hostPath bytes.length) chain)
    (opened : host hostPath = some bytes) {loadPtr fuel : ℕ}
    (below : loadPtr + loadedSize vbr bytes.length ≤ fatSecLoadOff) (fueled : chain.length ≤ fuel)
    (mem : ByteMemory) :
    ∃ loaded : ByteMemory,
      loadStage2Loop machine.bios (vbrInit dl si vbr) fuel fileCluster loadPtr mem =
        some (.stage2 dl si 0x0500 loaded) ∧ Loaded vbr loaded loadPtr bytes ∧
      ∀ address, (address < fatSecLoadOff ∨ fatSecLoadOff + 512 ≤ address) →
        (address < loadPtr ∨ loadPtr + loadedSize vbr bytes.length ≤ address) →
          loaded address = mem address := by
  have named := volume.named
  have loaded_eq : chain.length * fat32ClusterSize vbr = loadedSize vbr bytes.length :=
    congrArg (· * fat32ClusterSize vbr) holds.length
  obtain ⟨rest, rfl⟩ : ∃ rest, chain = fileCluster :: rest := fatChain_head holds.follow
  have entry_eq : tableEntry (stage2Init dl vbr) image =
      imageFatEntry vbr (vbr.hiddenSectors * vbr.bytesPerSector) image := by
    funext c
    rw [tableEntry, volume.fatStartLba, imageFatEntry, volume.sector_size]
    congr 1
    ring
  have leads : FatLeads (tableEntry (stage2Init dl vbr) image) (fileCluster :: rest) := by
    rw [entry_eq]
    refine fatLeads_of_chain holds.follow fun c member => ?_
    have := (holds.inside c member).2
    omega
  rw [List.length_cons] at loaded_eq fueled
  rw [← loaded_eq] at below ⊢
  obtain ⟨loaded, ran, read, kept⟩ := @loadStage2Loop_chain machine vbr image _ dl si fileCluster
    loadPtr disk (fat32ClusterSize vbr) volume.clusterSize_eq rest fuel leads
    (fun c member => volume.inside (holds.inside c member).1 (holds.inside c member).2) below
    (Nat.lt_of_succ_le fueled) mem
  exact ⟨loaded, ran, holds.loaded volume opened read, kept⟩

/-- The VBR loads a directory of the image, and finds its children there. -/
theorem loadCluster_directory (volume : BootVolume.Regular vbr root)
    (disk : Stage2Disk machine (stage2Init dl vbr) image (treeEndLba vbr root)) {parent : Option ℕ}
    {cluster : ℕ} {children : List FsNode}
    (holds : ImageHolds vbr host (vbr.hiddenSectors * vbr.bytesPerSector) image
      (vbr.rootCluster + treeClusters vbr root) (parent, .directory fileName cluster children)
      chain)
    (bootable : (FsNode.directory fileName cluster children).Bootable vbr (fsDots parent))
    {child : FsNode} (member : child ∈ children) (below : child.firstCluster < 2 ^ 32)
    (room : clusterLoadOff + fat32ClusterSize vbr ≤ 2 ^ 16) (mem : ByteMemory) :
    ∃ (loaded : ByteMemory) (address : ℕ),
      loadCluster machine.bios (vbrInit dl si vbr) cluster clusterLoadOff mem = (false, loaded) ∧
      findEntry (vbrInit dl si vbr) (shortNameBytes child.name) loaded = some address ∧
      entryCluster address loaded = child.firstCluster ∧
      ∀ target, (target < clusterLoadOff ∨ clusterLoadOff + fat32ClusterSize vbr ≤ target) →
        loaded target = mem target := by
  have size_eq := volume.clusterSize_eq
  cases bootable with
  | directory _ _ _ _ named distinct fits _ =>
      obtain ⟨inside, entries⟩ := holds.directory_held volume.toReadable named distinct fits member
      have read := @loadCluster_of_inside machine vbr image _ dl si cluster clusterLoadOff disk
        inside (size_eq ▸ room) mem
      have entries_lt (index : ℕ) (index_lt : index <
          ((fsDirectoryEntries parent cluster children).flatMap FatDirEntry.bytes).length) :
          index < 512 * vbr.sectorsPerCluster := by
        obtain ⟨comparable, length, -⟩ :=
          fsDirectoryEntries_child parent cluster named distinct member
        rw [FatDirEntry.flatMap_length fun entry listed => (comparable entry listed).named,
          length] at index_lt
        omega
      have held : Holds (mem.blit clusterLoadOff (512 * vbr.sectorsPerCluster)
          fun i => image (512 * (stage2Init dl vbr).clusterLba cluster + i)) clusterLoadOff
            ((fsDirectoryEntries parent cluster children).flatMap FatDirEntry.bytes) := by
        intro index index_lt
        rw [ByteMemory.blit_of_inside (entries_lt index index_lt)]
        exact entries index index_lt
      obtain ⟨address, scanned, entry⟩ := @findEntry_child _ (vbrInit dl si vbr)
        volume.sectors_pos (size_eq ▸ room) parent cluster children named distinct
        (size_eq ▸ fits) held child member
      have cluster_eq : (fsEntry child).cluster = child.firstCluster := by
        cases child <;> rfl
      refine ⟨_, address, read, scanned, ?_, fun target outside => ?_⟩
      · rw [← cluster_eq]
        exact entryCluster_of_holds (fsEntry_comparable (named child member)).1.named
          (cluster_eq ▸ below) entry
      · rw [ByteMemory.blit_of_outside (by omega)]

/-- `boot_code` loads `/boot/stage2.bin`, and changes no other memory but the buffer of the
table. -/
theorem bootCodeLoad_file (boot : BootImage vbr host mbr vbrSector root image name nodes)
    (volume : BootVolume.Regular vbr root) (bootable : root.Bootable vbr 0)
    (disk : Stage2Disk machine (stage2Init dl vbr) image (treeEndLba vbr root))
    {directory file : CString} (directory_name : shortNameBytes directory = bootDir)
    (file_name : shortNameBytes file = stage2File)
    (found : root.lookup [directory, file] =
      some (.file fileName fileCluster hostPath bytes.length))
    (opened : host hostPath = some bytes)
    (below : clusterLoadOff + loadedSize vbr bytes.length ≤ fatSecLoadOff) {fuel : ℕ}
    (fueled : (FsNode.file fileName fileCluster hostPath bytes.length).clusterCount vbr ≤ fuel)
    (mem : ByteMemory) :
    ∃ loaded : ByteMemory, bootCodeLoad machine.bios (vbrInit dl si vbr) fuel mem =
        some (.stage2 dl si 0x0500 loaded) ∧ Loaded vbr loaded clusterLoadOff bytes ∧
      ∀ address, (address < fatSecLoadOff ∨ fatSecLoadOff + 512 ≤ address) →
        (address < clusterLoadOff ∨ clusterLoadOff + loadedSize vbr bytes.length ≤ address) →
          loaded address = mem address := by
  obtain ⟨first, stored⟩ := boot.lookup found
  obtain ⟨child, child_found, rest⟩ := Option.bind_eq_some_iff.mp stored
  obtain ⟨node, node_found, last⟩ := Option.bind_eq_some_iff.mp rest
  obtain ⟨child_member, rfl⟩ := fsNodeFindChild_some child_found
  obtain ⟨node_member, rfl⟩ := fsNodeFindChild_some node_found
  obtain rfl := Option.some.inj last
  have root_listed : (none, FsNode.directory name vbr.rootCluster nodes) ∈
      (FsNode.directory name vbr.rootCluster nodes).items none := List.mem_cons_self ..
  have child_listed := FsNode.items_child root_listed child_member
  have table := volume.table
  have entries_lt : fat32Entries vbr < 2 ^ 32 := by
    rw [fat32Entries]
    omega
  have cluster_le : fat32ClusterSize vbr ≤ loadedSize vbr bytes.length :=
    Nat.le_mul_of_pos_left _ (Nat.lt_of_lt_of_le Nat.zero_lt_one (Nat.le_max_left ..))
  have room : clusterLoadOff + fat32ClusterSize vbr ≤ 2 ^ 16 := by
    have : fatSecLoadOff = 0x7E00 := rfl
    omega
  cases child with
  | file => cases node_member
  | directory childName childCluster grandchildren =>
      have node_listed := FsNode.items_child child_listed node_member
      obtain ⟨rootChain, rootHolds⟩ := boot.held _ root_listed fun _ source =>
        (Option.not_mem_none _ source).elim
      obtain ⟨childChain, childHolds⟩ := boot.held _ child_listed fun _ source =>
        (Option.not_mem_none _ source).elim
      obtain ⟨chain, holds⟩ := boot.held _ node_listed fun file source => by
        obtain rfl := Option.some.inj source
        exact ⟨bytes, opened, rfl⟩
      have child_lt : childCluster < vbr.rootCluster + treeClusters vbr root :=
        childHolds.first_inside.2
      have first_lt : first < vbr.rootCluster + treeClusters vbr root := holds.first_inside.2
      have rootBootable := bootable.unassign boot.same
      obtain ⟨rootMem, rootAddress, rootRead, rootFound, rootEntry, rootKept⟩ :=
        @loadCluster_directory vbr host root image name machine dl si rootChain volume disk none
          vbr.rootCluster nodes rootHolds rootBootable _ child_member
          (show childCluster < 2 ^ 32 by omega) room mem
      have childBootable : (FsNode.directory childName childCluster grandchildren).Bootable vbr
          (fsDots (some vbr.rootCluster)) := by
        cases rootBootable with
        | directory _ _ _ _ _ _ _ bootable_below => exact bootable_below _ child_member
      obtain ⟨childMem, childAddress, childRead, childFound, childEntry, childKept⟩ :=
        @loadCluster_directory vbr host root image childName machine dl si childChain volume disk
          (some vbr.rootCluster) childCluster grandchildren childHolds childBootable _ node_member
          (show first < 2 ^ 32 by omega) room rootMem
      obtain ⟨loaded, ran, held, kept⟩ := @loadStage2Loop_file vbr host root image fileName
        hostPath machine dl si first bytes chain volume disk (some childCluster) holds opened
        clusterLoadOff fuel below (holds.length.trans_le fueled) childMem
      refine ⟨loaded, ?_, held, fun address apart outside => ?_⟩
      · rw [bootCodeLoad, show (vbrInit dl si vbr).vbr.rootCluster = vbr.rootCluster from rfl,
          rootRead]
        simp only
        rw [← directory_name, rootFound]
        simp only
        rw [rootEntry, show (FsNode.directory childName childCluster grandchildren).firstCluster =
          childCluster from rfl, childRead]
        simp only
        rw [← file_name, childFound]
        simp only
        rw [childEntry]
        exact ran
      · rw [kept address apart outside, childKept address (by omega), rootKept address (by omega)]

end

end ItWorksOS
