import ItWorksOS.Boot.Stage2Files

/-!
# The files that Stage2 finds and loads

A path is resolved through the first clusters of its directories, and the chain of the file at its
end is loaded contiguously. The reader gives up on volumes without a table, on chains through
reserved cluster numbers, and on sectors whose numbers do not fit 32 bits.
-/

namespace ItWorksOS

/-- Segment of `KERNEL_LOAD_ADDR`. -/
def kernelLoadSeg : ℕ := 0x1000

/-- Size of the clusters of a file. -/
def loadedSize (vbr : Vbr) (size : ℕ) : ℕ :=
  max 1 ((size + fat32ClusterSize vbr - 1) / fat32ClusterSize vbr) * fat32ClusterSize vbr

/-- Stage2 finds an entry with the size of the contents at a path, and loads the contents, with
zeros up to the end of the last cluster. -/
def Stage2ReadsFile (vbr : Vbr) (machine : Stage2Machine) (drive : ℕ) (path : List CString)
    (bytes : List UInt8) (es si : ℕ) (mem : ByteMemory) : Prop :=
  let ctx := stage2Init drive vbr
  ∃ fuel bx found load,
    stage2Resolve machine ctx fuel (path.map shortNameBytes) ctx.rootCluster mem =
      some (some bx, found) ∧
    stage2EntryFileSize machine bx found = bytes.length ∧
    fat32LoadFile machine ctx fuel (stage2EntryCluster machine bx found) es si found = some load ∧
    load.carry = false ∧
    ∀ offset < loadedSize vbr bytes.length, load.mem (es * 16 + si + offset) = bytes.getD offset 0

/-- Whatever drive holds the image of a tree, Stage2 reads every file of the tree to every place
from `KERNEL_LOAD_ADDR` to 1 MiB that has room for it, in steps of clusters. -/
def Stage2ReadsImage (vbr : Vbr) (mbr vbrSector : ℕ → UInt8) (host : HostFiles) (root : FsNode) :
    Prop :=
  ∃ image, mkimage vbr mbr vbrSector vbr.hiddenSectors host root = some image ∧
    ∀ (machine : Stage2Machine) (drive : ℕ),
      machine.bios.Serves drive image (vbr.hiddenSectors + vbr.totalSectors32) →
      ∀ path name cluster hostPath bytes,
        root.lookup path = some (.file name cluster hostPath bytes.length) →
        host hostPath = some bytes →
        ∀ es si mem, kernelLoadSeg ≤ es → fat32ClusterSize vbr ∣ si → si < 2 ^ 16 →
          es * 16 + si + loadedSize vbr bytes.length ≤ 2 ^ 20 →
            Stage2ReadsFile vbr machine drive path bytes es si mem

/-! ## Entries -/

section

variable {machine : Stage2Machine} {ctx : Stage2Context} {image mem : ByteMemory}
  {total cluster bx : ℕ}

/-- What Stage2 takes from an entry that lies in `buf_dir`. -/
theorem stage2Entry_of_holds {entry : FatDirEntry} (named : entry.name.length = 11)
    (cluster_lt : entry.cluster < 2 ^ 32) (size_lt : entry.fileSize < 2 ^ 32)
    (held : Holds mem (machine.bufDir + bx) entry.bytes) :
    stage2EntryCluster machine bx mem = entry.cluster ∧
      stage2EntryFileSize machine bx mem = entry.fileSize := by
  obtain ⟨-, -, high, low, size⟩ := FatDirEntry.holds_fields named held
  rw [stage2EntryCluster, stage2EntryFileSize, high, low, size]
  simp only [UInt16.toNat_ofNat', UInt32.toNat_ofNat']
  omega

theorem stage2Resolve_cons {name second : List UInt8} {path : List (List UInt8)} {fuel : ℕ}
    {mem' : ByteMemory}
    (scanned : fat32FindEntry machine ctx name fuel cluster mem = some (some bx, mem')) :
    stage2Resolve machine ctx fuel (name :: second :: path) cluster mem =
      stage2Resolve machine ctx fuel (second :: path) (stage2EntryCluster machine bx mem')
        mem' := by
  rw [stage2Resolve, scanned]
  exact List.cons_ne_nil second path

/-- `fat32_find_entry` finds the entry of a child of a directory. -/
theorem fat32FindEntry_child (disk : Stage2Disk machine ctx image total)
    (inside : ctx.Inside total cluster) {parent : Option ℕ} {first : ℕ} {children : List FsNode}
    (named : ∀ child ∈ children, ShortName child.name)
    (distinct : (children.map fun child => child.name.map toupper).Nodup)
    (fits : 32 * (fsDots parent + children.length) ≤ 512 * ctx.sectorsPerCluster)
    (held : Holds image (512 * ctx.clusterLba cluster)
      ((fsDirectoryEntries parent first children).flatMap FatDirEntry.bytes))
    {child : FsNode} (member : child ∈ children) (fuel : ℕ) (mem : ByteMemory) :
    ∃ bx found, fat32FindEntry machine ctx (shortNameBytes child.name) (fuel + 1) cluster mem =
        some (some bx, found) ∧
      Holds found (machine.bufDir + bx) (fsEntry child).bytes := by
  obtain ⟨comparable, length, k, at_k, before⟩ :=
    fsDirectoryEntries_child parent first named distinct member
  have entries_named (entry : FatDirEntry)
      (listed : entry ∈ fsDirectoryEntries parent first children) : entry.name.length = 11 :=
    (comparable entry listed).named
  have k_lt := (List.getElem?_eq_some_iff.mp at_k).1
  have child_entry := fsEntry_comparable (named child member)
  have child_held := holds_flatMap entries_named held at_k
  have child_named := (child_entry.1.scan child_held).2
  rw [child_entry.2] at child_named
  refine ⟨_, _, fat32FindEntry_found disk inside (by omega) (fun j j_lt => ?_) child_named fuel mem,
    fun index index_lt => ?_⟩
  · obtain ⟨entry, at_j⟩ : ∃ entry, (fsDirectoryEntries parent first children)[j]? = some entry :=
      ⟨_, List.getElem?_eq_getElem (j_lt.trans k_lt)⟩
    exact ((comparable entry (List.mem_of_getElem? at_j)).scan
      (holds_flatMap entries_named held at_j)).1 _ (before j j_lt entry at_j)
  · have short := index_lt
    rw [FatDirEntry.bytes_length child_entry.1.named] at short
    rw [← child_held index index_lt, Nat.add_assoc, ByteMemory.blit_of_inside (by omega)]
    congr 1
    omega

end

/-! ## Paths -/

section

variable {vbr : Vbr} {root tree : FsNode} {host : HostFiles} {image : ByteMemory}
  {machine : Stage2Machine} {drive : ℕ} {item : Option ℕ × FsNode} {chain : List ℕ}

theorem ImageHolds.first_inside {partitionOffset limit : ℕ}
    (holds : ImageHolds vbr host partitionOffset image limit item chain) :
    2 ≤ item.2.firstCluster ∧ item.2.firstCluster < limit := by
  obtain ⟨rest, rfl⟩ := fatChain_head holds.follow
  exact holds.inside _ (List.mem_cons_self ..)

/-- A directory of the image can be read. -/
theorem ImageHolds.directory_held (volume : BootVolume.Readable vbr root) {parent : Option ℕ}
    {name : CString} {cluster : ℕ} {children : List FsNode}
    (holds : ImageHolds vbr host (vbr.hiddenSectors * vbr.bytesPerSector) image
      (vbr.rootCluster + treeClusters vbr root) (parent, .directory name cluster children) chain)
    (named : ∀ child ∈ children, ShortName child.name)
    (distinct : (children.map fun child => child.name.map toupper).Nodup)
    (fits : 32 * (fsDots parent + children.length) ≤ fat32ClusterSize vbr)
    {child : FsNode} (member : child ∈ children) :
    (stage2Init drive vbr).Inside (treeEndLba vbr root) cluster ∧
      Holds image (512 * (stage2Init drive vbr).clusterLba cluster)
        ((fsDirectoryEntries parent cluster children).flatMap FatDirEntry.bytes) := by
  obtain ⟨above, below⟩ : 2 ≤ cluster ∧ cluster < vbr.rootCluster + treeClusters vbr root :=
    holds.first_inside
  obtain ⟨rest, rfl⟩ := fatChain_head holds.follow
  obtain ⟨comparable, length, -⟩ :=
    fsDirectoryEntries_child parent cluster named distinct member
  refine ⟨volume.inside above below, ?_⟩
  rw [volume.clusterLba above]
  have stored := holds.holds
  rw [fsItemBytes] at stored
  refine stored.first ?_
  rw [FatDirEntry.flatMap_length fun entry listed => (comparable entry listed).named, length]
  exact fits

/-- Resolving the path of a file leads to its entry. -/
theorem stage2Resolve_file (volume : BootVolume.Readable vbr root)
    (disk : Stage2Disk machine (stage2Init drive vbr) image (treeEndLba vbr root))
    (held : ∀ item ∈ tree.items none, item.2.HostReads host → ∃ chain,
      ImageHolds vbr host (vbr.hiddenSectors * vbr.bytesPerSector) image
        (vbr.rootCluster + treeClusters vbr root) item chain)
    {path : List CString} {parent : Option ℕ} {name fileName hostPath : CString}
    {cluster fileCluster size : ℕ} {children : List FsNode}
    (listed : (parent, .directory name cluster children) ∈ tree.items none)
    (bootable : (FsNode.directory name cluster children).Bootable vbr (fsDots parent))
    (found : (FsNode.directory name cluster children).lookup path =
      some (.file fileName fileCluster hostPath size)) (fuel : ℕ) (mem : ByteMemory) :
    ∃ bx mem', stage2Resolve machine (stage2Init drive vbr) (fuel + 1) (path.map shortNameBytes)
        cluster mem = some (some bx, mem') ∧
      Holds mem' (machine.bufDir + bx)
        (fsEntry (.file fileName fileCluster hostPath size)).bytes ∧
      ShortName (FsNode.file fileName fileCluster hostPath size).name ∧
      ∃ parent, (parent, .file fileName fileCluster hostPath size) ∈ tree.items none := by
  induction path generalizing parent name cluster children mem with
  | nil => cases found
  | cons first path induction =>
      obtain ⟨child, child_found, rest⟩ := Option.bind_eq_some_iff.mp found
      obtain ⟨member, rfl⟩ := fsNodeFindChild_some child_found
      cases bootable with
      | directory _ _ _ _ named distinct fits below =>
          obtain ⟨chain, holds⟩ := held _ listed fun _ source => (Option.not_mem_none _ source).elim
          obtain ⟨inside, entries⟩ := holds.directory_held volume named distinct fits member
          obtain ⟨bx, mem', scanned, entry⟩ := fat32FindEntry_child disk inside named distinct
            (volume.clusterSize_eq ▸ fits) entries member fuel mem
          have child_listed := FsNode.items_child listed member
          cases path with
          | nil =>
              obtain rfl := Option.some.inj rest
              exact ⟨bx, mem', scanned, entry, named _ member, some cluster, child_listed⟩
          | cons second path =>
              cases child with
              | file => cases rest
              | directory childName childCluster grandchildren =>
                  obtain ⟨childChain, childHolds⟩ := held _ child_listed fun _ source =>
                    (Option.not_mem_none _ source).elim
                  have child_lt : childCluster < vbr.rootCluster + treeClusters vbr root :=
                    childHolds.first_inside.2
                  have table := volume.table
                  have entries_lt : fat32Entries vbr < 2 ^ 32 := by
                    rw [fat32Entries]
                    omega
                  have cluster_eq := (stage2Entry_of_holds
                    (fsEntry_comparable (named _ member)).1.named
                    (show childCluster < 2 ^ 32 by omega) (by decide : 0 < 2 ^ 32) entry).1
                  obtain ⟨bx', mem'', resolved, last⟩ :=
                    induction child_listed (below _ member) rest mem'
                  refine ⟨bx', mem'', ?_, last⟩
                  rw [List.map_cons, List.map_cons, stage2Resolve_cons scanned, cluster_eq]
                  exact resolved

/-! ## Files -/

/-- The reader follows a chain without reserved cluster numbers. -/
theorem fatLeads_of_fatChain {fat : ℕ → ℕ} {count cluster : ℕ}
    (followed : fatChain fat count cluster = some chain) (below : ∀ c ∈ chain, c < 0x0FFFFFF7) :
    FatLeads (fun c => fat c &&& 0x0FFFFFFF) chain := by
  induction count generalizing cluster chain with
  | zero => cases followed
  | succ count induction =>
      rw [fatChain] at followed
      split_ifs at followed with last
      · obtain rfl := Option.some.inj followed
        rw [FatLeads, last]
        decide
      · obtain ⟨rest, inner, rfl⟩ := Option.map_eq_some_iff.mp followed
        obtain ⟨tail, rfl⟩ := fatChain_head inner
        have next_lt : fat cluster < 0x0FFFFFF7 := below (fat cluster) (by simp)
        have masked : fat cluster &&& 0x0FFFFFFF = fat cluster := by
          rw [show 0x0FFFFFFF = 2 ^ 28 - 1 from rfl, Nat.and_two_pow_sub_one_eq_mod]
          omega
        exact ⟨masked, next_lt,
          induction inner fun c member => below c (List.mem_cons_of_mem _ member)⟩

theorem BootVolume.clusterSize_dvd (volume : BootVolume vbr root) :
    0 < fat32ClusterSize vbr ∧ fat32ClusterSize vbr < 2 ^ 16 ∧ fat32ClusterSize vbr ∣ 2 ^ 16 := by
  obtain ⟨n, small, sectors⟩ := volume.cluster_size
  have power : fat32ClusterSize vbr = 2 ^ (9 + n) := by
    rw [volume.clusterSize_eq, sectors, Nat.pow_add]
  rw [power]
  exact ⟨by positivity, Nat.pow_lt_pow_right (by decide) (by omega),
    Nat.pow_dvd_pow 2 (by omega)⟩

theorem le_loadedSize (sized : 0 < fat32ClusterSize vbr) (size : ℕ) :
    size ≤ loadedSize vbr size := by
  have split := Nat.div_add_mod (size + fat32ClusterSize vbr - 1) (fat32ClusterSize vbr)
  have rest := Nat.mod_lt (size + fat32ClusterSize vbr - 1) sized
  have rounded : size ≤
      (size + fat32ClusterSize vbr - 1) / fat32ClusterSize vbr * fat32ClusterSize vbr := by
    rw [Nat.mul_comm]
    omega
  exact rounded.trans (Nat.mul_le_mul_right _ (Nat.le_max_right ..))

/-- A file of the image is loaded from its first cluster. -/
theorem fat32LoadFile_file (volume : BootVolume.Regular vbr root)
    (disk : Stage2Disk machine (stage2Init drive vbr) image (treeEndLba vbr root))
    {parent : Option ℕ} {name hostPath : CString} {cluster : ℕ} {bytes : List UInt8}
    (holds : ImageHolds vbr host (vbr.hiddenSectors * vbr.bytesPerSector) image
      (vbr.rootCluster + treeClusters vbr root)
      (parent, .file name cluster hostPath bytes.length) chain)
    (opened : host hostPath = some bytes) {es si fuel : ℕ} (high : kernelLoadSeg ≤ es)
    (aligned : fat32ClusterSize vbr ∣ si) (before : si < 2 ^ 16)
    (below : es * 16 + si + loadedSize vbr bytes.length ≤ 2 ^ 20) (fueled : chain.length ≤ fuel)
    (mem : ByteMemory) :
    ∃ load, fat32LoadFile machine (stage2Init drive vbr) fuel cluster es si mem = some load ∧
      load.carry = false ∧ ∀ offset < loadedSize vbr bytes.length,
        load.mem (es * 16 + si + offset) = bytes.getD offset 0 := by
  obtain ⟨sized, proper, divides⟩ := volume.clusterSize_dvd
  have named := volume.named
  have loaded_eq : chain.length * fat32ClusterSize vbr = loadedSize vbr bytes.length :=
    congrArg (· * fat32ClusterSize vbr) holds.length
  obtain ⟨rest, rfl⟩ : ∃ rest, chain = cluster :: rest := fatChain_head holds.follow
  have leads : FatLeads ((stage2Init drive vbr).fatEntry image) (cluster :: rest) := by
    rw [funext (volume.fatEntry image)]
    refine fatLeads_of_fatChain holds.follow fun c member => ?_
    have := (holds.inside c member).2
    omega
  rw [List.length_cons] at loaded_eq fueled
  unfold kernelLoadSeg at high
  have fits := machine.fits
  obtain ⟨load, ran, success, loaded, -⟩ := fat32LoadFile_chain disk volume.clusterSize_eq
    volume.bytesPerCluster proper divides leads
    (fun c member => volume.inside (holds.inside c member).1 (holds.inside c member).2)
    aligned before (.inl (by omega)) (loaded_eq ▸ below) (Nat.lt_of_succ_le fueled) mem
  refine ⟨load, ran, success, fun offset offset_lt => ?_⟩
  have split := Nat.div_add_mod offset (fat32ClusterSize vbr)
  have inside : offset / fat32ClusterSize vbr < (cluster :: rest).length := by
    rw [List.length_cons, Nat.div_lt_iff_lt_mul sized, loaded_eq]
    exact offset_lt
  have at_k := List.getElem?_eq_getElem inside
  have above := (holds.inside _ (List.mem_of_getElem? at_k)).1
  have stored := holds.holds _ _ at_k _ (Nat.mod_lt offset sized)
  rw [Nat.mul_comm (fat32ClusterSize vbr)] at split
  rw [← volume.clusterLba above, ← loaded _ _ at_k _ (Nat.mod_lt offset sized), split, fsItemBytes,
    opened, Option.getD_some, Nat.add_assoc, split] at stored
  exact stored

end

/-- A drive that holds a disk, and `buf_fat` behind the code of Stage2. -/
def diskMachine (disk : ByteMemory) (total : ℕ) : Stage2Machine :=
  ⟨extendedRead disk total, 0x2000, by decide⟩

theorem diskMachine_serves (disk : ByteMemory) (total drive : ℕ) :
    (diskMachine disk total).bios.Serves drive disk total :=
  extendedRead_serves disk total drive

/-- `boot`. -/
def bootName : CString := [98, 111, 111, 116]

/-- `kernel.bin`. -/
def kernelName : CString := [107, 101, 114, 110, 101, 108, 46, 98, 105, 110]

/-- A tree with the file `boot/kernel.bin`. -/
def kernelTree (size : ℕ) : FsNode :=
  .directory [] 0 [.directory bootName 0 [.file kernelName 0 [107] size]]

/-- 600 bytes that count up, over two clusters. -/
def countingBytes : List UInt8 := (List.range 600).map UInt8.ofNat

/-- A volume without a table, which `stage2_validate` rejects. -/
def noTableVbr : Vbr :=
  { systemVbr with
    hiddenSectors := 1
    reservedSectors := 0
    fatCount := 0
    hiddenSectors_lt := by decide
    reservedSectors_lt := by decide
    fatCount_lt := by decide }

/-- A volume on which a cluster has the number that marks bad clusters. -/
def badMarkVbr : Vbr :=
  { systemVbr with
    fatSize32 := 2 ^ 21
    totalSectors32 := 2 ^ 29
    rootCluster := 0x0FFFFFF5
    fatSize32_lt := by decide
    totalSectors32_lt := by decide
    rootCluster_lt := by decide }

/-- A volume with sectors from number `2 ^ 32` on. -/
def farVbr : Vbr :=
  { systemVbr with
    hiddenSectors := 2 ^ 32 - 32
    hiddenSectors_lt := by decide }

/-- A root with one file of 600 bytes. -/
def oneFileTree : FsNode := .directory [] 0 (singleFile 600)

/-- The image of a root with one file. -/
def oneFileImage (vbr : Vbr) : Option ByteMemory :=
  mkimage vbr (fun _ => 0) (fun _ => 0) vbr.hiddenSectors (sizedHost 600) oneFileTree

/-- The volume has room for the root with one file, whose names and entries are in order, and Stage2
does not read it. -/
def OneFileUnread (vbr : Vbr) : Prop :=
  BootVolume vbr oneFileTree ∧ oneFileTree.Bootable vbr 0 ∧
    ¬ Stage2ReadsImage vbr (fun _ => 0) (fun _ => 0) (sizedHost 600) oneFileTree

theorem oneFileTree_named : ShortName [97] := by
  refine ⟨by decide, by decide, by decide, by decide, ?_, by decide⟩
  simp [shortNameBase, shortNameExtension, ShortNameChar]

theorem oneFileTree_bootable {vbr : Vbr} (sized : 32 ≤ fat32ClusterSize vbr) :
    oneFileTree.Bootable vbr 0 := by
  refine .directory 0 [] 0 _ ?_ (by decide) sized ?_
  · exact List.forall_mem_singleton.mpr oneFileTree_named
  · exact List.forall_mem_singleton.mpr (.file ..)

section

variable {vbr : Vbr} {machine : Stage2Machine} {ctx : Stage2Context} {image mem found : ByteMemory}
  {total fuel bx : ℕ}

/-- How Stage2 would read the only file of the root. -/
theorem oneFileImage_reads
    (reads : Stage2ReadsImage vbr (fun _ => 0) (fun _ => 0) (sizedHost 600) oneFileTree)
    (small : loadedSize vbr 600 ≤ 2 ^ 16) :
    ∃ image, oneFileImage vbr = some image ∧ ∃ fuel bx found load,
      stage2Resolve (diskMachine image (vbr.hiddenSectors + vbr.totalSectors32))
        (stage2Init 0x80 vbr) fuel [shortNameBytes [97]] vbr.rootCluster (fun _ => 0) =
          some (some bx, found) ∧
      fat32LoadFile (diskMachine image (vbr.hiddenSectors + vbr.totalSectors32))
        (stage2Init 0x80 vbr) fuel
        (stage2EntryCluster (diskMachine image (vbr.hiddenSectors + vbr.totalSectors32)) bx found)
        kernelLoadSeg 0 found = some load ∧ load.carry = false := by
  obtain ⟨image, made, reads⟩ := reads
  have looked : oneFileTree.lookup [[97]] =
      some (.file [97] 0 [97] (List.replicate 600 (0 : UInt8)).length) := by
    rw [List.length_replicate]
    rfl
  have below : kernelLoadSeg * 16 + 0 + loadedSize vbr (List.replicate 600 (0 : UInt8)).length ≤
      2 ^ 20 := by
    rw [List.length_replicate, kernelLoadSeg]
    omega
  obtain ⟨fuel, bx, found, load, resolved, -, ran, success, -⟩ := reads _ 0x80
    (diskMachine_serves image _ 0x80) [[97]] [97] 0 [97] _ looked rfl kernelLoadSeg 0 (fun _ => 0)
    le_rfl (Nat.dvd_zero _) (by decide) below
  exact ⟨image, made, fuel, bx, found, load, resolved, ran, success⟩

/-- The cluster that Stage2 finds in the root. -/
theorem stage2Resolve_single (disk : Stage2Disk machine ctx image total) {root first : ℕ}
    (inside : ctx.Inside total root) (first_lt : first < 2 ^ 32)
    (held : (List.range 32).map (fun i => image (512 * ctx.clusterLba root + i)) =
      (fsEntry (.file [97] first [97] 600)).bytes)
    (resolved : stage2Resolve machine ctx fuel [shortNameBytes [97]] root mem =
      some (some bx, found)) : stage2EntryCluster machine bx found = first := by
  have named : ShortName (FsNode.file [97] first [97] 600).name := oneFileTree_named
  have entries : Holds image (512 * ctx.clusterLba root)
      ((fsDirectoryEntries none root [.file [97] first [97] 600]).flatMap FatDirEntry.bytes) := by
    have single : (fsDirectoryEntries none root [.file [97] first [97] 600]).flatMap
        FatDirEntry.bytes = (fsEntry (.file [97] first [97] 600)).bytes :=
      List.append_nil _
    rw [single, ← held]
    intro index index_lt
    rw [List.getElem_map, List.getElem_range]
  cases fuel with
  | zero => cases resolved
  | succ fuel =>
      have positive := disk.sectors_pos
      obtain ⟨bx', found', scanned, entry⟩ := fat32FindEntry_child disk inside
        (List.forall_mem_singleton.mpr named) (List.nodup_singleton _)
        (by change 32 * (0 + 1) ≤ _; omega) entries
        (List.mem_singleton_self _) fuel mem
      have same := scanned.symm.trans resolved
      cases same
      exact (stage2Entry_of_holds (fsEntry_comparable named).1.named first_lt
        (by decide : 600 < 2 ^ 32) entry).1

/-- How Stage2 would load the file, with clusters of one sector, once it has found the first one. -/
theorem oneFileImage_loads {first entry : ℕ}
    (reads : Stage2ReadsImage vbr (fun _ => 0) (fun _ => 0) (sizedHost 600) oneFileTree)
    (small : loadedSize vbr 600 ≤ 2 ^ 16)
    (addressable : vbr.hiddenSectors + vbr.totalSectors32 ≤ 2 ^ 32)
    (sectors : vbr.sectorsPerCluster = 1) (bytes : (stage2Init 0x80 vbr).bytesPerCluster = 512)
    (root : (stage2Init 0x80 vbr).Inside (vbr.hiddenSectors + vbr.totalSectors32) vbr.rootCluster)
    (inside : (stage2Init 0x80 vbr).Inside (vbr.hiddenSectors + vbr.totalSectors32) first)
    (first_lt : first < 2 ^ 32)
    (stored : (oneFileImage vbr).map (fun image =>
      ((List.range 32).map fun i =>
          image (512 * (stage2Init 0x80 vbr).clusterLba vbr.rootCluster + i),
        (stage2Init 0x80 vbr).fatEntry image first)) =
      some ((fsEntry (.file [97] first [97] 600)).bytes, entry)) :
    entry ≠ 0x0FFFFFF7 ∧ (entry < 0x0FFFFFF8 → ∃ image fuel es si mem load,
      fat32LoadFile (diskMachine image (vbr.hiddenSectors + vbr.totalSectors32))
        (stage2Init 0x80 vbr) fuel entry es si mem = some load ∧ load.carry = false) := by
  obtain ⟨image, made, fuel, bx, found, load, resolved, ran, success⟩ :=
    oneFileImage_reads reads small
  rw [made, Option.map_some, Option.some.injEq, Prod.mk.injEq] at stored
  have disk : Stage2Disk (diskMachine image (vbr.hiddenSectors + vbr.totalSectors32))
      (stage2Init 0x80 vbr) image (vbr.hiddenSectors + vbr.totalSectors32) :=
    ⟨diskMachine_serves image _ 0x80, addressable, by change 0 < vbr.sectorsPerCluster; omega,
      by change vbr.sectorsPerCluster ≤ 127; omega⟩
  have size_eq : 512 = 512 * (stage2Init 0x80 vbr).sectorsPerCluster := by
    change 512 = 512 * vbr.sectorsPerCluster
    rw [sectors]
  rw [stage2Resolve_single disk root first_lt stored.1 resolved] at ran
  cases fuel with
  | zero => cases ran
  | succ fuel =>
      obtain ⟨mem', step, -⟩ := fat32LoadFile_succ disk size_eq bytes (by decide) inside
        (by decide : 0 + 512 ≤ 2 ^ 16)
        (.inl (by decide : 0x2000 + 512 ≤ kernelLoadSeg * 16 + 0)) (by decide) fuel found
      rw [step] at ran
      simp only [stored.2] at ran
      have unmarked : entry ≠ 0x0FFFFFF7 := by
        intro marked
        rw [if_pos marked] at ran
        obtain rfl := Option.some.inj ran
        cases success
      refine ⟨unmarked, fun inner => ?_⟩
      rw [if_neg unmarked, if_neg (by omega)] at ran
      exact ⟨image, fuel, _, _, mem', load, ran, success⟩

/-- A directory that starts with a zero byte has no entries. -/
theorem fat32FindEntry_ended (disk : Stage2Disk machine ctx image total) {cluster lba : ℕ}
    (lba_eq : fat32ClusterToLba ctx cluster = lba) (inside : lba < total)
    (ended : image (512 * lba) = 0) (name : List UInt8) (fuel : ℕ) (mem : ByteMemory) :
    ∃ mem', fat32FindEntry machine ctx name (fuel + 1) cluster mem = some (none, mem') := by
  have positive := disk.sectors_pos
  have fits := machine.fits
  obtain ⟨left, sectors⟩ : ∃ left, ctx.sectorsPerCluster = left + 1 :=
    ⟨ctx.sectorsPerCluster - 1, by omega⟩
  have first : mem.blit machine.bufDir 512 (fun i => image (512 * lba + i)) (machine.bufDir + 0) =
      image (512 * lba + 0) := ByteMemory.blit_of_inside (by decide)
  rw [Nat.add_zero, Nat.add_zero, ended] at first
  refine ⟨mem.blit machine.bufDir 512 fun i => image (512 * lba + i), ?_⟩
  rw [fat32FindEntry, if_neg (by omega), sectors, lba_eq, fat32SectorLoop,
    diskReadLba_buffer disk.serves inside (by rw [Stage2Machine.bufDir]; omega)]
  simp only [fat32EntryLoop, if_pos first]

/-- Without a table, the reader follows the bytes of the root to the cluster zero. -/
theorem noTableVbr_unread :
    ¬ Stage2ReadsImage noTableVbr (fun _ => 0) (fun _ => 0) (sizedHost 600) oneFileTree := by
  intro reads
  have loads := @oneFileImage_loads noTableVbr 3 0 reads (by decide) (by decide) rfl (by decide)
    ⟨by decide, by decide, by decide⟩ ⟨by decide, by decide, by decide⟩ (by decide)
    (by decide +kernel)
  obtain ⟨image, fuel, es, si, mem, load, ran, success⟩ := loads.2 (by decide)
  cases fuel with
  | zero => cases ran
  | succ fuel =>
      have outside : stage2ReadCluster
          (diskMachine image (noTableVbr.hiddenSectors + noTableVbr.totalSectors32))
          (stage2Init 0x80 noTableVbr) 0 es si mem = (true, mem) := rfl
      rw [fat32LoadFile, outside] at ran
      obtain rfl := Option.some.inj ran
      cases success

/-- The second cluster of the file has the number of the mark. -/
theorem badMarkVbr_unread :
    ¬ Stage2ReadsImage badMarkVbr (fun _ => 0) (fun _ => 0) (sizedHost 600) oneFileTree := by
  intro reads
  have loads := @oneFileImage_loads badMarkVbr 0x0FFFFFF6 0x0FFFFFF7 reads (by decide) (by decide)
    rfl (by decide) ⟨by decide, by decide, by decide⟩ ⟨by decide, by decide, by decide⟩
    (by decide) (by decide +kernel)
  exact loads.1 rfl

/-- The numbers of the sectors wrap, and the reader sees no entries. -/
theorem farVbr_unread :
    ¬ Stage2ReadsImage farVbr (fun _ => 0) (fun _ => 0) (sizedHost 600) oneFileTree := by
  intro reads
  obtain ⟨image, made, fuel, bx, found, load, resolved, -⟩ := oneFileImage_reads reads (by decide)
  have stored : (oneFileImage farVbr).map (fun image => image (512 * 2048)) = some 0 := by
    decide +kernel
  rw [made, Option.map_some, Option.some.injEq] at stored
  have disk : Stage2Disk (diskMachine image (farVbr.hiddenSectors + farVbr.totalSectors32))
      (stage2Init 0x80 farVbr) image (2 ^ 32) :=
    ⟨(diskMachine_serves image _ 0x80).mono (by decide), le_rfl, by decide, by decide⟩
  cases fuel with
  | zero => cases resolved
  | succ fuel =>
      have lba_eq : fat32ClusterToLba (stage2Init 0x80 farVbr) 2 = 2048 := by decide
      obtain ⟨mem', ended⟩ := fat32FindEntry_ended disk lba_eq (by decide) stored
        (shortNameBytes [97]) fuel fun _ => 0
      cases ended.symm.trans resolved

end

end ItWorksOS
