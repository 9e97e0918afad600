import ItWorksOS.Boot.E820
import ItWorksOS.Boot.Stage2Entry

/-!
# From the first sector to the kernel

`mkimage` and the three stages of the boot loader compute the places of all data for themselves. On
an image with `/boot/stage2.bin`, `/boot/kernel.bin` and `/bin/system.bin`, each stage finds what it
looks for where the one before left it, and the kernel starts with both files in memory.
-/

namespace ItWorksOS

/-- The steps of `main`, which reads the place of the volume from the first entry of the table and
the parameters from the sector of the VBR. -/
def mkimageMain (mbr vbrSector : ℕ → UInt8) (host : HostFiles) (root : FsNode) :
    Option ByteMemory :=
  mkimage (Vbr.read vbrSector 0) mbr vbrSector (ByteMemory.read32 mbr (446 + 8)) host root

/-- The boot sectors describe one volume: the first active entry of the table and the first entry
lead to it, it has the type FAT32, and the sector itself is reserved. -/
structure BootSectors (mbr vbrSector : ℕ → UInt8) (k : ℕ) : Prop where
  active : FirstActive (fun i => mbr (446 + i)) k
  type : mbr (446 + 16 * k + 4) = 0x0C
  lba : ByteMemory.read32 mbr (446 + 16 * k + 8) = (Vbr.read vbrSector 0).hiddenSectors
  first_lba : ByteMemory.read32 mbr (446 + 8) = (Vbr.read vbrSector 0).hiddenSectors
  hidden : 0 < (Vbr.read vbrSector 0).hiddenSectors
  reserved : 0 < (Vbr.read vbrSector 0).reservedSectors
  sectors16 : readLe16 vbrSector (11 + 8) = 0

/-- The tree has a file with these contents, at a path with these short names. -/
def HasFile (host : HostFiles) (root : FsNode) (names : List (List UInt8)) (bytes : List UInt8) :
    Prop :=
  ∃ path name cluster hostPath, path.map shortNameBytes = names ∧
    root.lookup path = some (.file name cluster hostPath bytes.length) ∧
    host hostPath = some bytes

/-- The files of the boot loader, with the room that the places in memory leave for them. -/
structure BootFiles (vbr : Vbr) (host : HostFiles) (root : FsNode)
    (stage2 kernel system : List UInt8) : Prop where
  stage2_file : HasFile host root [bootDir, stage2File] stage2
  kernel_file : HasFile host root [bootDir, kernelFile] kernel
  system_file : HasFile host root [binDir, systemFile] system
  stage2_room : clusterLoadOff + loadedSize vbr stage2.length ≤ mbrPartitionTable
  kernel_room : kernelLoadAddr + loadedSize vbr kernel.length ≤ systemLoadAddr
  system_room : systemLoadAddr + loadedSize vbr system.length ≤ 2 ^ 20

/-- The BIOS serves the disk with extended reads, describes its memory with entries of at least 20
bytes, and has set the text mode. -/
structure BootMachine.Serves (machine : BootMachine) (drive : ℕ) (disk : ByteMemory) (total : ℕ)
    (entries : List (List UInt8)) : Prop where
  disk : machine.bios.Serves drive disk total
  confined : machine.bios.Confined
  extended : diskCheckLbaExtensions (machine.extensions drive) = false
  describes : Describes entries machine.memoryMap
  long : ∀ entry ∈ entries, 20 ≤ entry.length
  some : 0 < entries.length
  few : entries.length ≤ e820MaxEntries
  text : machine.video.al = 0x03

/-! ## Parameters in memory -/

section

variable {left right : ByteMemory} {source target : ℕ}

/-- The parameter block of a sector depends on its first bytes only. -/
theorem Vbr.read_shift (agree : ∀ offset < 48, left (target + offset) = right (source + offset)) :
    Vbr.read left target = Vbr.read right source := by
  have two {field : ℕ} (inside : field + 2 ≤ 48) :
      readLe16 left (target + field) = readLe16 right (source + field) := by
    refine readLe16_congr fun offset small => ?_
    rw [Nat.add_assoc, Nat.add_assoc]
    exact agree _ (by omega)
  have four {field : ℕ} (inside : field + 4 ≤ 48) :
      readLe32 left (target + field) = readLe32 right (source + field) := by
    refine readLe32_congr fun offset small => ?_
    rw [Nat.add_assoc, Nat.add_assoc]
    exact agree _ (by omega)
  simp only [Vbr.read, @two 11 (by decide), @two 14 (by decide), @four 28 (by decide),
    @four 32 (by decide), @four 36 (by decide), @four 44 (by decide), agree 13 (by decide),
    agree 16 (by decide), agree 21 (by decide)]

end

/-! ## Stage2 -/

section

variable {vbr : Vbr} {host : HostFiles} {mbr vbrSector : ℕ → UInt8} {root : FsNode}
  {image mem : ByteMemory} {name : CString} {nodes : List FsNode} {dl : ℕ} {bytes : List UInt8}

/-- A partition with room for a tree has sectors. -/
theorem BootVolume.totalSectors32_pos (volume : BootVolume vbr root) : 0 < vbr.totalSectors32 := by
  have above := volume.root_cluster
  have partition := volume.partition
  have positive := treeClusters_pos vbr root
  refine Nat.pos_of_ne_zero fun empty => ?_
  rw [dataClusters, empty, Nat.zero_sub, Nat.zero_sub, Nat.zero_div] at partition
  omega

/-- The parameters of a volume with room for a tree pass the checks. -/
theorem stage2Validate_of_volume (volume : BootVolume.Regular vbr root)
    {parameters : Stage2Parameters} (same : parameters.vbr = vbr)
    (active : parameters.bootIndicator = 0x80) (type : parameters.partitionType = 0x0C)
    (lba : parameters.lbaStart = vbr.hiddenSectors) (hidden : 0 < vbr.hiddenSectors)
    (sectors16 : parameters.totalSectors16 = 0) : stage2Validate parameters = none := by
  have above := volume.root_cluster
  have copied := volume.copied
  have sectors := volume.sectors_pos
  have table := volume.table
  have total_ne : vbr.totalSectors32 ≠ 0 := Nat.pos_iff_ne_zero.mp volume.totalSectors32_pos
  have table_ne : vbr.fatSize32 ≠ 0 := by
    intro empty
    rw [fat32Entries, empty, Nat.zero_mul] at table
    omega
  rw [stage2Validate, same, if_neg (not_not_intro active), if_neg (not_not_intro type),
    if_neg (not_not_intro lba), lba, if_neg (Nat.pos_iff_ne_zero.mp hidden),
    if_neg (not_not_intro volume.sector_size), if_neg (Nat.pos_iff_ne_zero.mp sectors),
    if_neg (Nat.pos_iff_ne_zero.mp copied), if_neg (Nat.not_lt.mpr above),
    if_neg (not_not_intro sectors16), if_neg total_ne, if_neg table_ne]

/-- Stage2 loads a file of the image, and changes no other memory but its buffers. -/
theorem stage2LoadPath_file {machine : Stage2Machine}
    (boot : BootImage vbr host mbr vbrSector root image name nodes)
    (volume : BootVolume.Regular vbr root) (bootable : root.Bootable vbr 0)
    (disk : Stage2Disk machine (stage2Init dl vbr) image (treeEndLba vbr root))
    (confined : machine.bios.Confined) {path : List CString} {fileName hostPath : CString}
    {fileCluster : ℕ}
    (found : root.lookup path = some (.file fileName fileCluster hostPath bytes.length))
    (opened : host hostPath = some bytes) {es : ℕ} (high : kernelLoadSeg ≤ es)
    (below : es * 16 + loadedSize vbr bytes.length ≤ 2 ^ 20) {fuel : ℕ}
    (fueled : (FsNode.file fileName fileCluster hostPath bytes.length).clusterCount vbr < fuel)
    (mem : ByteMemory) :
    ∃ loaded : ByteMemory, stage2LoadPath machine (stage2Init dl vbr) fuel
        (path.map shortNameBytes) es mem = some (some (bytes.length, loaded)) ∧
      Loaded vbr loaded (es * 16) bytes ∧
      ∀ address, machine.Unbuffered address →
        (address < es * 16 ∨ es * 16 + loadedSize vbr bytes.length ≤ address) →
          loaded address = mem address := by
  obtain ⟨sized, proper, divides⟩ := volume.clusterSize_dvd
  have named := volume.named
  have fits := machine.fits
  unfold kernelLoadSeg at high
  obtain ⟨first, stored⟩ := boot.lookup found
  obtain ⟨fuel, rfl⟩ : ∃ left, fuel = left + 1 := ⟨fuel - 1, by omega⟩
  obtain ⟨bx, resolved, ran, entry, short, parent, listed⟩ := stage2Resolve_file
    volume.toReadable disk boot.held (List.mem_cons_self ..) (bootable.unassign boot.same) stored
    fuel mem
  obtain ⟨chain, holds⟩ := boot.held _ listed fun file source => by
    obtain rfl := Option.some.inj source
    exact ⟨bytes, opened, rfl⟩
  have first_lt : first < vbr.rootCluster + treeClusters vbr root := holds.first_inside.2
  have size_le := le_loadedSize sized bytes.length
  obtain ⟨cluster_eq, size_eq⟩ := stage2Entry_of_holds
    (fsEntry_comparable short).1.named (show first < 2 ^ 32 by omega)
    (show bytes.length < 2 ^ 32 by omega) entry
  have loaded_eq : chain.length * fat32ClusterSize vbr = loadedSize vbr bytes.length :=
    congrArg (· * fat32ClusterSize vbr) holds.length
  have length_eq : chain.length =
      (FsNode.file fileName fileCluster hostPath bytes.length).clusterCount vbr := holds.length
  obtain ⟨rest, rfl⟩ : ∃ rest, chain = first :: rest := fatChain_head holds.follow
  have leads : FatLeads ((stage2Init dl vbr).fatEntry image) (first :: rest) := by
    rw [funext (volume.fatEntry image)]
    refine fatLeads_of_fatChain holds.follow fun c member => ?_
    have := (holds.inside c member).2
    omega
  rw [List.length_cons] at loaded_eq length_eq
  rw [← loaded_eq] at below ⊢
  have place : es * 16 + 0 = es * 16 := Nat.add_zero _
  obtain ⟨load, load_ran, success, read, kept⟩ := fat32LoadFile_chain disk volume.clusterSize_eq
    volume.bytesPerCluster proper divides leads
    (fun c member => volume.inside (holds.inside c member).1 (holds.inside c member).2)
    (Nat.dvd_zero _) (by decide) (.inl (by omega)) (place.symm ▸ below)
    (show rest.length < fuel + 1 by omega) resolved
  rw [place] at read kept
  refine ⟨load.mem, ?_, holds.loaded volume opened read, fun address unbuffered outside => ?_⟩
  · rw [stage2LoadPath, show (stage2Init dl vbr).rootCluster = vbr.rootCluster from rfl, ran]
    simp only
    rw [cluster_eq, show (fsEntry (.file fileName first hostPath bytes.length)).cluster =
      first from rfl, load_ran]
    simp only [success, size_eq]
    rfl
  · have apart : machine.Apart address (address + 1) := by
      unfold Stage2Machine.Apart
      unfold Stage2Machine.Unbuffered at unbuffered
      omega
    exact (kept address apart outside).trans (stage2Resolve_unbuffered confined ran unbuffered)

end

/-- The boot information of a machine whose memory has this number of entries. -/
def BootMachine.info (machine : BootMachine) (count size : ℕ) : BootInfo where
  memoryMapCount := count
  memoryMapPhys := machine.e820Buffer
  video := le32 1 ++ [machine.video.al, machine.video.bh, machine.video.ah, 25] ++
    le32 0x000B8000 ++ le32 0
  systemImage := systemLoadAddr
  systemImageSize := size

/-- What Stage2 hands over to the kernel: the boot information, and the entries of the memory map in
the buffer that it points to. -/
structure HandsOver (machine : BootMachine) (entries : List (List UInt8)) (size : ℕ)
    (mem : ByteMemory) : Prop where
  info : BootInfo.read mem machine.bootInfo = machine.info entries.length size
  entries : ∀ i entry, entries[i]? = some entry →
    Holds mem (machine.e820Buffer + e820EntrySize * i) (e820Slot entry)

section

variable {machine : BootMachine} {drive total size : ℕ} {disk mem : ByteMemory}
  {entries : List (List UInt8)}

/-- The stores to `e820_count` and to the fields of `boot_info` but for the system executable. -/
def BootMachine.storeInfo (machine : BootMachine) (count : ℕ) (mem : ByteMemory) : ByteMemory :=
  ((mem.store machine.e820Count (le16 (UInt16.ofNat count))).store machine.bootInfo
    (le16 (UInt16.ofNat count) ++ (le32 (UInt32.ofNat machine.e820Buffer) ++ le32 0))).store
      (machine.bootInfo + 10) (machine.info count 0).video

theorem storeInfo_of_outside {count address : ℕ}
    (outside : address < machine.e820Count ∨ machine.bootInfo + 26 ≤ address) :
    machine.storeInfo count mem address = mem address := by
  unfold BootMachine.bootInfo at outside
  have two (value : UInt16) : (le16 value).length = 2 := rfl
  have four (value : UInt32) : (le32 value).length = 4 := rfl
  have video : (machine.info count 0).video.length = 16 := rfl
  unfold BootMachine.storeInfo BootMachine.bootInfo
  rw [ByteMemory.store_of_outside (by rw [video]; omega),
    ByteMemory.store_of_outside (by simp only [List.length_append, two, four]; omega),
    ByteMemory.store_of_outside (by rw [two]; omega)]

/-- The stores leave the boot information, if the fields of the system executable lie behind
them. -/
theorem storeInfo_stored {count : ℕ}
    (image : Holds mem (machine.bootInfo + 26)
      (le32 (UInt32.ofNat systemLoadAddr) ++ le32 0 ++ le32 (UInt32.ofNat size))) :
    (machine.info count size).Stored (machine.storeInfo count mem) machine.bootInfo := by
  have two (value : UInt16) : (le16 value).length = 2 := rfl
  have four (value : UInt32) : (le32 value).length = 4 := rfl
  have image_kept : Holds (machine.storeInfo count mem) (machine.bootInfo + 26)
      (le32 (UInt32.ofNat systemLoadAddr) ++ le32 0 ++ le32 (UInt32.ofNat size)) :=
    image.of_same fun target lower _ => storeInfo_of_outside (.inr lower)
  have head : Holds (machine.storeInfo count mem) machine.bootInfo
      (le16 (UInt16.ofNat count) ++ (le32 (UInt32.ofNat machine.e820Buffer) ++ le32 0)) := by
    refine (holds_store (mem.store machine.e820Count (le16 (UInt16.ofNat count))) _ _).of_same
      fun target _ upper => ?_
    simp only [List.length_append, two, four] at upper
    exact ByteMemory.store_of_outside (.inl (by omega))
  obtain ⟨count_held, map_held⟩ := holds_append.mp head
  obtain ⟨image_held, size_held⟩ := holds_append.mp image_kept
  exact ⟨count_held, map_held, holds_store _ _ _, image_held, size_held⟩

theorem stage2HandOver_hands (serves : machine.Serves drive disk total entries)
    (size_lt : size < 2 ^ 32) (mem : ByteMemory) :
    ∃ after, stage2HandOver machine size mem =
        some (.kernel bootMagic machine.bootInfo after) ∧
      HandsOver machine entries size after ∧
      ∀ address, 2 ^ 16 ≤ address → after address = mem address := by
  have fits := machine.data_fits
  have buffer_eq : machine.e820Buffer = machine.bufFat + 1054 := by
    unfold BootMachine.e820Buffer
    omega
  have count_at : machine.e820Count = machine.e820Buffer + 1536 := rfl
  have info_at : machine.bootInfo = machine.e820Buffer + 1538 := rfl
  have few := serves.few
  have slots : e820MaxEntries * e820EntrySize = 1536 := rfl
  have slot : e820EntrySize = 24 := rfl
  have max : e820MaxEntries = 64 := rfl
  obtain ⟨out, ran, carry, cx, held, kept⟩ := @e820NextEntry_entries
    ⟨mem.store (machine.bootInfo + 26)
      (le32 (UInt32.ofNat systemLoadAddr) ++ le32 0 ++ le32 (UInt32.ofNat size)), []⟩
    machine.e820Buffer 0 entries machine.memoryMap serves.describes serves.long (by omega)
    (by omega) (by rw [Nat.zero_add]; exact serves.some)
  rw [Nat.mul_zero, Nat.add_zero] at ran kept
  rw [Nat.zero_add] at cx
  have image : Holds out.mem.bytes (machine.bootInfo + 26)
      (le32 (UInt32.ofNat systemLoadAddr) ++ le32 0 ++ le32 (UInt32.ofNat size)) :=
    (holds_store _ _ _).of_same fun target lower _ => kept target (.inr (by omega))
  have narrow : (machine.info entries.length size).Narrow :=
    ⟨show entries.length < 2 ^ 16 by omega, show machine.e820Buffer < 2 ^ 32 by omega, rfl,
      by change systemLoadAddr < 2 ^ 32; decide, size_lt⟩
  refine ⟨machine.storeInfo entries.length out.mem.bytes, ?_,
    ⟨BootInfo.read_of_stored narrow (storeInfo_stored image), fun i entry at_i => ?_⟩,
    fun address high => ?_⟩
  · rw [stage2HandOver]
    simp only [e820GetMemoryMap, ran, carry, cx]
    rw [if_neg Bool.false_ne_true, videoDetectMode, if_pos serves.text]
    rfl
  · have i_lt := (List.getElem?_eq_some_iff.mp at_i).1
    have entry_held := held i entry at_i
    rw [Nat.zero_add] at entry_held
    have member := List.mem_of_getElem? at_i
    have length : (e820Slot entry).length = 24 :=
      e820Slot_length (serves.long entry member) (serves.describes.fits entry member)
    have offset : e820EntrySize * i = 24 * i := rfl
    exact entry_held.of_same fun target _ upper => storeInfo_of_outside (.inl (by omega))
  · rw [storeInfo_of_outside (.inr (by omega)), kept address (.inr (by omega))]
    refine ByteMemory.store_of_outside (.inr ?_)
    simp only [List.length_append, show ∀ value : UInt32, (le32 value).length = 4 from fun _ => rfl]
    omega

/-- The first stage loads the sector of the active partition. -/
theorem mbrStage_loads {mbr : ℕ → UInt8} {k lba : ℕ}
    (serves : machine.Serves drive disk total entries)
    (active : FirstActive (fun i => mbr (446 + i)) k)
    (lba_eq : ByteMemory.read32 mbr (446 + 16 * k + 8) = lba) (inside : lba < total)
    (held : ∀ i < 512, mem (0x7C00 + i) = mbr i) :
    mbrStage machine.bios machine.extensions drive mem =
      .vbr drive (mbrPartitionTable + 16 * k)
        (mem.blit 0x0500 512 fun i => disk (512 * lba + i)) := by
  have k_lt := active.inside
  have table : mbrPartitionTable = 0x7C00 + 446 := rfl
  have found : findActivePartition mem mbrPartitionTable = 16 * k := by
    refine findActivePartition_found active (by decide) fun i small => ?_
    rw [table, Nat.add_assoc]
    exact held (446 + i) (by omega)
  have read_lba : mem.read32 (mbrPartitionTable + 16 * k + 8) = lba := by
    rw [← lba_eq]
    refine ByteMemory.read32_shift fun offset small => ?_
    rw [show mbrPartitionTable + 16 * k + 8 + offset =
      0x7C00 + (446 + 16 * k + 8 + offset) by omega]
    exact held _ (by omega)
  have read := diskReadLba_of_serves serves.disk 0 0x0500 mem Nat.zero_lt_one (by decide)
    (show lba + 1 ≤ total from inside) (by decide) (by decide)
  simp only [mbrStage, found, read_lba, serves.extended, read]
  rw [if_neg (by omega), if_neg Bool.false_ne_true]

end

section

variable {mbr vbrSector : ℕ → UInt8} {k drive fuel : ℕ} {host : HostFiles} {root : FsNode}
  {image mem : ByteMemory} {name : CString} {nodes : List FsNode} {machine : BootMachine}
  {entries : List (List UInt8)} {kernel system : List UInt8}

/-- The first bytes of the table and of the sector that Stage2 reads. -/
structure StagesKept (mbr vbrSector : ℕ → UInt8) (mem : ByteMemory) : Prop where
  table : ∀ i < 64, mem (mbrPartitionTable + i) = mbr (446 + i)
  sector : ∀ i < 48, mem (0x0500 + i) = vbrSector i

theorem StagesKept.parameters (kept : StagesKept mbr vbrSector mem)
    (sectors : BootSectors mbr vbrSector k) :
    Stage2Parameters.copy mem (mbrPartitionTable + 16 * k) 0x0500 =
      { bootIndicator := 0x80
        partitionType := 0x0C
        lbaStart := (Vbr.read vbrSector 0).hiddenSectors
        totalSectors16 := 0
        vbr := Vbr.read vbrSector 0 } := by
  have k_lt := sectors.active.inside
  have table {i : ℕ} (small : 16 * k + i < 64) :
      mem (mbrPartitionTable + 16 * k + i) = mbr (446 + 16 * k + i) := by
    rw [Nat.add_assoc, Nat.add_assoc]
    exact kept.table _ small
  have indicator : mem (mbrPartitionTable + 16 * k) = 0x80 :=
    (kept.table (16 * k) (by omega)).trans sectors.active.active
  have type : mem (mbrPartitionTable + 16 * k + 4) = 0x0C :=
    (table (by omega)).trans sectors.type
  have lba : mem.read32 (mbrPartitionTable + 16 * k + 8) =
      (Vbr.read vbrSector 0).hiddenSectors := by
    rw [← sectors.lba]
    refine ByteMemory.read32_shift fun offset small => ?_
    rw [Nat.add_assoc (mbrPartitionTable + 16 * k), Nat.add_assoc (446 + 16 * k)]
    exact table (by omega)
  have sectors16 : readLe16 mem (0x0500 + 11 + 8) = 0 := by
    rw [← sectors.sectors16]
    refine readLe16_congr fun offset small => ?_
    rw [show 0x0500 + 11 + 8 + offset = 0x0500 + (11 + 8 + offset) by omega]
    exact kept.sector _ (by omega)
  have block : Vbr.read mem 0x0500 = Vbr.read vbrSector 0 := by
    refine Vbr.read_shift fun offset small => ?_
    rw [Nat.zero_add]
    exact kept.sector offset small
  simp only [Stage2Parameters.copy, indicator, type, lba, sectors16, block]
  rfl

/-- `stage2_entry` loads the kernel and the system executable, and jumps to the kernel. -/
theorem stage2Entry_loads (sectors : BootSectors mbr vbrSector k)
    (boot : BootImage (Vbr.read vbrSector 0) host mbr vbrSector root image name nodes)
    (volume : BootVolume.Regular (Vbr.read vbrSector 0) root)
    (bootable : root.Bootable (Vbr.read vbrSector 0) 0)
    (serves : machine.Serves drive image
      ((Vbr.read vbrSector 0).hiddenSectors + (Vbr.read vbrSector 0).totalSectors32) entries)
    (kernel_file : HasFile host root [bootDir, kernelFile] kernel)
    (system_file : HasFile host root [binDir, systemFile] system)
    (kernel_room : kernelLoadAddr + loadedSize (Vbr.read vbrSector 0) kernel.length ≤
      systemLoadAddr)
    (system_room : systemLoadAddr + loadedSize (Vbr.read vbrSector 0) system.length ≤ 2 ^ 20) :
    ∃ enough, ∀ fuel mem, enough ≤ fuel → StagesKept mbr vbrSector mem → ∃ after,
      stage2Entry machine fuel drive (mbrPartitionTable + 16 * k) 0x0500 mem =
        some (.kernel bootMagic machine.bootInfo after) ∧
      HandsOver machine entries system.length after ∧
      Loaded (Vbr.read vbrSector 0) after kernelLoadAddr kernel ∧
      Loaded (Vbr.read vbrSector 0) after systemLoadAddr system := by
  have hidden := sectors.hidden
  have copied (mem : ByteMemory) (kept : StagesKept mbr vbrSector mem) := kept.parameters sectors
  generalize Vbr.read vbrSector 0 = vbr at *
  obtain ⟨kernelPath, kernelName, kernelCluster, kernelHost, kernel_names, kernel_found,
    kernel_opened⟩ := kernel_file
  obtain ⟨systemPath, systemName, systemCluster, systemHost, system_names, system_found,
    system_opened⟩ := system_file
  have disk : Stage2Disk machine.toStage2Machine (stage2Init drive vbr) image
    (treeEndLba vbr root) := volume.disk serves.disk
  have kernel_place : kernelLoadSeg * 16 = kernelLoadAddr := rfl
  have system_place : systemLoadSeg * 16 = systemLoadAddr := rfl
  refine ⟨(FsNode.file kernelName kernelCluster kernelHost kernel.length).clusterCount vbr +
    (FsNode.file systemName systemCluster systemHost system.length).clusterCount vbr + 1,
    fun fuel mem fueled kept => ?_⟩
  have parameters := copied mem kept
  have kernel_few : (FsNode.file kernelName kernelCluster kernelHost kernel.length).clusterCount
    vbr < fuel := by omega
  have system_few : (FsNode.file systemName systemCluster systemHost system.length).clusterCount
    vbr < fuel := by omega
  obtain ⟨kernelMem, kernel_ran, kernel_loaded, -⟩ := stage2LoadPath_file boot volume bootable disk
    serves.confined kernel_found kernel_opened le_rfl
    (by rw [kernel_place]; exact kernel_room.trans (by decide)) kernel_few mem
  obtain ⟨systemMem, system_ran, system_loaded, system_kept⟩ := stage2LoadPath_file boot volume
    bootable disk serves.confined system_found system_opened
    (by decide : kernelLoadSeg ≤ systemLoadSeg)
    (by rw [system_place]; exact system_room) system_few kernelMem
  have system_le := le_loadedSize volume.clusterSize_dvd.1 system.length
  obtain ⟨after, handed, hands, high_kept⟩ :=
    stage2HandOver_hands serves (show system.length < 2 ^ 32 by omega) systemMem
  rw [kernel_place] at kernel_loaded
  rw [system_place] at system_loaded system_kept
  have low : kernelLoadAddr = 2 ^ 16 := rfl
  have high : 2 ^ 16 ≤ systemLoadAddr := by decide
  have fits := machine.fits
  have valid := stage2Validate_of_volume volume (congrArg Stage2Parameters.vbr parameters)
    (congrArg Stage2Parameters.bootIndicator parameters)
    (congrArg Stage2Parameters.partitionType parameters)
    (congrArg Stage2Parameters.lbaStart parameters) hidden
    (congrArg Stage2Parameters.totalSectors16 parameters)
  refine ⟨after, ?_, hands, kernel_loaded.congr fun target from_kernel to_system => ?_,
    system_loaded.congr fun target from_system _ => high_kept target (by omega)⟩
  · rw [stage2Entry]
    simp only [valid]
    rw [parameters]
    simp only
    rw [← kernel_names, kernel_ran]
    simp only
    rw [← system_names, system_ran]
    exact handed
  · rw [high_kept target (by omega)]
    refine system_kept target ?_ (.inl (by omega))
    unfold Stage2Machine.Unbuffered
    omega

end

/-! ## The whole chain -/

/-- If the boot sectors describe the volume, and the tree has the three files in the room that is
left for them, then from the image that `mkimage` writes the boot loader loads Stage2 to the place
it runs at and jumps to the kernel, with the kernel, the system executable and the boot information
in memory. -/
theorem bootLoader_loads {mbr vbrSector : ℕ → UInt8} {k : ℕ} (host : HostFiles) (name : CString)
    (cluster : ℕ) {children : List FsNode} {stage2 kernel system : List UInt8}
    (sectors : BootSectors mbr vbrSector k)
    (volume : BootVolume.Regular (Vbr.read vbrSector 0) (.directory name cluster children))
    (unassigned : FsNode.Unassigned children)
    (bootable : (FsNode.directory name cluster children).Bootable (Vbr.read vbrSector 0) 0)
    (files : BootFiles (Vbr.read vbrSector 0) host (.directory name cluster children) stage2 kernel
      system) :
    ∃ image, mkimageMain mbr vbrSector host (.directory name cluster children) = some image ∧
      ∀ (machine : BootMachine) (drive : ℕ) (entries : List (List UInt8)) (mem : ByteMemory),
        machine.Serves drive image
          ((Vbr.read vbrSector 0).hiddenSectors + (Vbr.read vbrSector 0).totalSectors32) entries →
        (∀ i < 512, mem (0x7C00 + i) = image i) →
        ∃ fuel vbrMem stage2Mem kernelMem,
          mbrStage machine.bios machine.extensions drive mem =
            .vbr drive (mbrPartitionTable + 16 * k) vbrMem ∧
          bootCode machine.bios fuel drive (mbrPartitionTable + 16 * k) vbrMem =
            some (.stage2 drive (mbrPartitionTable + 16 * k) 0x0500 stage2Mem) ∧
          Loaded (Vbr.read vbrSector 0) stage2Mem clusterLoadOff stage2 ∧
          bootLoader machine fuel drive mem =
            some (.stage2 (.kernel bootMagic machine.bootInfo kernelMem)) ∧
          HandsOver machine entries system.length kernelMem ∧
          Loaded (Vbr.read vbrSector 0) kernelMem kernelLoadAddr kernel ∧
          Loaded (Vbr.read vbrSector 0) kernelMem systemLoadAddr system := by
  obtain ⟨image, nodes, made, boot⟩ :=
    mkimage_bootImage mbr vbrSector host volume unassigned bootable.entriesFit sectors.hidden
      sectors.reserved
  refine ⟨image, by rw [mkimageMain, sectors.first_lba]; exact made, ?_⟩
  intro machine drive entries mem serves first
  have k_lt := sectors.active.inside
  have mbr_ran := @mbrStage_loads machine drive _ image mem entries mbr k _ serves sectors.active
    sectors.lba (Nat.lt_add_of_pos_right volume.totalSectors32_pos)
    fun i small => (first i small).trans (boot.mbr i small)
  obtain ⟨vbrMem, vbrMem_eq⟩ : ∃ vbrMem, mem.blit 0x0500 512 (fun i =>
    image (512 * (Vbr.read vbrSector 0).hiddenSectors + i)) = vbrMem := ⟨_, rfl⟩
  rw [vbrMem_eq] at mbr_ran
  have vbr_kept : StagesKept mbr vbrSector vbrMem := by
    have table : mbrPartitionTable = 0x7C00 + 446 := rfl
    refine ⟨fun i small => ?_, fun i small => ?_⟩
    · rw [← vbrMem_eq, ByteMemory.blit_of_outside (by omega), table, Nat.add_assoc,
        first _ (by omega), boot.mbr _ (by omega)]
    · rw [← vbrMem_eq, ByteMemory.blit_of_inside (by omega), boot.sector i (by omega)]
  have block : Vbr.read vbrMem 0x0500 = Vbr.read vbrSector 0 := by
    refine Vbr.read_shift fun offset small => ?_
    rw [Nat.zero_add]
    exact vbr_kept.sector offset small
  obtain ⟨path, fileName, fileCluster, hostPath, names, found, opened⟩ := files.stage2_file
  obtain ⟨directory, rest, rfl, directory_name, rest_eq⟩ := List.map_eq_cons_iff.mp names
  obtain ⟨file, rest, rfl, file_name, rest_eq⟩ := List.map_eq_cons_iff.mp rest_eq
  obtain rfl := List.map_eq_nil_iff.mp rest_eq
  have disk :
      Stage2Disk machine.toStage2Machine (stage2Init drive (Vbr.read vbrSector 0)) image _ :=
    volume.disk serves.disk
  have load_off : clusterLoadOff = 0x0700 := rfl
  have table_at : mbrPartitionTable = 0x7DBE := rfl
  have buffer_at : fatSecLoadOff = 0x7E00 := rfl
  have room := files.stage2_room
  obtain ⟨enough, reaches⟩ := stage2Entry_loads sectors boot volume bootable serves
    files.kernel_file files.system_file files.kernel_room files.system_room
  obtain ⟨fuel, fueled, enough_le⟩ : ∃ fuel,
      (FsNode.file fileName fileCluster hostPath stage2.length).clusterCount
        (Vbr.read vbrSector 0) ≤ fuel ∧ enough ≤ fuel :=
    ⟨_, Nat.le_add_right .., Nat.le_add_left ..⟩
  obtain ⟨stage2Mem, vbr_ran, stage2_loaded, stage2_kept⟩ := @bootCodeLoad_file
    (Vbr.read vbrSector 0) host mbr vbrSector _ image name fileName hostPath nodes
    machine.toStage2Machine drive (mbrPartitionTable + 16 * k) fileCluster stage2 boot volume
    bootable disk directory file directory_name file_name found opened (by omega) fuel fueled vbrMem
  have kept : StagesKept mbr vbrSector stage2Mem :=
    ⟨fun i small => (stage2_kept _ (by omega) (by omega)).trans (vbr_kept.table i small),
      fun i small => (stage2_kept _ (by omega) (by omega)).trans (vbr_kept.sector i small)⟩
  obtain ⟨kernelMem, reached, hands, kernel_loaded, system_loaded⟩ :=
    reaches fuel stage2Mem enough_le kept
  have code_ran : bootCode machine.bios fuel drive (mbrPartitionTable + 16 * k) vbrMem =
      some (.stage2 drive (mbrPartitionTable + 16 * k) 0x0500 stage2Mem) := by
    rw [bootCode, block]
    exact vbr_ran
  refine ⟨fuel, vbrMem, stage2Mem, kernelMem, mbr_ran, code_ran, stage2_loaded, ?_, hands,
    kernel_loaded, system_loaded⟩
  rw [bootLoader, mbr_ran]
  simp only
  rw [code_ran]
  simp only
  rw [reached, Option.map_some]

/-- The table of `partition_table.asm`, without code before it. -/
def systemMbr : ℕ → UInt8 := fun i =>
  if i < 446 then 0
  else [0x80, 0xFE, 0xFF, 0xFF, 0x0C, 0xFE, 0xFF, 0xFF, 0, 8, 0, 0, 0, 0, 2, 0].getD (i - 446) 0

/-- The parameter block of `bpb.asm` and `ebpb.asm`, without code behind it. -/
def systemVbrSector : ℕ → UInt8 := fun i =>
  if i < 11 then 0
  else [0, 2, 1, 32, 0, 2, 0, 0, 0, 0, 0xF8, 0, 0, 63, 0, 255, 0, 0, 8, 0, 0, 0, 0, 2, 0, 0, 4, 0,
    0, 0, 0, 0, 0, 2, 0, 0, 0].getD (i - 11) 0

theorem read_systemVbrSector : Vbr.read systemVbrSector 0 = systemVbr := rfl

/-- `stage2.bin`. -/
def stage2Name : CString := [115, 116, 97, 103, 101, 50, 46, 98, 105, 110]

/-- `bin`. -/
def binName : CString := [98, 105, 110]

/-- `system.bin`. -/
def systemName : CString := [115, 121, 115, 116, 101, 109, 46, 98, 105, 110]

/-- The tree of `disk.files`, for host files of one size. -/
def systemTree (size : ℕ) : FsNode :=
  .directory [] 0
    [.directory bootName 0
      [.file stage2Name 0 [115] size, .file kernelName 0 [107] size],
    .directory binName 0 [.file systemName 0 [121] size]]

/-- One range of memory. -/
def systemReply : E820Reply :=
  ⟨false, e820Smap, 0, 20, List.replicate 20 0, Nat.le_of_ble_eq_true rfl⟩

theorem diskMachine_data_fits (disk : ByteMemory) (total : ℕ) :
    (diskMachine disk total).bufFat + 2630 ≤ 2 ^ 16 := by
  change 0x2000 + 2630 ≤ 2 ^ 16
  decide

/-- The BIOS of a machine with one drive and one range of memory. -/
def systemMachine (disk : ByteMemory) (total : ℕ) : BootMachine where
  toStage2Machine := diskMachine disk total
  extensions := fun _ => ⟨false, 0xAA55, 1⟩
  memoryMap := [systemReply]
  video := ⟨3, 80, 0⟩
  data_fits := diskMachine_data_fits disk total

theorem systemMachine_serves (disk : ByteMemory) (total drive : ℕ) :
    (systemMachine disk total).Serves drive disk total [List.replicate 20 0] where
  disk := extendedRead_serves disk total drive
  confined := extendedRead_confined disk total
  extended := show diskCheckLbaExtensions ⟨false, 0xAA55, 1⟩ = false by decide
  describes := @Describes.last systemReply [] rfl rfl rfl
  long := by decide
  some := by decide
  few := by decide
  text := rfl

theorem systemNames_short :
    ∀ name ∈ [bootName, binName, stage2Name, kernelName, systemName], ShortName name := by
  simp only [List.forall_mem_cons]
  refine ⟨?_, ?_, ?_, ?_, ?_, List.forall_mem_nil _⟩
  all_goals
    refine ⟨by decide, by decide, by decide, by decide, ?_, by decide⟩
    simp [bootName, binName, stage2Name, kernelName, systemName, shortNameBase, shortNameExtension,
      ShortNameChar]

theorem system_sectors : BootSectors systemMbr systemVbrSector 0 := by
  refine ⟨⟨by decide, by decide, fun j before => by cases before⟩, by decide, rfl, rfl, ?_, ?_, rfl⟩
  · rw [read_systemVbrSector]
    decide
  · rw [read_systemVbrSector]
    decide

theorem system_volume : BootVolume.Regular (Vbr.read systemVbrSector 0) (systemTree 600) := by
  rw [read_systemVbrSector]
  exact ⟨⟨⟨rfl, ⟨0, by decide, rfl⟩, by decide, by decide, by decide⟩, by decide, by decide⟩,
    by decide⟩

theorem system_unassigned : FsNode.Unassigned (systemTree 600).children := by
  simp [systemTree, FsNode.children, FsNode.Unassigned, FsNode.firstCluster]

theorem system_bootable : (systemTree 600).Bootable (Vbr.read systemVbrSector 0) 0 := by
  rw [read_systemVbrSector]
  have named := systemNames_short
  simp only [List.forall_mem_cons] at named
  obtain ⟨boot, bin, stage2, kernel, system, -⟩ := named
  refine .directory 0 [] 0 _ ?_ (by decide) (by decide) ?_
  · exact List.forall_mem_cons.mpr ⟨boot, List.forall_mem_singleton.mpr bin⟩
  · refine List.forall_mem_cons.mpr ⟨.directory 2 _ 0 _ ?_ (by decide) (by decide) ?_,
      List.forall_mem_singleton.mpr (.directory 2 _ 0 _ ?_ (by decide) (by decide) ?_)⟩
    · exact List.forall_mem_cons.mpr ⟨stage2, List.forall_mem_singleton.mpr kernel⟩
    · exact List.forall_mem_cons.mpr ⟨.file .., List.forall_mem_singleton.mpr (.file ..)⟩
    · exact List.forall_mem_singleton.mpr system
    · exact List.forall_mem_singleton.mpr (.file ..)

theorem system_files : BootFiles (Vbr.read systemVbrSector 0) (sizedHost 600) (systemTree 600)
    (List.replicate 600 0) (List.replicate 600 0) (List.replicate 600 0) := by
  rw [read_systemVbrSector]
  have length : (List.replicate 600 (0 : UInt8)).length = 600 := List.length_replicate
  refine ⟨⟨[bootName, stage2Name], stage2Name, 0, [115], by decide, ?_, rfl⟩,
    ⟨[bootName, kernelName], kernelName, 0, [107], by decide, ?_, rfl⟩,
    ⟨[binName, systemName], systemName, 0, [121], by decide, ?_, rfl⟩, ?_, ?_, ?_⟩
  all_goals rw [length]
  · rfl
  · rfl
  · rfl
  · decide
  · decide
  · decide

end ItWorksOS
