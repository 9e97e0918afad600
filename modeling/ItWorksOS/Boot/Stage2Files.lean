import ItWorksOS.Boot.Stage2Reads
import ItWorksOS.Tools.Mkimage.Image

/-!
# Stage2 reads what `mkimage` writes

The writer is 32-bit C and the reader 16-bit assembly; both compute the geometry of the volume, the
chains and the 8.3 names for themselves. On the image of a tree Stage2 finds every file and loads
it.
-/

namespace ItWorksOS

/-! ## The nodes of the image -/

/-- In every directory of the tree the names are short and distinct up to case, and the entries,
with so many dot entries in the root of the tree, fit one cluster. -/
inductive FsNode.Bootable (vbr : Vbr) : ℕ → FsNode → Prop
  | file (dots : ℕ) (name : CString) (cluster : ℕ) (hostPath : CString) (size : ℕ) :
      Bootable vbr dots (.file name cluster hostPath size)
  | directory (dots : ℕ) (name : CString) (cluster : ℕ) (children : List FsNode)
      (named : ∀ child ∈ children, ShortName child.name)
      (distinct : (children.map fun child => child.name.map toupper).Nodup)
      (fits : 32 * (dots + children.length) ≤ fat32ClusterSize vbr)
      (below : ∀ child ∈ children, Bootable vbr 2 child) :
      Bootable vbr dots (.directory name cluster children)

theorem FsNode.Bootable.unassign {vbr : Vbr} {dots : ℕ} {left right : FsNode}
    (bootable : left.Bootable vbr dots) (same : right.unassign = left.unassign) :
    right.Bootable vbr dots := by
  induction bootable generalizing right with
  | file dots name cluster hostPath size =>
      cases right with
      | file => exact .file ..
      | directory => cases same
  | directory dots name cluster children named distinct fits below induction =>
      cases right with
      | file => cases same
      | directory name' cluster' children' =>
          have children_eq : children'.map FsNode.unassign = children.map FsNode.unassign := by
            have := congrArg FsNode.children same
            rwa [FsNode.unassign_children, FsNode.unassign_children] at this
          have names_eq : children'.map FsNode.name = children.map FsNode.name := by
            have := congrArg (List.map FsNode.name) children_eq
            simpa [Function.comp_def] using this
          have twin (child : FsNode) (member : child ∈ children') :
              ∃ other ∈ children, child.unassign = other.unassign := by
            have listed := List.mem_map_of_mem (f := FsNode.unassign) member
            rw [children_eq] at listed
            obtain ⟨other, other_mem, equal⟩ := List.mem_map.mp listed
            exact ⟨other, other_mem, equal.symm⟩
          refine .directory dots name' cluster' children' (fun child member => ?_) ?_ ?_
            fun child member => ?_
          · obtain ⟨other, other_mem, equal⟩ := twin child member
            rw [← child.unassign_name, equal, other.unassign_name]
            exact named other other_mem
          · have mapped := congrArg (List.map (List.map toupper)) names_eq
            rw [List.map_map, List.map_map] at mapped
            exact mapped ▸ distinct
          · have lengths := congrArg List.length names_eq
            rw [List.length_map, List.length_map] at lengths
            rwa [lengths]
          · obtain ⟨other, other_mem, equal⟩ := twin child member
            exact induction other other_mem equal

theorem FsNode.mem_itemsBelow (cluster : ℕ) {nodes : List FsNode} {node : FsNode}
    (member : node ∈ nodes) : (some cluster, node) ∈ FsNode.itemsBelow cluster nodes := by
  refine FsNode.mem_itemsBelow_iff.mpr ⟨node, member, ?_⟩
  cases node with
  | file => exact List.mem_singleton_self _
  | directory => exact List.mem_cons_self ..

/-- Short names and entries for one cluster overflow no buffer of `mkimage`. -/
theorem FsNode.Bootable.items_fit {vbr : Vbr} {dots : ℕ} {node : FsNode}
    (bootable : node.Bootable vbr dots) {parent : Option ℕ} (dotted : fsDots parent = dots) :
    ∀ item ∈ node.items parent, FsItemFits vbr item := by
  induction bootable generalizing parent with
  | file dots name cluster hostPath size =>
      intro item listed
      rw [List.mem_singleton.mp listed]
      trivial
  | directory dots name cluster children named distinct fits below induction =>
      rw [FsNode.items, List.forall_mem_cons]
      refine ⟨⟨fun child member => ?_, dotted ▸ fits⟩, fun item listed => ?_⟩
      · rw [← fatName_isSome_iff, (named child member).fatName_eq]
        rfl
      · obtain ⟨child, member, inside⟩ := FsNode.mem_itemsBelow_iff.mp listed
        exact induction child member rfl item inside

theorem FsNode.Bootable.entriesFit {vbr : Vbr} {root : FsNode} (bootable : root.Bootable vbr 0) :
    root.EntriesFit vbr :=
  bootable.items_fit rfl

mutual

/-- The children of a listed directory are listed. -/
theorem FsNode.items_child {root child : FsNode} {parent other : Option ℕ} {name : CString}
    {cluster : ℕ} {children : List FsNode}
    (listed : (parent, .directory name cluster children) ∈ root.items other)
    (member : child ∈ children) : (some cluster, child) ∈ root.items other := by
  match root with
  | .file _ _ _ _ => cases List.mem_singleton.mp listed
  | .directory _ _ nodes =>
      rw [FsNode.items] at listed ⊢
      rcases List.mem_cons.mp listed with self | below
      · cases self
        exact List.mem_cons_of_mem _ (FsNode.mem_itemsBelow cluster member)
      · exact List.mem_cons_of_mem _ (FsNode.itemsBelow_child below member)

theorem FsNode.itemsBelow_child {nodes : List FsNode} {child : FsNode} {parent : Option ℕ}
    {name : CString} {cluster first : ℕ} {children : List FsNode}
    (listed : (parent, .directory name cluster children) ∈ FsNode.itemsBelow first nodes)
    (member : child ∈ children) : (some cluster, child) ∈ FsNode.itemsBelow first nodes := by
  match nodes with
  | [] => cases listed
  | node :: nodes =>
      rw [FsNode.itemsBelow, List.mem_append] at listed ⊢
      exact listed.imp (FsNode.items_child · member) (FsNode.itemsBelow_child · member)

end

/-! ## The geometry -/

/-- A parameter block whose table and partition have room for the clusters of a tree. -/
structure BootVolume (vbr : Vbr) (root : FsNode) : Prop where
  sector_size : vbr.bytesPerSector = 512
  cluster_size : ∃ n ≤ 6, vbr.sectorsPerCluster = 2 ^ n
  root_cluster : 2 ≤ vbr.rootCluster
  table : vbr.rootCluster + treeClusters vbr root ≤ fat32Entries vbr
  partition : vbr.rootCluster + treeClusters vbr root ≤ 2 + dataClusters vbr

/-- First sector after the clusters of a tree. -/
def treeEndLba (vbr : Vbr) (root : FsNode) : ℕ :=
  vbr.hiddenSectors + vbr.reservedSectors + vbr.fatCount * vbr.fatSize32 +
    (vbr.rootCluster + treeClusters vbr root - 2) * vbr.sectorsPerCluster

/-- Stage2 can read the volume: there is a table, and the sectors have 32-bit numbers. -/
structure BootVolume.Readable (vbr : Vbr) (root : FsNode) : Prop extends BootVolume vbr root where
  copied : 0 < vbr.fatCount
  addressable : treeEndLba vbr root ≤ 2 ^ 32

/-- No cluster of the tree has a number that the format reserves. -/
structure BootVolume.Regular (vbr : Vbr) (root : FsNode) : Prop extends
    BootVolume.Readable vbr root where
  named : vbr.rootCluster + treeClusters vbr root ≤ 0x0FFFFFF7

section

variable {vbr : Vbr} {root : FsNode} {drive : ℕ} {host : HostFiles}

theorem treeClusters_pos (vbr : Vbr) (root : FsNode) : 0 < treeClusters vbr root := by
  have positive (node : FsNode) : 0 < node.clusterCount vbr := by
    cases node with
    | file => exact Nat.lt_of_lt_of_le Nat.zero_lt_one (Nat.le_max_left ..)
    | directory => exact Nat.zero_lt_one
  exact Nat.lt_of_lt_of_le (positive root)
    (List.le_sum_of_mem (List.mem_map_of_mem root.mem_preorder_self))

theorem BootVolume.sectors_pos (volume : BootVolume vbr root) : 0 < vbr.sectorsPerCluster := by
  obtain ⟨n, -, sectors⟩ := volume.cluster_size
  rw [sectors]
  positivity

theorem BootVolume.clusterSize_eq (volume : BootVolume vbr root) :
    fat32ClusterSize vbr = 512 * vbr.sectorsPerCluster := by
  rw [fat32ClusterSize, volume.sector_size]

/-- The clusters of the tree lie in the partition. -/
theorem BootVolume.treeEndLba_le (volume : BootVolume vbr root) :
    treeEndLba vbr root ≤ vbr.hiddenSectors + vbr.totalSectors32 := by
  have above := volume.root_cluster
  have fits := volume.partition
  have positive := treeClusters_pos vbr root
  have used := Nat.mul_le_mul_right vbr.sectorsPerCluster
    (show vbr.rootCluster + treeClusters vbr root - 2 ≤ dataClusters vbr by omega)
  have whole := Nat.div_mul_le_self
    (vbr.totalSectors32 - vbr.reservedSectors - vbr.fatCount * vbr.fatSize32) vbr.sectorsPerCluster
  rw [← dataClusters] at whole
  have some := Nat.mul_pos (show 0 < vbr.rootCluster + treeClusters vbr root - 2 by omega)
    volume.sectors_pos
  rw [treeEndLba]
  omega

/-- The sectors before the data area have 32-bit numbers. -/
theorem BootVolume.Readable.data_lt (volume : BootVolume.Readable vbr root) :
    vbr.hiddenSectors + vbr.reservedSectors + vbr.fatCount * vbr.fatSize32 < 2 ^ 32 := by
  have above := volume.root_cluster
  have positive := treeClusters_pos vbr root
  have some := Nat.mul_pos (show 0 < vbr.rootCluster + treeClusters vbr root - 2 by omega)
    volume.sectors_pos
  have addressable := volume.addressable
  rw [treeEndLba] at addressable
  omega

theorem BootVolume.Readable.fatStartLba (volume : BootVolume.Readable vbr root) :
    (stage2Init drive vbr).fatStartLba = vbr.hiddenSectors + vbr.reservedSectors := by
  have := volume.data_lt
  exact Word32.add_of_lt (by omega)

theorem BootVolume.Readable.dataStartLba (volume : BootVolume.Readable vbr root) :
    (stage2Init drive vbr).dataStartLba =
      vbr.hiddenSectors + vbr.reservedSectors + vbr.fatCount * vbr.fatSize32 := by
  have := volume.data_lt
  have start : (stage2Init drive vbr).fatStartLba = _ := volume.fatStartLba
  rw [stage2Init] at start ⊢
  simp only at start ⊢
  rw [start, Word32.mul_of_lt (by rw [Nat.mul_comm]; omega), Nat.mul_comm vbr.fatSize32,
    Word32.add_of_lt (by omega)]

theorem BootVolume.Readable.bytesPerCluster (volume : BootVolume.Readable vbr root) :
    (stage2Init drive vbr).bytesPerCluster = fat32ClusterSize vbr := by
  have := vbr.bytesPerSector_lt
  have := vbr.sectorsPerCluster_lt
  refine Word32.mul_of_lt ?_
  rw [volume.sector_size]
  omega

/-- The reader and the writer agree on where a cluster starts. -/
theorem BootVolume.Readable.clusterLba (volume : BootVolume.Readable vbr root) {cluster : ℕ}
    (above : 2 ≤ cluster) : 512 * (stage2Init drive vbr).clusterLba cluster =
      fat32ClusterOffset vbr (vbr.hiddenSectors * vbr.bytesPerSector) cluster := by
  rw [Stage2Context.clusterLba, volume.dataStartLba, fat32ClusterOffset, if_neg (by omega),
    fat32DataOffset, volume.clusterSize_eq, volume.sector_size]
  simp only [stage2Init]
  ring

/-- The reader and the writer agree on the entries of the table, but for the reserved bits. -/
theorem BootVolume.Readable.fatEntry (volume : BootVolume.Readable vbr root) (image : ByteMemory)
    (cluster : ℕ) : (stage2Init drive vbr).fatEntry image cluster =
      imageFatEntry vbr (vbr.hiddenSectors * vbr.bytesPerSector) image cluster &&& 0x0FFFFFFF := by
  rw [Stage2Context.fatEntry, volume.fatStartLba, imageFatEntry, volume.sector_size]
  congr 2
  ring

/-- Every cluster of the tree can be read, with its entry. -/
theorem BootVolume.Readable.inside (volume : BootVolume.Readable vbr root) {cluster : ℕ}
    (above : 2 ≤ cluster) (below : cluster < vbr.rootCluster + treeClusters vbr root) :
    (stage2Init drive vbr).Inside (treeEndLba vbr root) cluster := by
  have table := volume.table
  have last := Nat.mul_le_mul_right vbr.sectorsPerCluster
    (show cluster - 2 + 1 ≤ vbr.rootCluster + treeClusters vbr root - 2 by omega)
  rw [Nat.add_mul, Nat.one_mul] at last
  refine ⟨above, ?_, ?_⟩
  · rw [Stage2Context.clusterLba, volume.dataStartLba, treeEndLba]
    simp only [stage2Init]
    omega
  · rw [volume.fatStartLba, treeEndLba]
    rw [fat32Entries, volume.sector_size] at table
    have copies := Nat.mul_le_mul_right vbr.fatSize32 (Nat.succ_le_of_lt volume.copied)
    omega

theorem BootVolume.Readable.disk (volume : BootVolume.Readable vbr root) {machine : Stage2Machine}
    {image : ByteMemory}
    (serves : machine.bios.Serves drive image (vbr.hiddenSectors + vbr.totalSectors32)) :
    Stage2Disk machine (stage2Init drive vbr) image (treeEndLba vbr root) := by
  refine ⟨serves.mono volume.treeEndLba_le, volume.addressable, volume.sectors_pos, ?_⟩
  obtain ⟨n, small, sectors⟩ := volume.cluster_size
  simp only [stage2Init]
  rw [sectors]
  exact (Nat.pow_le_pow_right (by decide) small).trans (by decide)

/-! ## Names and entries -/

section

variable {entry : FatDirEntry} {mem : ByteMemory} {address : ℕ}

/-- An entry that `mkimage` writes: the name field is full and does not start with the end mark. -/
structure FatDirEntry.Used (entry : FatDirEntry) : Prop where
  named : entry.name.length = 11
  first : entry.name.head? ≠ some 0x00
  attr : entry.attr = attrDirectory ∨ entry.attr = attrArchive

theorem FatDirEntry.Used.held (used : entry.Used) (held : Holds mem address entry.bytes) :
    (∀ byte ∈ entry.name.head?, mem address = byte) ∧
      (List.range 11).map (fun i => mem (address + i)) = entry.name ∧
      mem (address + 0x0B) ≠ 0x0F ∧ mem (address + 0x0B) &&& 0x08 = 0 := by
  obtain ⟨bytes, attr_eq, -⟩ := FatDirEntry.holds_fields used.named held
  have name : (List.range 11).map (fun i => mem (address + i)) = entry.name := by
    refine List.ext_getElem (by rw [List.length_map, List.length_range, used.named])
      fun i _ inside => ?_
    rw [List.getElem_map, List.getElem_range, bytes i inside]
  refine ⟨fun byte head => ?_, name, ?_⟩
  · rw [← name] at head
    exact Option.some.inj head
  · rw [attr_eq]
    rcases used.attr with directory | archive
    · rw [directory]
      decide
    · rw [archive]
      decide

/-- The scan goes past an entry with another name. -/
theorem FatDirEntry.Used.passed (used : entry.Used) (held : Holds mem address entry.bytes)
    {name : List UInt8} (differ : entry.name ≠ name) : DirEntryPassed name mem address := by
  obtain ⟨head, named, -⟩ := used.held held
  obtain ⟨byte, rest, name_eq⟩ := List.exists_cons_of_length_pos
    (show 0 < entry.name.length by rw [used.named]; decide)
  have first := head byte (by rw [name_eq]; rfl)
  refine ⟨fun zero => used.first ?_, .inr (.inr (.inr (named ▸ differ)))⟩
  rw [name_eq, List.head?_cons, ← first, zero]

/-- The scan stops at an entry with the name, unless it is marked as deleted. -/
theorem FatDirEntry.Used.found (used : entry.Used) (held : Holds mem address entry.bytes)
    (kept : entry.name.head? ≠ some 0xE5) : DirEntryNamed entry.name mem address := by
  obtain ⟨head, named, long, volume⟩ := used.held held
  obtain ⟨byte, rest, name_eq⟩ := List.exists_cons_of_length_pos
    (show 0 < entry.name.length by rw [used.named]; decide)
  have first := head byte (by rw [name_eq]; rfl)
  refine ⟨fun zero => used.first ?_, fun deleted => kept ?_, long, volume, named⟩
  · rw [name_eq, List.head?_cons, ← first, zero]
  · rw [name_eq, List.head?_cons, ← first, deleted]

end

/-- An entry that the reader compares by its name. -/
structure FatDirEntry.Comparable (entry : FatDirEntry) : Prop where
  named : entry.name.length = 11
  first : ∃ byte rest, entry.name = byte :: rest ∧ byte ≠ 0x00 ∧ byte ≠ 0xE5
  attr : entry.attr = attrDirectory ∨ entry.attr = attrArchive

theorem FatDirEntry.Comparable.used {entry : FatDirEntry} (comparable : entry.Comparable) :
    entry.Used ∧ entry.name.head? ≠ some 0xE5 := by
  obtain ⟨byte, rest, name_eq, used, kept⟩ := comparable.first
  refine ⟨⟨comparable.named, ?_, comparable.attr⟩, ?_⟩
  · rw [name_eq, List.head?_cons]
    exact fun same => used (Option.some.inj same)
  · rw [name_eq, List.head?_cons]
    exact fun same => kept (Option.some.inj same)

/-- The scan passes an entry that lies in memory, or stops at it, by its name. -/
theorem FatDirEntry.Comparable.scan {entry : FatDirEntry} (comparable : entry.Comparable)
    {mem : ByteMemory} {address : ℕ} (held : Holds mem address entry.bytes) :
    (∀ name, entry.name ≠ name → DirEntryPassed name mem address) ∧
      DirEntryNamed entry.name mem address :=
  ⟨fun _ differ => comparable.used.1.passed held differ,
    comparable.used.1.found held comparable.used.2⟩

theorem ShortNameChar.ne_marks {byte : UInt8} (char : ShortNameChar byte) :
    byte ≠ 0x00 ∧ byte ≠ 0xE5 :=
  ⟨char.ne (.inl rfl), char.ne (.inr (.inr (.inr rfl)))⟩

/-- The entry of a node with a short name. -/
theorem fsEntry_comparable {node : FsNode} (short : ShortName node.name) :
    (fsEntry node).Comparable ∧
      (fsEntry node).name = shortNameBytes node.name := by
  obtain ⟨byte, rest, bytes_eq, char⟩ := short.bytes_head
  have name : (fsEntry node).name = shortNameBytes node.name := by
    cases node <;> simp only [fsEntry] <;> exact short.fatName_eq ▸ rfl
  refine ⟨⟨name ▸ short.bytes_length, ⟨byte, rest, name.trans bytes_eq, char.ne_marks⟩, ?_⟩, name⟩
  cases node with
  | file => exact .inr rfl
  | directory => exact .inl rfl

/-- The dot entries have no short name. -/
theorem fat32DotEntries_comparable (cluster parent : ℕ) :
    ∀ entry ∈ fat32DotEntries cluster parent, entry.Comparable ∧
      ∀ name, ShortName name → entry.name ≠ shortNameBytes name := by
  have dot (name : CString) (short : ShortName name) (rest : List UInt8) :
      46 :: rest ≠ shortNameBytes name := by
    obtain ⟨byte, tail, bytes_eq, char⟩ := short.bytes_head
    rw [bytes_eq]
    intro same
    exact char.ne (.inr (.inr (.inl rfl))) (List.cons.inj same).1.symm
  simp only [fat32DotEntries, List.forall_mem_cons]
  refine ⟨⟨⟨rfl, ⟨46, _, rfl, by decide, by decide⟩, .inl rfl⟩, fun name short => dot name short _⟩,
    ⟨⟨rfl, ⟨46, _, rfl, by decide, by decide⟩, .inl rfl⟩, fun name short => dot name short _⟩, ?_⟩
  exact fun _ member => by cases member

/-- The entries of a directory: the one of a child comes after entries with other names. -/
theorem fsDirectoryEntries_child (parent : Option ℕ) (cluster : ℕ) {children : List FsNode}
    (named : ∀ child ∈ children, ShortName child.name)
    (distinct : (children.map fun child => child.name.map toupper).Nodup) {child : FsNode}
    (member : child ∈ children) :
    (∀ entry ∈ fsDirectoryEntries parent cluster children, entry.Comparable) ∧
      (fsDirectoryEntries parent cluster children).length = fsDots parent + children.length ∧
      ∃ k : ℕ, (fsDirectoryEntries parent cluster children)[k]? = some (fsEntry child) ∧
        ∀ j < k, ∀ entry ∈ (fsDirectoryEntries parent cluster children)[j]?,
          entry.name ≠ shortNameBytes child.name := by
  obtain ⟨dots, entries_eq, dotted⟩ : ∃ dots : List FatDirEntry,
      fsDirectoryEntries parent cluster children = dots ++ children.map fsEntry ∧
        ∀ entry ∈ dots, entry.Comparable ∧
          ∀ name, ShortName name → entry.name ≠ shortNameBytes name := by
    cases parent with
    | none => exact ⟨[], rfl, fun _ member => by cases member⟩
    | some parent => exact ⟨_, rfl, fat32DotEntries_comparable cluster parent⟩
  obtain ⟨i, at_i⟩ := List.mem_iff_getElem?.mp member
  have length := length_fsDirectoryEntries parent cluster children
  rw [entries_eq] at length ⊢
  refine ⟨fun entry listed => ?_, length,
    dots.length + i, ?_, fun j before entry at_j => ?_⟩
  · rcases List.mem_append.mp listed with dot | other
    · exact (dotted entry dot).1
    · obtain ⟨node, node_mem, rfl⟩ := List.mem_map.mp other
      exact (fsEntry_comparable (named node node_mem)).1
  · rw [List.getElem?_append_right (Nat.le_add_right ..), Nat.add_sub_cancel_left,
      List.getElem?_map, at_i, Option.map_some]
  · by_cases early : j < dots.length
    · rw [List.getElem?_append_left early] at at_j
      exact (dotted entry (List.mem_of_getElem? at_j)).2 _ (named child member)
    · rw [List.getElem?_append_right (by omega), List.getElem?_map] at at_j
      obtain ⟨other, at_other, rfl⟩ := Option.map_eq_some_iff.mp at_j
      have other_mem := List.mem_of_getElem? at_other
      rw [(fsEntry_comparable (named other other_mem)).2]
      intro same
      have upper := (named other other_mem).map_toupper_eq (named child member) same
      have left : (children.map fun child => child.name.map toupper)[j - dots.length]? =
          some (child.name.map toupper) := by
        rw [List.getElem?_map, at_other, Option.map_some, upper]
      have right : (children.map fun child => child.name.map toupper)[i]? =
          some (child.name.map toupper) := by
        rw [List.getElem?_map, at_i, Option.map_some]
      have := (List.getElem?_inj (List.getElem?_eq_some_iff.mp left).1 distinct).mp
        (left.trans right.symm)
      omega

theorem FatDirEntry.flatMap_length {entries : List FatDirEntry}
    (named : ∀ entry ∈ entries, entry.name.length = 11) :
    (entries.flatMap FatDirEntry.bytes).length = 32 * entries.length := by
  induction entries with
  | nil => rfl
  | cons entry entries induction =>
      rw [List.forall_mem_cons] at named
      rw [List.flatMap_cons, List.length_append, FatDirEntry.bytes_length named.1,
        induction named.2, List.length_cons]
      omega

theorem ChainHolds.first {partitionOffset cluster : ℕ} {image : ByteMemory} {rest : List ℕ}
    {bytes : List UInt8} (holds : ChainHolds vbr partitionOffset image (cluster :: rest) bytes)
    (fits : bytes.length ≤ fat32ClusterSize vbr) :
    Holds image (fat32ClusterOffset vbr partitionOffset cluster) bytes := by
  intro index inside
  rw [holds 0 cluster rfl index (by omega), Nat.zero_mul, Nat.zero_add, List.getD_eq_getElem?_getD,
    List.getElem?_eq_getElem inside, Option.getD_some]

theorem fatChain_head {fat : ℕ → ℕ} {count cluster : ℕ} {chain : List ℕ}
    (followed : fatChain fat count cluster = some chain) : ∃ rest, chain = cluster :: rest := by
  cases count with
  | zero => cases followed
  | succ count =>
      rw [fatChain] at followed
      split_ifs at followed
      · exact ⟨[], (Option.some.inj followed).symm⟩
      · obtain ⟨rest, -, rfl⟩ := Option.map_eq_some_iff.mp followed
        exact ⟨rest, rfl⟩

end

end ItWorksOS
