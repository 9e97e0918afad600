import ItWorksOS.Tools.Mkimage.ShortNames

/-!
# The image of `tools/mkimage/main.c`

`main` zeroes the image, stores the boot sectors, and runs the passes of `fat32.c`. The table and
the clusters of all nodes can then be read from the image.
-/

namespace ItWorksOS

/-- The image before the file system is written: zeros, with the boot sectors. -/
def mkimageStart (mbr vbrSector : ℕ → UInt8) (partitionOffset : ℕ) : ByteMemory :=
  (ByteMemory.blit (fun _ => 0) 0 512 mbr).blit partitionOffset 512 vbrSector

/-- The steps of `main` after the tree has been parsed. -/
def mkimage (vbr : Vbr) (mbr vbrSector : ℕ → UInt8) (lbaStart : ℕ) (host : HostFiles)
    (root : FsNode) : Option ByteMemory :=
  let partitionOffset := lbaStart * vbr.bytesPerSector
  let prepared := fat32PrepareTree vbr
    (fat32TableInit vbr (mkimageStart mbr vbrSector partitionOffset)) root
  (fat32WriteTree vbr host partitionOffset prepared.2 prepared.1).map fun ctx =>
    (fat32TableFlush vbr partitionOffset ctx).image

/-- The tree with the clusters that the first pass assigns. -/
def mkimageTree (vbr : Vbr) (mbr vbrSector : ℕ → UInt8) (lbaStart : ℕ) (root : FsNode) : FsNode :=
  (fat32PrepareTree vbr
    (fat32TableInit vbr (mkimageStart mbr vbrSector (lbaStart * vbr.bytesPerSector))) root).1

/-! ## Paths -/

@[simp] theorem FsNode.unassign_children (node : FsNode) :
    node.unassign.children = node.children.map FsNode.unassign := by
  cases node with
  | file => rfl
  | directory name cluster children => exact FsNode.unassignAll_eq children

theorem FsNode.lookup_unassign (path : List CString) (node : FsNode) :
    node.unassign.lookup path = (node.lookup path).map FsNode.unassign := by
  induction path generalizing node with
  | nil => rfl
  | cons name path induction =>
      have found : fsNodeFindChild (node.children.map FsNode.unassign) name =
          (fsNodeFindChild node.children name).map FsNode.unassign := by
        rw [fsNodeFindChild, List.find?_map, fsNodeFindChild]
        simp
      rw [FsNode.lookup, FsNode.lookup, FsNode.unassign_children, found, Option.map_bind,
        Option.bind_map]
      congr 1
      funext child
      exact induction child

section

variable {vbr : Vbr} {host : HostFiles} {partitionOffset : ℕ}

/-! ## The table on the image -/

theorem fat32TableFlushCopies_of_outside (ctx : Fat32Ctx) {count address : ℕ}
    (outside : address < partitionOffset + vbr.reservedSectors * vbr.bytesPerSector ∨
      partitionOffset + vbr.reservedSectors * vbr.bytesPerSector +
        count * (vbr.fatSize32 * vbr.bytesPerSector) ≤ address) :
    fat32TableFlushCopies vbr partitionOffset ctx count address = ctx.image address := by
  induction count with
  | zero => rfl
  | succ count induction =>
      rw [Nat.succ_mul] at outside
      rw [fat32TableFlushCopies, ByteMemory.blit_of_outside (by omega)]
      exact induction (by omega)

theorem fat32TableFlushCopies_first (ctx : Fat32Ctx) {count offset : ℕ} (copied : 0 < count)
    (inside : offset < vbr.fatSize32 * vbr.bytesPerSector) :
    fat32TableFlushCopies vbr partitionOffset ctx count
      (partitionOffset + vbr.reservedSectors * vbr.bytesPerSector + offset) =
        fatByte ctx.fat offset := by
  induction count with
  | zero => cases copied
  | succ count induction =>
      rw [fat32TableFlushCopies]
      by_cases first : count = 0
      · rw [first, Nat.zero_mul, Nat.add_zero, ByteMemory.blit_of_inside inside]
      · have one := Nat.mul_le_mul_right (vbr.fatSize32 * vbr.bytesPerSector)
          (Nat.pos_of_ne_zero first)
        rw [ByteMemory.blit_of_outside (by omega)]
        exact induction (Nat.pos_of_ne_zero first)

/-- An entry of the first copy of the table. -/
theorem fat32TableFlush_entry {ctx : Fat32Ctx} {cluster : ℕ} (copied : 0 < vbr.fatCount)
    (inside : 4 * cluster + 4 ≤ vbr.fatSize32 * vbr.bytesPerSector)
    (bounded : ctx.fat cluster < 2 ^ 32) :
    (fat32TableFlush vbr partitionOffset ctx).image.read32
      (partitionOffset + vbr.reservedSectors * vbr.bytesPerSector + 4 * cluster) =
        ctx.fat cluster := by
  have byte (k : ℕ) (small : k < 4) : (fat32TableFlush vbr partitionOffset ctx).image
      (partitionOffset + vbr.reservedSectors * vbr.bytesPerSector + 4 * cluster + k) =
        UInt8.ofNat (ctx.fat cluster / 2 ^ (8 * k)) := by
    rw [Nat.add_assoc _ (4 * cluster)]
    refine (fat32TableFlushCopies_first ctx copied (by omega)).trans ?_
    rw [fatByte, show (4 * cluster + k) / 4 = cluster by omega,
      show (4 * cluster + k) % 4 = k by omega]
  have first := byte 0 (by decide)
  rw [Nat.add_zero] at first
  simp only [ByteMemory.read32]
  rw [first, byte 1 (by decide), byte 2 (by decide), byte 3 (by decide)]
  simp only [UInt8.toNat_ofNat']
  omega

/-- Writing the table keeps the clusters. -/
theorem fat32TableFlush_cluster (ctx : Fat32Ctx) (cluster offset : ℕ) :
    (fat32TableFlush vbr partitionOffset ctx).image
      (fat32ClusterOffset vbr partitionOffset cluster + offset) =
        ctx.image (fat32ClusterOffset vbr partitionOffset cluster + offset) := by
  refine fat32TableFlushCopies_of_outside ctx (.inr ?_)
  rw [fat32ClusterOffset, fat32DataOffset, Nat.add_mul, Nat.mul_assoc vbr.fatCount]
  omega

/-! ## The tree on the image -/

/-- Number of clusters of a tree. -/
def treeClusters (vbr : Vbr) (root : FsNode) : ℕ :=
  (root.preorder.map (FsNode.clusterCount vbr)).sum

/-- Entry of a cluster in the first table of an image. -/
def imageFatEntry (vbr : Vbr) (partitionOffset : ℕ) (image : ByteMemory) (cluster : ℕ) : ℕ :=
  image.read32 (partitionOffset + vbr.reservedSectors * vbr.bytesPerSector + 4 * cluster)

/-- The host file of a node opens and has the recorded length. -/
def FsNode.HostReads (host : HostFiles) (node : FsNode) : Prop :=
  ∀ file ∈ node.source, ∃ bytes, host file.1 = some bytes ∧ bytes.length = file.2

/-- The chain of a node in the table of an image, with the bytes of the node in its clusters. -/
structure ImageHolds (vbr : Vbr) (host : HostFiles) (partitionOffset : ℕ) (image : ByteMemory)
    (limit : ℕ) (item : Option ℕ × FsNode) (chain : List ℕ) : Prop where
  length : chain.length = item.2.clusterCount vbr
  inside : ∀ c ∈ chain, 2 ≤ c ∧ c < limit
  follow : fatChain (imageFatEntry vbr partitionOffset image) chain.length item.2.firstCluster =
    some chain
  holds : ChainHolds vbr partitionOffset image chain (fsItemBytes host item)

theorem FsNode.clusterCount_eq (vbr : Vbr) : FsNode.clusterCount vbr = (fun source =>
    source.elim 1 fun file => max 1 ((file.2 + fat32ClusterSize vbr - 1) / fat32ClusterSize vbr)) ∘
      FsNode.source := by
  funext node
  cases node <;> rfl

theorem treeClusters_of_sources {left right : FsNode}
    (same : left.preorder.map FsNode.source = right.preorder.map FsNode.source) :
    treeClusters vbr left = treeClusters vbr right := by
  rw [treeClusters, treeClusters, FsNode.clusterCount_eq, ← List.map_map, ← List.map_map, same]

theorem FsNode.extraClusters_lt (sized : 0 < fat32ClusterSize vbr) (host : HostFiles)
    (node : FsNode) : node.extraClusters vbr host < node.clusterCount vbr := by
  cases node with
  | directory => exact Nat.zero_lt_one
  | file name cluster hostPath size =>
      rw [FsNode.extraClusters, FsNode.clusterCount]
      split_ifs
      · by_cases empty : size = 0
        · rw [empty, Nat.zero_sub, Nat.zero_div]
          omega
        · rw [show size + fat32ClusterSize vbr - 1 = size - 1 + fat32ClusterSize vbr by omega,
            Nat.add_div_right _ sized]
          omega
      · omega

theorem extraClusterCount_add_length_le (sized : 0 < fat32ClusterSize vbr) (host : HostFiles)
    (nodes : List FsNode) : nodes.length + extraClusterCount vbr host nodes ≤
      (nodes.map (FsNode.clusterCount vbr)).sum := by
  induction nodes with
  | nil => exact le_rfl
  | cons node nodes induction =>
      have first := node.extraClusters_lt sized host
      rw [List.length_cons, extraClusterCount_cons, List.map_cons, List.sum_cons]
      omega

/-- Each node has its own chain among the chains of all nodes. -/
theorem exists_chain_of_stored {after : Fat32Ctx} {items : List (Option ℕ × FsNode)} {start : ℕ}
    (stored : List.Forall₂ (ChainStored vbr host partitionOffset after) items
      (fsChains vbr host start (items.map Prod.snd))) {item : Option ℕ × FsNode}
    (member : item ∈ items) :
    ∃ first, item.2.chain vbr host first ∈ fsChains vbr host start (items.map Prod.snd) ∧
      ChainStored vbr host partitionOffset after item (item.2.chain vbr host first) := by
  induction items generalizing start with
  | nil => cases member
  | cons head items induction =>
      rw [List.map_cons, fsChains] at stored ⊢
      obtain ⟨first, rest⟩ := List.forall₂_cons.mp stored
      rcases List.mem_cons.mp member with rfl | later
      · exact ⟨start, List.mem_cons_self .., first⟩
      · obtain ⟨first', listed, found⟩ := induction rest later
        exact ⟨first', List.mem_cons_of_mem _ listed, found⟩

/-- The successor of a cluster of a chain is the end mark or in the chain. -/
theorem fatChain_next {fat : ℕ → ℕ} {count cluster : ℕ} {chain : List ℕ}
    (followed : fatChain fat count cluster = some chain) {c : ℕ} (member : c ∈ chain) :
    fat c = fatEof ∨ fat c ∈ chain := by
  induction count generalizing cluster chain with
  | zero => cases followed
  | succ count induction =>
      rw [fatChain] at followed
      split_ifs at followed with last
      · obtain rfl := Option.some.inj followed
        obtain rfl := List.mem_singleton.mp member
        exact .inl last
      · obtain ⟨rest, inner, rfl⟩ := Option.map_eq_some_iff.mp followed
        rcases List.mem_cons.mp member with rfl | later
        · refine .inr (List.mem_cons_of_mem _ ?_)
          cases count with
          | zero => cases inner
          | succ count =>
              rw [fatChain] at inner
              split_ifs at inner
              · obtain rfl := Option.some.inj inner
                exact List.mem_singleton_self _
              · obtain ⟨_, _, rfl⟩ := Option.map_eq_some_iff.mp inner
                exact List.mem_cons_self ..
        · exact (induction inner later).imp_right (List.mem_cons_of_mem _)

/-- A file that is not written has no contents. -/
theorem fsItemBytes_of_not_written {item : Option ℕ × FsNode} (reads : item.2.HostReads host)
    (idle : item.2.written host = false) : fsItemBytes host item = [] := by
  obtain ⟨parent, node⟩ := item
  cases node with
  | directory => cases idle
  | file name cluster hostPath size =>
      obtain ⟨bytes, opened, length⟩ := reads (hostPath, size) rfl
      simp only [FsNode.written, opened, Option.isSome_some, Bool.true_and,
        decide_eq_false_iff_not, not_not] at idle
      rw [fsItemBytes, opened, Option.getD_some]
      exact List.eq_nil_of_length_eq_zero (length.trans idle)

/-- The boot sectors lie before the clusters. -/
theorem mkimageStart_cluster {mbr vbrSector : ℕ → UInt8} (lbaStart : ℕ)
    (sector_size : vbr.bytesPerSector = 512) (tabled : 0 < vbr.fatCount * vbr.fatSize32)
    (cluster offset : ℕ) :
    mkimageStart mbr vbrSector (lbaStart * vbr.bytesPerSector)
      (fat32ClusterOffset vbr (lbaStart * vbr.bytesPerSector) cluster + offset) = 0 := by
  rw [mkimageStart, fat32ClusterOffset, fat32DataOffset, sector_size]
  rw [ByteMemory.blit_of_outside (by omega), ByteMemory.blit_of_outside (by omega)]

/-- After both passes and the flush, the image holds every node whose host file can be read. -/
theorem TreeStored.imageHolds {image : ByteMemory} {ctx after : Fat32Ctx} {tree : FsNode}
    {limit : ℕ} (stored : TreeStored vbr host partitionOffset image ctx tree after)
    (sized : 0 < fat32ClusterSize vbr) (above : 2 ≤ vbr.rootCluster) (copied : 0 < vbr.fatCount)
    (counted : vbr.rootCluster + tree.preorder.length + extraClusterCount vbr host tree.preorder ≤
      limit)
    (fits : limit ≤ min (fat32Entries vbr) fatEof)
    (zero : ∀ cluster offset, image (fat32ClusterOffset vbr partitionOffset cluster + offset) = 0)
    {item : Option ℕ × FsNode} (member : item ∈ tree.items none) (reads : item.2.HostReads host) :
    ∃ chain, ImageHolds vbr host partitionOffset
      (fat32TableFlush vbr partitionOffset after).image limit item chain := by
  obtain ⟨start, listed, chain⟩ := exists_chain_of_stored stored.stored member
  have inside : ∀ c ∈ item.2.chain vbr host start, 2 ≤ c ∧ c < limit := by
    intro c c_mem
    have flat := List.mem_flatten_of_mem listed c_mem
    refine ⟨stored.allocated.chains_above vbr host (by omega) c flat, ?_⟩
    have next := stored.next
    rcases (mem_fsChains_flatten host _ tree.preorder c).mp flat with first | extra
    · obtain ⟨node, node_mem, rfl⟩ := List.mem_map.mp first
      have := stored.allocated.below node node_mem
      omega
    · omega
  refine ⟨_, FsNode.chain_length sized start fun file source => ?_, inside, ?_, ?_⟩
  · obtain ⟨bytes, opened, -⟩ := reads file source
    rw [opened, Option.isSome_some]
  · refine fatChain_congr chain.follow fun c c_mem => fat32TableFlush_entry copied ?_ ?_
    · have := (inside c c_mem).2
      have : fat32Entries vbr = vbr.fatSize32 * vbr.bytesPerSector % 2 ^ 32 / 4 := rfl
      omega
    · rcases fatChain_next chain.follow c_mem with last | inner
      · rw [last]
        decide
      · have := (inside _ inner).2
        have : fatEof < 2 ^ 32 := by decide
        omega
  · intro k c at_k offset offset_lt
    rw [fat32TableFlush_cluster]
    by_cases written : item.2.written host = true
    · exact chain.holds written k c at_k offset offset_lt
    · have idle := (Bool.not_eq_true _).mp written
      have single : item.2.chain vbr host start = [item.2.firstCluster] := by
        rw [FsNode.chain, FsNode.extraClusters_of_not_written idle, List.range'_zero]
      rw [single] at at_k
      obtain rfl := List.mem_singleton.mp (List.mem_of_getElem? at_k)
      rw [stored.idle item.2 (List.mem_map_of_mem member) idle offset offset_lt, zero,
        fsItemBytes_of_not_written reads idle, List.getD_nil]

/-- If the entries fit and all clusters of the tree have an entry in the table, the image of
`mkimage` holds the chain and the contents of every node whose host file can be read. -/
theorem mkimage_holds (mbr vbrSector : ℕ → UInt8) (lbaStart : ℕ) (name : CString) (cluster : ℕ)
    {children : List FsNode} (sector_size : vbr.bytesPerSector = 512)
    (sectors : 0 < vbr.sectorsPerCluster) (above : 2 ≤ vbr.rootCluster) (copied : 0 < vbr.fatCount)
    (fits : vbr.rootCluster + treeClusters vbr (.directory name cluster children) ≤
      min (fat32Entries vbr) fatEof)
    (unassigned : FsNode.Unassigned children)
    (entries : (FsNode.directory name cluster children).EntriesFit vbr) :
    ∃ image : ByteMemory,
      mkimage vbr mbr vbrSector lbaStart host (.directory name cluster children) = some image ∧
      ∀ item ∈ (mkimageTree vbr mbr vbrSector lbaStart
          (.directory name cluster children)).items none, item.2.HostReads host → ∃ chain,
        ImageHolds vbr host (lbaStart * vbr.bytesPerSector) image
          (vbr.rootCluster + treeClusters vbr (.directory name cluster children)) item chain := by
  have sized : 0 < fat32ClusterSize vbr := by
    rw [fat32ClusterSize, sector_size]
    exact Nat.mul_pos (by decide) sectors
  obtain ⟨start, start_eq⟩ : ∃ start,
    mkimageStart mbr vbrSector (lbaStart * vbr.bytesPerSector) = start := ⟨_, rfl⟩
  obtain ⟨⟨tree, ctx⟩, prepare⟩ : ∃ prepared, fat32PrepareTree vbr (fat32TableInit vbr start)
    (.directory name cluster children) = prepared := ⟨_, rfl⟩
  have positive : 0 < treeClusters vbr (.directory name cluster children) := by
    rw [treeClusters, FsNode.preorder_directory, List.map_cons, List.sum_cons]
    exact Nat.add_pos_left Nat.zero_lt_one _
  have root : vbr.rootCluster < fat32Entries vbr := by omega
  have tabled : 0 < vbr.fatCount * vbr.fatSize32 := by
    refine Nat.mul_pos copied (Nat.pos_of_ne_zero fun empty => ?_)
    rw [fat32Entries, empty, Nat.zero_mul] at root
    cases root
  obtain ⟨after, wrote, -, stored⟩ := fat32WriteTree_stored sized above root host
    (lbaStart * vbr.bytesPerSector) _ name cluster unassigned entries prepare
  have sources := (fat32PrepareTree_prepared _ above root name cluster unassigned prepare).2.2
  have clusters : treeClusters vbr tree = _ := treeClusters_of_sources sources
  have counted := extraClusterCount_add_length_le sized host tree.preorder
  rw [← treeClusters, clusters] at counted
  refine ⟨_, by rw [mkimage, start_eq, prepare, wrote, Option.map_some],
    fun item member reads => ?_⟩
  rw [mkimageTree, start_eq, prepare] at member
  exact (stored (by omega)).imageHolds sized above copied (by omega) fits
    (start_eq ▸ mkimageStart_cluster lbaStart sector_size tabled) member reads

end

end ItWorksOS
