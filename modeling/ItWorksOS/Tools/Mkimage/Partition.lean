import ItWorksOS.Tools.Mkimage.Clusters

/-!
# Cluster writes and the end of the partition

`fat32_cluster_alloc` is bounded by the size of the table and reports a full table by zero, and no
caller looks at that result. Which clusters are written is known from the tree, so the trees for
which every write stays inside the partition can be named exactly.
-/

namespace ItWorksOS

/-- Number of data clusters of the partition. -/
def dataClusters (vbr : Vbr) : ℕ :=
  (vbr.totalSectors32 - vbr.reservedSectors - vbr.fatCount * vbr.fatSize32) / vbr.sectorsPerCluster

/-- The allocation with this number is for a cluster that is written: the first cluster of a
directory or of a file with contents, or a further cluster of a file. -/
def ClusterWritten (vbr : Vbr) (host : HostFiles) (root : FsNode) (i : ℕ) : Prop :=
  (∃ node ∈ root.preorder[i]?, node.written host = true) ∨
    (root.preorder.length ≤ i ∧
      i < root.preorder.length + extraClusterCount vbr host root.preorder)

section

variable {vbr : Vbr}

/-! ## Both passes over a tree -/

theorem FsNode.written_of_source {left right : FsNode} (same : left.source = right.source)
    (host : HostFiles) : left.written host = right.written host := by
  cases left <;> cases right <;> simp_all [FsNode.source, FsNode.written]

theorem FsNode.extraClusters_of_source {left right : FsNode} (same : left.source = right.source)
    (host : HostFiles) : left.extraClusters vbr host = right.extraClusters vbr host := by
  cases left <;> cases right <;> simp_all [FsNode.source, FsNode.extraClusters]

theorem extraClusterCount_of_sources (host : HostFiles) {left right : List FsNode}
    (same : left.map FsNode.source = right.map FsNode.source) :
    extraClusterCount vbr host left = extraClusterCount vbr host right := by
  induction left generalizing right with
  | nil =>
      rw [List.map_nil, eq_comm, List.map_eq_nil_iff] at same
      rw [same]
  | cons node nodes induction =>
      obtain ⟨other, others, rfl, head, tail⟩ := List.map_eq_cons_iff.mp same.symm
      rw [extraClusterCount_cons, extraClusterCount_cons, induction tail.symm,
        FsNode.extraClusters_of_source head.symm]

theorem eq_of_map_eq_map_range {α β : Type} {xs : List α} {f : α → β} {n : ℕ} {g : ℕ → β}
    (same : xs.map f = (List.range n).map g) {i : ℕ} {x : α} (at_i : xs[i]? = some x) :
    f x = g i ∧ i < n := by
  have bound : i < n := by
    have lengths := congrArg List.length same
    rw [List.length_map, List.length_map, List.length_range] at lengths
    rw [← lengths]
    exact (List.getElem?_eq_some_iff.mp at_i).1
  have mapped := congrArg (·[i]?) same
  simp only [List.getElem?_map, at_i, List.getElem?_range bound, Option.map_some,
    Option.some.injEq] at mapped
  exact ⟨mapped, bound⟩

/-- The root cluster is allocation zero. -/
theorem fat32PrepareTree_prepared (image : ByteMemory) (above : 2 ≤ vbr.rootCluster)
    (root : vbr.rootCluster < fat32Entries vbr) (name : CString) (cluster : ℕ)
    {children : List FsNode} (unassigned : FsNode.Unassigned children) {tree : FsNode}
    {after : Fat32Ctx}
    (prepare : fat32PrepareTree vbr (fat32TableInit vbr image) (.directory name cluster children) =
      (tree, after)) :
    Prepared vbr (fat32TableInit vbr image) (FsNode.preorderBelow children) tree.preorder.tail
      after ∧
    tree.preorder.map FsNode.firstCluster =
      (List.range (FsNode.directory name cluster children).preorder.length).map
        (allocCluster vbr) ∧
    tree.preorder.map FsNode.source =
      (FsNode.directory name cluster children).preorder.map FsNode.source := by
  have prepared := fat32PrepareNodes_prepared (fat32TableInit_frontier image above root) children
    unassigned
  rw [fat32PrepareTree, Prod.mk.injEq] at prepare
  obtain ⟨rfl, rfl⟩ := prepare
  have clusters := prepared.clusters
  have start : (fat32TableInit vbr image).allocs.length + 1 = 1 := rfl
  rw [start] at clusters
  rw [FsNode.preorder_directory, FsNode.preorder_directory]
  refine ⟨prepared, ?_, ?_⟩
  · rw [List.map_cons, clusters, List.length_cons, List.range_eq_range', List.range'_succ,
      List.map_cons]
    simp [FsNode.firstCluster, allocCluster, root]
  · rw [List.map_cons, prepared.sources]
    rfl

theorem getElem?_of_map_eq {α β : Type} {xs ys : List α} {f : α → β} (same : xs.map f = ys.map f)
    {i : ℕ} {x : α} (at_i : xs[i]? = some x) : ∃ y, ys[i]? = some y ∧ f y = f x := by
  have mapped := congrArg (·[i]?) same
  simp only [List.getElem?_map, at_i, Option.map_some] at mapped
  exact Option.map_eq_some_iff.mp mapped.symm

theorem exists_written_iff {nodes prepared : List FsNode} (host : HostFiles)
    (clusters : prepared.map FsNode.firstCluster =
      (List.range nodes.length).map (allocCluster vbr))
    (sources : prepared.map FsNode.source = nodes.map FsNode.source) (c : ℕ) :
    (∃ node ∈ prepared, node.written host = true ∧ c = node.firstCluster) ↔
      ∃ i, (∃ node ∈ nodes[i]?, node.written host = true) ∧ c = allocCluster vbr i := by
  constructor
  · rintro ⟨node, member, written, rfl⟩
    obtain ⟨i, at_i⟩ := List.mem_iff_getElem?.mp member
    obtain ⟨original, at_original, same⟩ := getElem?_of_map_eq sources at_i
    exact ⟨i, ⟨original, at_original, (FsNode.written_of_source same host).trans written⟩,
      (eq_of_map_eq_map_range clusters at_i).1⟩
  · rintro ⟨i, ⟨original, at_original, written⟩, rfl⟩
    obtain ⟨node, at_i, same⟩ := getElem?_of_map_eq sources.symm at_original
    exact ⟨node, List.mem_of_getElem? at_i, (FsNode.written_of_source same host).trans written,
      (eq_of_map_eq_map_range clusters at_i).1.symm⟩

theorem fat32PrepareTree_allocs_length {image : ByteMemory} {children prepared : List FsNode}
    {ctx : Fat32Ctx} (name : CString) (cluster : ℕ)
    (first : Prepared vbr (fat32TableInit vbr image) (FsNode.preorderBelow children) prepared ctx) :
    ctx.allocs.length + 1 = (FsNode.directory name cluster children).preorder.length := by
  rw [first.allocs, FsNode.preorder_directory, fat32TableInit]
  simp

theorem Fat32Ctx.Frontier.allocCluster_lt {ctx : Fat32Ctx} (frontier : ctx.Frontier vbr)
    (root : vbr.rootCluster < fat32Entries vbr) {i : ℕ} (bound : i < ctx.allocs.length + 1) :
    allocCluster vbr i < ctx.nextFreeCluster := by
  have next := frontier.next
  rw [allocCluster]
  split_ifs <;> omega

theorem Fat32Ctx.Frontier.items_below {ctx : Fat32Ctx} (frontier : ctx.Frontier vbr)
    (root : vbr.rootCluster < fat32Entries vbr) {tree : FsNode}
    (clusters : tree.preorder.map FsNode.firstCluster =
      (List.range (ctx.allocs.length + 1)).map (allocCluster vbr)) :
    ∀ item ∈ tree.items none, item.2.firstCluster < ctx.nextFreeCluster := by
  intro item member
  have listed : item.2 ∈ tree.preorder := List.mem_map_of_mem member
  obtain ⟨i, at_i⟩ := List.mem_iff_getElem?.mp listed
  obtain ⟨first, bound⟩ := eq_of_map_eq_map_range clusters at_i
  rw [first]
  exact frontier.allocCluster_lt root bound

/-- If the entries fit, exactly the clusters of the written allocations are written. -/
theorem fat32WriteTree_traced (sized : 0 < fat32ClusterSize vbr) (host : HostFiles)
    (partitionOffset : ℕ) (image : ByteMemory) (above : 2 ≤ vbr.rootCluster)
    (root : vbr.rootCluster < fat32Entries vbr) (name : CString) (cluster : ℕ)
    {children : List FsNode} (unassigned : FsNode.Unassigned children)
    (fits : (FsNode.directory name cluster children).EntriesFit vbr) {tree : FsNode}
    {ctx : Fat32Ctx}
    (prepare : fat32PrepareTree vbr (fat32TableInit vbr image) (.directory name cluster children) =
      (tree, ctx)) :
    ∃ after, fat32WriteTree vbr host partitionOffset ctx tree = some after ∧
      (∀ c, c ∈ after.writes ↔ ∃ i,
        ClusterWritten vbr host (.directory name cluster children) i ∧ c = allocCluster vbr i) ∧
      ∀ address, (∀ c ∈ after.writes, OutsideCluster vbr partitionOffset address c) →
        after.image address = image address := by
  obtain ⟨prepared, clusters, sources⟩ :=
    fat32PrepareTree_prepared image above root name cluster unassigned prepare
  have allocated := fat32PrepareTree_allocs_length name cluster prepared
  rw [← fat32PrepareTree_fit (fat32TableInit vbr image), prepare] at fits
  generalize hnodes : (FsNode.directory name cluster children).preorder = nodes at *
  have below := prepared.frontier.items_below root (allocated ▸ clusters)
  obtain ⟨after, written, ran, traced, members⟩ := fat32WriteItems_traced sized host
    partitionOffset prepared.frontier (tree.items none) fits below
  have writes : after.writes = written := by
    rw [traced.writes, prepared.writes]
    rfl
  refine ⟨after, by rw [fat32WriteTree, fat32WriteNode_eq, ran], fun c => ?_,
    fun address outside => ?_⟩
  · rw [writes, members, allocated, ← FsNode.preorder, exists_written_iff host clusters sources,
      extraClusterCount_of_sources host sources]
    simp only [ClusterWritten, hnodes, List.mem_map, List.mem_range'_1, or_and_right, exists_or,
      eq_comm]
  · rw [traced.image address (writes ▸ outside), prepared.image]
    rfl

/-! ## Parameter blocks with a root cluster outside the table -/

theorem fat32ClusterAlloc_writes (ctx : Fat32Ctx) :
    (fat32ClusterAlloc vbr ctx).2.writes = ctx.writes := by
  rw [fat32ClusterAlloc]
  split <;> rfl

theorem fat32WriteChunk_writes (partitionOffset : ℕ) (ctx : Fat32Ctx) (bytes : List UInt8)
    (cluster previous : ℕ) :
    (fat32WriteChunk vbr partitionOffset ctx bytes cluster previous).writes =
      ctx.writes ++ [cluster] := by
  rw [fat32WriteChunk]
  split_ifs <;> rfl

theorem fat32WriteFileLoop_ends (sized : 0 < fat32ClusterSize vbr) (partitionOffset : ℕ) {fuel : ℕ}
    {ctx : Fat32Ctx} {bytes : List UInt8} {remaining cluster previous : ℕ}
    (fueled : remaining ≤ fuel) :
    ∃ after last,
      fat32WriteFileLoop vbr partitionOffset fuel ctx bytes remaining cluster previous =
        some (after, last) ∧ ctx.writes ⊆ after.writes := by
  induction fuel generalizing ctx bytes remaining cluster previous with
  | zero =>
      obtain rfl : remaining = 0 := by omega
      exact ⟨ctx, previous, fat32WriteFileLoop_zero .., List.Subset.refl _⟩
  | succ fuel induction =>
      by_cases empty : remaining = 0
      · subst empty
        exact ⟨ctx, previous, fat32WriteFileLoop_zero .., List.Subset.refl _⟩
      · rw [fat32WriteFileLoop_succ _ _ _ _ _ _ empty]
        have chunk := @fat32WriteChunk_writes vbr partitionOffset ctx bytes cluster previous
        generalize fat32WriteChunk vbr partitionOffset ctx bytes cluster previous = mid at chunk ⊢
        have grown : ctx.writes ⊆ mid.writes := chunk ▸ List.subset_append_left ..
        split_ifs with more
        · obtain ⟨after, last, ran, kept⟩ := @induction (fat32ClusterAlloc vbr mid).2
            (bytes.drop (fat32ClusterSize vbr)) (remaining - fat32ClusterSize vbr)
            (fat32ClusterAlloc vbr mid).1 cluster (by omega)
          rw [fat32ClusterAlloc_writes] at kept
          exact ⟨after, last, ran, List.Subset.trans grown kept⟩
        · exact ⟨mid, cluster, rfl, grown⟩

theorem fat32WriteItem_ends (sized : 0 < fat32ClusterSize vbr) (host : HostFiles)
    (partitionOffset : ℕ) (ctx : Fat32Ctx) {item : Option ℕ × FsNode}
    (fits : FsItemFits vbr item) :
    ∃ after, fat32WriteItem vbr host partitionOffset ctx item = some after ∧
      ctx.writes ⊆ after.writes := by
  match item with
  | (parent, .directory name cluster children) =>
      exact ⟨_, fat32WriteItem_directory host partitionOffset ctx fits,
        List.subset_append_left ..⟩
  | (parent, .file name cluster hostPath size) =>
      rw [fat32WriteItem]
      obtain missing | ⟨bytes, opened⟩ := Option.eq_none_or_eq_some (host hostPath)
      · exact ⟨ctx, by rw [fat32WriteFile, missing], List.Subset.refl _⟩
      · obtain ⟨after, last, ran, kept⟩ :=
          @fat32WriteFileLoop_ends vbr sized partitionOffset size ctx
          bytes size cluster 0 le_rfl
        rw [fat32WriteFile_of_opened opened, ran, Option.map_some]
        exact ⟨_, rfl, kept⟩

theorem fat32WriteItems_ends (sized : 0 < fat32ClusterSize vbr) (host : HostFiles)
    (partitionOffset : ℕ) (ctx : Fat32Ctx) (items : List (Option ℕ × FsNode))
    (fits : ∀ item ∈ items, FsItemFits vbr item) :
    ∃ after, items.foldlM (fat32WriteItem vbr host partitionOffset) ctx = some after ∧
      ctx.writes ⊆ after.writes := by
  induction items generalizing ctx with
  | nil => exact ⟨ctx, rfl, List.Subset.refl _⟩
  | cons item items induction =>
      rw [List.forall_mem_cons] at fits
      obtain ⟨mid, wrote, first⟩ := fat32WriteItem_ends sized host partitionOffset ctx fits.1
      obtain ⟨after, ran, rest⟩ := induction mid fits.2
      refine ⟨after, ?_, List.Subset.trans first rest⟩
      rw [List.foldlM_cons, wrote]
      exact ran

/-- The second pass ends on every tree whose entries fit. -/
theorem fat32WriteTree_ends (host : HostFiles) (partitionOffset : ℕ) (ctx : Fat32Ctx)
    {name : CString} {cluster : ℕ} {children : List FsNode}
    (fits : (FsNode.directory name cluster children).EntriesFit vbr) :
    ∃ after, fat32WriteTree vbr host partitionOffset ctx (.directory name cluster children) =
      some after := by
  rw [fat32WriteTree, fat32WriteNode_eq]
  have root := fits _ (List.mem_cons_self ..)
  cases children with
  | nil =>
      rw [FsNode.items, FsNode.itemsBelow, List.foldlM_cons,
        fat32WriteItem_directory host partitionOffset ctx root]
      exact ⟨_, rfl⟩
  | cons child children =>
      have room := root.2
      rw [List.length_cons] at room
      obtain ⟨after, ran, -⟩ := fat32WriteItems_ends (show 0 < fat32ClusterSize vbr by omega) host
        partitionOffset ctx _ fits
      exact ⟨after, ran⟩

/-- The root directory is written to the root cluster of the parameter block, whatever it is. -/
theorem fat32WriteTree_root (sized : 0 < fat32ClusterSize vbr) {host : HostFiles}
    {partitionOffset : ℕ} {ctx after : Fat32Ctx} {name : CString} {cluster : ℕ}
    {children : List FsNode}
    (wrote : fat32WriteTree vbr host partitionOffset ctx (.directory name cluster children) =
      some after) : cluster ∈ after.writes := by
  have fits := fat32WriteTree_fits wrote
  rw [FsNode.EntriesFit, FsNode.items, List.forall_mem_cons] at fits
  rw [fat32WriteTree, fat32WriteNode_eq, FsNode.items, List.foldlM_cons,
    fat32WriteItem_directory host partitionOffset ctx fits.1] at wrote
  obtain ⟨_, ran, kept⟩ := fat32WriteItems_ends sized host partitionOffset
    (fat32WriteCluster vbr partitionOffset ctx cluster _) _ fits.2
  obtain rfl := Option.some.inj (ran.symm.trans wrote)
  exact kept (List.mem_append_right _ (List.mem_singleton_self _))

/-! ## Writes inside the partition -/

theorem allocCluster_within_iff {count : ℕ} (above : 2 ≤ vbr.rootCluster)
    (roomy : count + 2 ≤ fat32Entries vbr) (i : ℕ) :
    (2 ≤ allocCluster vbr i ∧ allocCluster vbr i < 2 + count) ↔
      vbr.rootCluster + i < 2 + count := by
  rw [allocCluster]
  split_ifs <;> omega

theorem outsideCluster_of_within {partitionOffset address c count : ℕ}
    (within : 2 ≤ c ∧ c < 2 + count)
    (outside : address < fat32DataOffset vbr partitionOffset ∨
      fat32DataOffset vbr partitionOffset + count * fat32ClusterSize vbr ≤ address) :
    OutsideCluster vbr partitionOffset address c := by
  have last : (c - 2 + 1) * fat32ClusterSize vbr ≤ count * fat32ClusterSize vbr :=
    Nat.mul_le_mul_right _ (by omega)
  rw [Nat.add_mul, Nat.one_mul] at last
  rw [OutsideCluster, fat32ClusterOffset, if_neg (by omega)]
  omega

/-- The children of a root with one file of the given size. -/
def singleFile (size : ℕ) : List FsNode := [.file [97] 0 [97] size]

/-- A host on which every file has the given size. -/
def sizedHost (size : ℕ) : HostFiles := fun _ => some (List.replicate size 0)

theorem singleFile_unassigned (size : ℕ) : FsNode.Unassigned (singleFile size) := by
  simp [singleFile, FsNode.Unassigned, FsNode.firstCluster]

theorem singleFile_entriesFit (size : ℕ) :
    (FsNode.directory [] 0 (singleFile size)).EntriesFit systemVbr := by
  simp only [FsNode.EntriesFit, singleFile, FsNode.items, FsNode.itemsBelow, List.append_nil,
    List.forall_mem_cons, FsItemFits]
  exact ⟨⟨⟨show FatNameInBounds [97] by decide, List.forall_mem_nil _⟩,
    show 32 * (0 + 1) ≤ fat32ClusterSize systemVbr by decide⟩, trivial, List.forall_mem_nil _⟩

theorem clusterWritten_singleFile {size : ℕ} (nonempty : size ≠ 0) (i : ℕ) :
    ClusterWritten vbr (sizedHost size) (.directory [] 0 (singleFile size)) i ↔
      i < 2 + (size - 1) / fat32ClusterSize vbr := by
  have extra : extraClusterCount vbr (sizedHost size)
      (FsNode.directory [] 0 (singleFile size)).preorder = (size - 1) / fat32ClusterSize vbr := by
    simp [singleFile, sizedHost, extraClusterCount, FsNode.extraClusters]
  rw [ClusterWritten, extra]
  generalize (size - 1) / fat32ClusterSize vbr = count
  rcases i with _ | _ | i
  · simp [FsNode.written]
  · simp [singleFile, sizedHost, FsNode.written, nonempty]
    omega
  · simp [singleFile]

end

end ItWorksOS
