import ItWorksOS.Tools.Mkimage.Fat32

/-!
# Cluster allocation over a whole tree

The two passes of `fat32.c` visit the nodes of the tree in one order. The `k`-th allocation returns
the `k`-th cluster after the root cluster, or zero once the table is full, so every cluster that is
handed out or written is known from the tree and the parameter block.
-/

namespace ItWorksOS

/-! ## The nodes of a tree -/

mutual

/-- The nodes of a tree in the order of the recursive passes, each with the first cluster of its
parent. -/
def FsNode.items (parent : Option ℕ) : FsNode → List (Option ℕ × FsNode)
  | .file name cluster hostPath size => [(parent, .file name cluster hostPath size)]
  | .directory name cluster children =>
      (parent, .directory name cluster children) :: FsNode.itemsBelow cluster children

/-- The nodes below a directory with a given first cluster. -/
def FsNode.itemsBelow (cluster : ℕ) : List FsNode → List (Option ℕ × FsNode)
  | [] => []
  | node :: nodes => node.items (some cluster) ++ FsNode.itemsBelow cluster nodes

end

namespace FsNode

/-- The nodes of a tree in the order of the recursive passes. -/
def preorder (node : FsNode) : List FsNode := (node.items none).map Prod.snd

/-- The nodes of a list of trees in the order of the recursive passes. -/
def preorderBelow (nodes : List FsNode) : List FsNode := (itemsBelow 0 nodes).map Prod.snd

/-- Host path and size of a file. -/
def source : FsNode → Option (CString × ℕ)
  | file _ _ hostPath size => some (hostPath, size)
  | directory _ _ _ => none

end FsNode

theorem FsNode.items_map_snd (node : FsNode) (parent : Option ℕ) :
    (node.items parent).map Prod.snd = node.preorder := by
  cases node <;> rfl

theorem FsNode.itemsBelow_map_snd (nodes : List FsNode) (cluster : ℕ) :
    (FsNode.itemsBelow cluster nodes).map Prod.snd = FsNode.preorderBelow nodes := by
  induction nodes with
  | nil => rfl
  | cons node nodes induction =>
      simp only [FsNode.preorderBelow, FsNode.itemsBelow, List.map_append, FsNode.items_map_snd]
      rw [induction, FsNode.preorderBelow]

@[simp] theorem FsNode.preorder_file (name hostPath : CString) (cluster size : ℕ) :
    (FsNode.file name cluster hostPath size).preorder = [.file name cluster hostPath size] := rfl

@[simp] theorem FsNode.preorder_directory (name : CString) (cluster : ℕ) (children : List FsNode) :
    (FsNode.directory name cluster children).preorder =
      .directory name cluster children :: FsNode.preorderBelow children := by
  rw [FsNode.preorder, FsNode.items, List.map_cons, FsNode.itemsBelow_map_snd]

@[simp] theorem FsNode.preorderBelow_nil : FsNode.preorderBelow [] = [] := rfl

@[simp] theorem FsNode.preorderBelow_cons (node : FsNode) (nodes : List FsNode) :
    FsNode.preorderBelow (node :: nodes) = node.preorder ++ FsNode.preorderBelow nodes := by
  rw [FsNode.preorderBelow, FsNode.itemsBelow, List.map_append, FsNode.items_map_snd,
    FsNode.itemsBelow_map_snd]

theorem FsNode.mem_itemsBelow_iff {cluster : ℕ} {nodes : List FsNode} {item : Option ℕ × FsNode} :
    item ∈ FsNode.itemsBelow cluster nodes ↔ ∃ node ∈ nodes, item ∈ node.items (some cluster) := by
  induction nodes with
  | nil => simp [FsNode.itemsBelow]
  | cons node nodes induction =>
      rw [FsNode.itemsBelow, List.mem_append, induction, List.exists_mem_cons_iff]

theorem FsNode.mem_preorder_self (node : FsNode) : node ∈ node.preorder := by
  cases node <;> simp

/-- No node of the list has a cluster yet. -/
def FsNode.Unassigned (nodes : List FsNode) : Prop :=
  ∀ node ∈ FsNode.preorderBelow nodes, node.firstCluster = 0

/-- No node of the tree has a cluster yet. -/
def FsNode.IsUnassigned (node : FsNode) : Prop := ∀ below ∈ node.preorder, below.firstCluster = 0

theorem FsNode.unassigned_iff {nodes : List FsNode} :
    FsNode.Unassigned nodes ↔ ∀ node ∈ nodes, node.IsUnassigned := by
  induction nodes with
  | nil => simp [FsNode.Unassigned]
  | cons node nodes induction =>
      rw [List.forall_mem_cons, ← induction, FsNode.Unassigned, FsNode.preorderBelow_cons,
        List.forall_mem_append, FsNode.IsUnassigned, FsNode.Unassigned]

theorem FsNode.isUnassigned_directory {name : CString} {cluster : ℕ} {children : List FsNode} :
    (FsNode.directory name cluster children).IsUnassigned ↔
      cluster = 0 ∧ FsNode.Unassigned children := by
  rw [FsNode.IsUnassigned, FsNode.preorder_directory, List.forall_mem_cons, FsNode.Unassigned,
    FsNode.firstCluster]

mutual

/-- The tree before any cluster is assigned. -/
def FsNode.unassign : FsNode → FsNode
  | .file name _ hostPath size => .file name 0 hostPath size
  | .directory name _ children => .directory name 0 (FsNode.unassignAll children)

/-- The trees of a list before any cluster is assigned. -/
def FsNode.unassignAll : List FsNode → List FsNode
  | [] => []
  | node :: nodes => node.unassign :: FsNode.unassignAll nodes

end

theorem FsNode.unassignAll_eq (nodes : List FsNode) :
    FsNode.unassignAll nodes = nodes.map FsNode.unassign := by
  induction nodes with
  | nil => rfl
  | cons node nodes induction => rw [FsNode.unassignAll, induction, List.map_cons]

@[simp] theorem FsNode.unassign_name (node : FsNode) : node.unassign.name = node.name := by
  cases node <;> rfl

theorem FsNode.map_name_of_unassign {left right : List FsNode}
    (same : FsNode.unassignAll left = FsNode.unassignAll right) :
    left.map FsNode.name = right.map FsNode.name := by
  have names (nodes : List FsNode) :
      (FsNode.unassignAll nodes).map FsNode.name = nodes.map FsNode.name := by
    rw [FsNode.unassignAll_eq, List.map_map]
    exact List.map_congr_left fun node _ => node.unassign_name
  rw [← names left, same, names]

/-- A property of listed nodes that ignores clusters. -/
def FsNode.IgnoresClusters (P : Option ℕ × FsNode → Prop) : Prop :=
  ∀ left right : Option ℕ × FsNode, left.1.isSome = right.1.isSome →
    left.2.unassign = right.2.unassign → P left → P right

mutual

/-- A property that ignores clusters passes to a tree that differs only in clusters. -/
theorem FsNode.forall_items_congr {P : Option ℕ × FsNode → Prop}
    (ignores : FsNode.IgnoresClusters P) {left right : FsNode}
    (same : left.unassign = right.unassign) {parent other : Option ℕ}
    (placed : parent.isSome = other.isSome)
    (all : ∀ item ∈ left.items parent, P item) : ∀ item ∈ right.items other, P item := by
  match left, right with
  | .file _ _ _ _, .file _ _ _ _ =>
      rw [FsNode.items, List.forall_mem_singleton] at all ⊢
      exact ignores _ _ placed same all
  | .file _ _ _ _, .directory _ _ _ => cases same
  | .directory _ _ _, .file _ _ _ _ => cases same
  | .directory _ _ lefts, .directory _ _ rights =>
      rw [FsNode.items, List.forall_mem_cons] at all ⊢
      exact ⟨ignores _ _ placed same all.1,
        FsNode.forall_itemsBelow_congr ignores (FsNode.directory.inj same).2.2 all.2⟩

theorem FsNode.forall_itemsBelow_congr {P : Option ℕ × FsNode → Prop}
    (ignores : FsNode.IgnoresClusters P) {lefts rights : List FsNode}
    (same : FsNode.unassignAll lefts = FsNode.unassignAll rights) {cluster other : ℕ}
    (all : ∀ item ∈ FsNode.itemsBelow cluster lefts, P item) :
    ∀ item ∈ FsNode.itemsBelow other rights, P item := by
  match lefts, rights with
  | [], [] => exact List.forall_mem_nil _
  | [], _ :: _ => cases same
  | _ :: _, [] => cases same
  | left :: lefts, right :: rights =>
      obtain ⟨first, rest⟩ := List.cons.inj same
      rw [FsNode.itemsBelow, List.forall_mem_append] at all ⊢
      have placed : (some cluster).isSome = (some other).isSome := rfl
      exact ⟨FsNode.forall_items_congr ignores first placed all.1,
        FsNode.forall_itemsBelow_congr ignores rest all.2⟩

end

/-! ## Trees of the parser -/

theorem fsNodeSetChildren_unassigned {name : CString} {below children : List FsNode}
    (below_unassigned : FsNode.Unassigned below) (unassigned : FsNode.Unassigned children) :
    FsNode.Unassigned (fsNodeSetChildren name below children) := by
  rw [FsNode.unassigned_iff] at unassigned ⊢
  induction children with
  | nil => simp [fsNodeSetChildren]
  | cons child rest induction =>
      rw [List.forall_mem_cons] at unassigned
      rw [fsNodeSetChildren]
      split_ifs
      · rw [List.forall_mem_cons, FsNode.isUnassigned_directory]
        refine ⟨⟨?_, below_unassigned⟩, unassigned.2⟩
        cases child <;> exact unassigned.1 _ (by simp)
      · rw [List.forall_mem_cons]
        exact ⟨unassigned.1, induction unassigned.2⟩

theorem treeDescend_unassigned {act : List FsNode → Bool × List FsNode}
    (acts : ∀ children, FsNode.Unassigned children → FsNode.Unassigned (act children).2)
    (parts : List CString) {children : List FsNode} (unassigned : FsNode.Unassigned children) :
    FsNode.Unassigned (treeDescend act parts children).2 := by
  induction parts generalizing children with
  | nil => exact acts children unassigned
  | cons part parts induction =>
      rw [treeDescend]
      split
      · exact unassigned
      · rename_i found
        have old := FsNode.unassigned_iff.mp unassigned _ (fsNodeFindChild_some found).1
        exact fsNodeSetChildren_unassigned (induction (FsNode.isUnassigned_directory.mp old).2)
          unassigned
      · have below := induction (show FsNode.Unassigned [] by simp [FsNode.Unassigned])
        rw [FsNode.unassigned_iff] at unassigned ⊢
        rw [List.forall_mem_append, List.forall_mem_singleton, fsNodeCreateDirectory,
          FsNode.isUnassigned_directory]
        exact ⟨unassigned, rfl, below⟩

theorem treeAddFile_unassigned (host : HostFiles) (filename hostPath : CString)
    (children : List FsNode) (unassigned : FsNode.Unassigned children) :
    FsNode.Unassigned (treeAddFile host filename hostPath children).2 := by
  rw [treeAddFile]
  split
  · exact unassigned
  · split
    · exact unassigned
    · rename_i created
      obtain ⟨bytes, -, rfl⟩ := Option.map_eq_some_iff.mp created
      rw [FsNode.unassigned_iff] at unassigned ⊢
      rw [List.forall_mem_append, List.forall_mem_singleton]
      refine ⟨unassigned, ?_⟩
      simp [FsNode.IsUnassigned, FsNode.firstCluster]

theorem parseDiskFilesLine_unassigned (host : HostFiles) {children : List FsNode} (line : CString)
    (unassigned : FsNode.Unassigned children) :
    FsNode.Unassigned (parseDiskFilesLine host children line) := by
  rw [parseDiskFilesLine]
  split
  · exact unassigned
  · split_ifs
    · rw [treeInsertDirectory]
      split_ifs
      · exact unassigned
      · exact treeDescend_unassigned (fun _ kept => kept) _ unassigned
    · rw [treeInsertNode]
      split
      · exact unassigned
      · exact treeDescend_unassigned (treeAddFile_unassigned host _ _) _ unassigned

/-- The parser builds trees without clusters. -/
theorem parseDiskFiles_unassigned (host : HostFiles) (content : List UInt8) :
    (parseDiskFiles host content).IsUnassigned := by
  rw [parseDiskFiles, parseDiskFilesLines, fsNodeCreateDirectory, FsNode.isUnassigned_directory]
  refine ⟨rfl, ?_⟩
  generalize diskFilesLines content.length content = lines
  have folded : ∀ children, FsNode.Unassigned children →
      FsNode.Unassigned (lines.foldl (parseDiskFilesLine host) children) := by
    induction lines with
    | nil => exact fun _ unassigned => unassigned
    | cons line lines induction =>
        exact fun children unassigned =>
          induction _ (parseDiskFilesLine_unassigned host line unassigned)
  exact folded [] (by simp [FsNode.Unassigned])

section

variable (vbr : Vbr)

/-! ## Allocation -/

/-- Result of the `k`-th allocation; the root cluster counts as the allocation zero. -/
def allocCluster (k : ℕ) : ℕ :=
  if vbr.rootCluster + k < fat32Entries vbr then vbr.rootCluster + k else 0

/-- The clusters after the last one handed out are free. -/
structure Fat32Ctx.Frontier (ctx : Fat32Ctx) : Prop where
  next : ctx.nextFreeCluster =
    min (vbr.rootCluster + 1 + ctx.allocs.length) (fat32Entries vbr)
  free : ∀ i, ctx.nextFreeCluster ≤ i → i < fat32Entries vbr → ctx.fat i = fatFree

variable {vbr}

theorem fat32TableInit_frontier (image : ByteMemory) (above : 2 ≤ vbr.rootCluster)
    (root : vbr.rootCluster < fat32Entries vbr) : (fat32TableInit vbr image).Frontier vbr := by
  have below : fat32Entries vbr < 2 ^ 32 := by
    have := Nat.mod_lt (vbr.fatSize32 * vbr.bytesPerSector) (show 0 < 2 ^ 32 by norm_num)
    rw [fat32Entries]
    omega
  have next : (fat32TableInit vbr image).nextFreeCluster = vbr.rootCluster + 1 :=
    Nat.mod_eq_of_lt (by omega)
  refine ⟨?_, fun i lower _ => ?_⟩
  · rw [next, show (fat32TableInit vbr image).allocs = [] from rfl, List.length_nil]
    omega
  · rw [next] at lower
    simp only [fat32TableInit]
    rw [Function.update_of_ne (by omega), Function.update_of_ne (by omega),
      Function.update_of_ne (by omega), fatFree]

/-- The frontier decides an allocation. -/
theorem fat32ClusterAlloc_of_room {ctx : Fat32Ctx} (frontier : ctx.Frontier vbr)
    (room : vbr.rootCluster + (ctx.allocs.length + 1) < fat32Entries vbr) :
    fat32ClusterAlloc vbr ctx =
      (vbr.rootCluster + (ctx.allocs.length + 1), { ctx with
        fat := Function.update ctx.fat (vbr.rootCluster + (ctx.allocs.length + 1)) fatEof
        nextFreeCluster := vbr.rootCluster + (ctx.allocs.length + 1) + 1
        allocs := ctx.allocs ++ [vbr.rootCluster + (ctx.allocs.length + 1)] }) := by
  have next : ctx.nextFreeCluster = vbr.rootCluster + (ctx.allocs.length + 1) := by
    have := frontier.next
    omega
  obtain ⟨count, counted⟩ : ∃ count, fat32Entries vbr - ctx.nextFreeCluster = count + 1 :=
    ⟨fat32Entries vbr - ctx.nextFreeCluster - 1, by omega⟩
  have found : fatFindFree ctx.fat (fat32Entries vbr - ctx.nextFreeCluster) ctx.nextFreeCluster =
      some ctx.nextFreeCluster := by
    rw [counted, fatFindFree, if_pos (frontier.free _ le_rfl (by omega))]
  rw [fat32ClusterAlloc, found, next]

theorem fat32ClusterAlloc_of_full {ctx : Fat32Ctx} (frontier : ctx.Frontier vbr)
    (full : fat32Entries vbr ≤ vbr.rootCluster + (ctx.allocs.length + 1)) :
    fat32ClusterAlloc vbr ctx = (0, { ctx with allocs := ctx.allocs ++ [0] }) := by
  have next : fat32Entries vbr - ctx.nextFreeCluster = 0 := by
    have := frontier.next
    omega
  rw [fat32ClusterAlloc, next, fatFindFree]

/-! ## The first pass -/

/-- What preparing nodes does: they keep their files, and their first clusters are the next
allocations. -/
structure Prepared (vbr : Vbr) (ctx : Fat32Ctx) (nodes prepared : List FsNode) (after : Fat32Ctx) :
    Prop where
  frontier : after.Frontier vbr
  next : ctx.nextFreeCluster ≤ after.nextFreeCluster
  fat : ∀ i, after.fat i =
    if ctx.nextFreeCluster ≤ i ∧ i < after.nextFreeCluster then fatEof else ctx.fat i
  clusters : prepared.map FsNode.firstCluster =
    (List.range' (ctx.allocs.length + 1) nodes.length).map (allocCluster vbr)
  sources : prepared.map FsNode.source = nodes.map FsNode.source
  allocs : after.allocs =
    ctx.allocs ++ (List.range' (ctx.allocs.length + 1) nodes.length).map (allocCluster vbr)
  writes : after.writes = ctx.writes
  image : after.image = ctx.image

theorem Prepared.refl {ctx : Fat32Ctx} (frontier : ctx.Frontier vbr) :
    Prepared vbr ctx [] [] ctx where
  frontier := frontier
  next := le_rfl
  fat i := by rw [if_neg (by omega)]
  clusters := rfl
  sources := rfl
  allocs := by simp
  writes := rfl
  image := rfl

theorem Prepared.trans {ctx mid after : Fat32Ctx}
    {nodes prepared moreNodes morePrepared : List FsNode}
    (first : Prepared vbr ctx nodes prepared mid)
    (second : Prepared vbr mid moreNodes morePrepared after) :
    Prepared vbr ctx (nodes ++ moreNodes) (prepared ++ morePrepared) after := by
  have length : mid.allocs.length = ctx.allocs.length + nodes.length := by
    rw [first.allocs, List.length_append, List.length_map, List.length_range']
  have range : List.range' (ctx.allocs.length + 1) (nodes ++ moreNodes).length =
      List.range' (ctx.allocs.length + 1) nodes.length ++
        List.range' (mid.allocs.length + 1) moreNodes.length := by
    rw [length, List.length_append, ← List.range'_append_1, Nat.add_right_comm]
  refine ⟨second.frontier, first.next.trans second.next, fun i => ?_, ?_, ?_, ?_, ?_, ?_⟩
  · have low := first.next
    have high := second.next
    rw [second.fat, first.fat]
    split_ifs <;> first | rfl | omega
  · rw [range, List.map_append, List.map_append, first.clusters, second.clusters]
  · rw [List.map_append, List.map_append, first.sources, second.sources]
  · rw [range, List.map_append, second.allocs, first.allocs, List.append_assoc]
  · rw [second.writes, first.writes]
  · rw [second.image, first.image]

/-- One allocation returns the next cluster of the closed form and keeps the frontier. -/
theorem Prepared.alloc {ctx : Fat32Ctx} (frontier : ctx.Frontier vbr) {node prepared : FsNode}
    (cluster : prepared.firstCluster = (fat32ClusterAlloc vbr ctx).1)
    (source : prepared.source = node.source) :
    Prepared vbr ctx [node] [prepared] (fat32ClusterAlloc vbr ctx).2 := by
  have next := frontier.next
  have result : (fat32ClusterAlloc vbr ctx).1 = allocCluster vbr (ctx.allocs.length + 1) := by
    rw [allocCluster]
    split_ifs with room
    · rw [fat32ClusterAlloc_of_room frontier room]
    · rw [fat32ClusterAlloc_of_full frontier (by omega)]
  have clusters : [prepared].map FsNode.firstCluster =
      (List.range' (ctx.allocs.length + 1) [node].length).map (allocCluster vbr) := by
    simp [cluster, result]
  have sources : [prepared].map FsNode.source = [node].map FsNode.source := by
    simp [source]
  by_cases room : vbr.rootCluster + (ctx.allocs.length + 1) < fat32Entries vbr
  · rw [fat32ClusterAlloc_of_room frontier room]
    refine ⟨⟨?_, fun i lower upper => ?_⟩, by simp only; omega, fun i => ?_, clusters, sources, ?_,
      rfl, rfl⟩
    · simp only [List.length_append, List.length_singleton]
      omega
    · simp only at lower ⊢
      rw [Function.update_of_ne (by omega)]
      exact frontier.free i (by omega) upper
    · simp only [Function.update_apply]
      split_ifs <;> first | rfl | omega
    · simp [allocCluster, room]
  · rw [fat32ClusterAlloc_of_full frontier (by omega)]
    refine ⟨⟨?_, frontier.free⟩, le_rfl, fun i => ?_, clusters, sources, ?_, rfl, rfl⟩
    · simp only [List.length_append, List.length_singleton]
      omega
    · rw [if_neg (by simp only; omega)]
    · simp [allocCluster, room]

mutual

theorem fat32PrepareNode_prepared {ctx : Fat32Ctx} (frontier : ctx.Frontier vbr) (node : FsNode)
    (unassigned : ∀ below ∈ node.preorder, below.firstCluster = 0) :
    Prepared vbr ctx node.preorder (fat32PrepareNode vbr ctx node).1.preorder
      (fat32PrepareNode vbr ctx node).2 := by
  match node with
  | .file name cluster hostPath size =>
      obtain rfl : cluster = 0 := unassigned _ (List.mem_singleton_self _)
      exact .alloc frontier rfl rfl
  | .directory name cluster children =>
      rw [FsNode.preorder_directory, List.forall_mem_cons] at unassigned
      obtain rfl : cluster = 0 := unassigned.1
      rw [fat32PrepareNode, if_pos rfl, FsNode.preorder_directory, FsNode.preorder_directory]
      have first : Prepared vbr ctx [.directory name 0 children] [.directory name
          (fat32ClusterAlloc vbr ctx).1
          (fat32PrepareNodes vbr (fat32ClusterAlloc vbr ctx).2 children).1]
          (fat32ClusterAlloc vbr ctx).2 := .alloc frontier rfl rfl
      exact first.trans (fat32PrepareNodes_prepared first.frontier children unassigned.2)

theorem fat32PrepareNodes_prepared {ctx : Fat32Ctx} (frontier : ctx.Frontier vbr)
    (nodes : List FsNode) (unassigned : FsNode.Unassigned nodes) :
    Prepared vbr ctx (FsNode.preorderBelow nodes)
      (FsNode.preorderBelow (fat32PrepareNodes vbr ctx nodes).1)
      (fat32PrepareNodes vbr ctx nodes).2 := by
  match nodes with
  | [] => exact .refl frontier
  | node :: nodes =>
      rw [FsNode.Unassigned, FsNode.preorderBelow_cons, List.forall_mem_append] at unassigned
      rw [fat32PrepareNodes, FsNode.preorderBelow_cons, FsNode.preorderBelow_cons]
      have first := fat32PrepareNode_prepared frontier node unassigned.1
      exact first.trans (fat32PrepareNodes_prepared first.frontier nodes unassigned.2)

end

mutual

/-- The first pass changes nothing but clusters. -/
theorem fat32PrepareNode_unassign (vbr : Vbr) (ctx : Fat32Ctx) (node : FsNode) :
    (fat32PrepareNode vbr ctx node).1.unassign = node.unassign := by
  match node with
  | .file name cluster hostPath size =>
      rw [fat32PrepareNode]
      split_ifs <;> rfl
  | .directory name cluster children =>
      rw [fat32PrepareNode]
      split_ifs <;> simp only [FsNode.unassign, fat32PrepareNodes_unassign]

theorem fat32PrepareNodes_unassign (vbr : Vbr) (ctx : Fat32Ctx) (nodes : List FsNode) :
    FsNode.unassignAll (fat32PrepareNodes vbr ctx nodes).1 = FsNode.unassignAll nodes := by
  match nodes with
  | [] => rfl
  | node :: nodes =>
      rw [fat32PrepareNodes, FsNode.unassignAll, fat32PrepareNode_unassign,
        fat32PrepareNodes_unassign, FsNode.unassignAll]

end

theorem fat32PrepareTree_unassign (vbr : Vbr) (ctx : Fat32Ctx) (root : FsNode) :
    (fat32PrepareTree vbr ctx root).1.unassign = root.unassign := by
  cases root with
  | file => rfl
  | directory name cluster children =>
      rw [fat32PrepareTree, FsNode.unassign, fat32PrepareNodes_unassign, FsNode.unassign]

/-! ## Directory entries -/

/-- The entry of a node whose name overflows no buffer. -/
def fsEntry : FsNode → FatDirEntry
  | .directory name cluster _ => ⟨(fatName name).getD [], attrDirectory, cluster, 0⟩
  | .file name cluster _ size => ⟨(fatName name).getD [], attrArchive, cluster, size⟩

/-- The entries that `fat32_write_directory` creates. -/
def fsDirectoryEntries (parent : Option ℕ) (cluster : ℕ) (children : List FsNode) :
    List FatDirEntry :=
  (match parent with
    | none => []
    | some parent => fat32DotEntries cluster parent) ++ children.map fsEntry

/-- Number of entries before those of the children. -/
def fsDots (parent : Option ℕ) : ℕ := if parent.isSome then 2 else 0

/-- The names below a directory fit their buffers, and the entries fit one cluster. -/
def FsItemFits (vbr : Vbr) : Option ℕ × FsNode → Prop
  | (_, .file _ _ _ _) => True
  | (parent, .directory _ _ children) =>
      (∀ child ∈ children, FatNameInBounds child.name) ∧
        32 * (fsDots parent + children.length) ≤ fat32ClusterSize vbr

/-- Every directory of the tree has names and entries that fit. -/
def FsNode.EntriesFit (vbr : Vbr) (root : FsNode) : Prop :=
  ∀ item ∈ root.items none, FsItemFits vbr item

theorem length_fsDirectoryEntries (parent : Option ℕ) (cluster : ℕ) (children : List FsNode) :
    (fsDirectoryEntries parent cluster children).length = fsDots parent + children.length := by
  cases parent with
  | none => simp [fsDirectoryEntries, fsDots]
  | some parent =>
      rw [fsDirectoryEntries, List.length_append, List.length_map]
      rfl

theorem fat32CreateEntry_isSome_iff (node : FsNode) :
    (fat32CreateEntry node).isSome ↔ FatNameInBounds node.name := by
  rw [← fatName_isSome_iff]
  cases node <;> simp [fat32CreateEntry, FsNode.name]

theorem fat32CreateEntry_eq_some {node : FsNode} (bounds : FatNameInBounds node.name) :
    fat32CreateEntry node = some (fsEntry node) := by
  obtain ⟨bytes, named⟩ := Option.isSome_iff_exists.mp ((fatName_isSome_iff _).mpr bounds)
  cases node <;> simp only [FsNode.name] at named <;> simp [fat32CreateEntry, fsEntry, named]

/-- All entries are created exactly when all names fit. -/
theorem mapM_fat32CreateEntry (children : List FsNode) :
    children.mapM fat32CreateEntry =
      if ∀ child ∈ children, FatNameInBounds child.name then some (children.map fsEntry)
      else none := by
  induction children with
  | nil => simp
  | cons child children induction =>
      rw [List.mapM_cons, induction]
      by_cases first : FatNameInBounds child.name
      · rw [fat32CreateEntry_eq_some first]
        simp only [List.forall_mem_cons, first, true_and]
        split_ifs <;> rfl
      · have missing : fat32CreateEntry child = none := by
          rwa [← Option.not_isSome_iff_eq_none, fat32CreateEntry_isSome_iff]
        rw [missing]
        exact (if_neg fun all => first (all child (List.mem_cons_self ..))).symm

/-- A directory is written exactly when its names and entries fit. -/
theorem fat32WriteDirectory_eq (partitionOffset : ℕ) (ctx : Fat32Ctx) (parent : Option ℕ)
    (name : CString) (cluster : ℕ) (children : List FsNode) [Decidable (FsItemFits vbr
      (parent, .directory name cluster children))] :
    fat32WriteDirectory vbr partitionOffset ctx parent cluster children =
      if FsItemFits vbr (parent, .directory name cluster children) then
        some (fat32WriteCluster vbr partitionOffset ctx cluster fun i =>
          ((fsDirectoryEntries parent cluster children).flatMap FatDirEntry.bytes).getD i 0)
      else none := by
  unfold fat32WriteDirectory
  rw [mapM_fat32CreateEntry]
  by_cases names : ∀ child ∈ children, FatNameInBounds child.name
  · rw [if_pos names, Option.bind_some]
    change (if fat32ClusterSize vbr < 32 * (fsDirectoryEntries parent cluster children).length then
      none else some _) = _
    rw [length_fsDirectoryEntries]
    by_cases fits : 32 * (fsDots parent + children.length) ≤ fat32ClusterSize vbr
    · rw [if_neg (Nat.not_lt.mpr fits), if_pos ⟨names, fits⟩]
      rfl
    · rw [if_pos (Nat.not_le.mp fits), if_neg fun both => fits both.2]
  · rw [if_neg names, if_neg fun both => names both.1]
    rfl

theorem fsItemFits_ignores : FsNode.IgnoresClusters (FsItemFits vbr) := by
  rintro ⟨parent, node⟩ ⟨other, twin⟩ placed same fits
  cases node with
  | file =>
      cases twin with
      | file => trivial
      | directory => cases same
  | directory name cluster children =>
      cases twin with
      | file => cases same
      | directory name' cluster' children' =>
          have names := FsNode.map_name_of_unassign (FsNode.directory.inj same).2.2
          have lengths := congrArg List.length names
          rw [List.length_map, List.length_map] at lengths
          simp only at placed
          obtain ⟨bounds, room⟩ := fits
          refine ⟨fun child member => ?_, ?_⟩
          · obtain ⟨original, original_mem, equal⟩ :=
              List.mem_map.mp (names ▸ List.mem_map_of_mem member)
            exact equal ▸ bounds original original_mem
          · rwa [fsDots, ← placed, ← lengths]

/-- The first pass keeps which directories fit. -/
theorem fat32PrepareTree_fit (ctx : Fat32Ctx) (root : FsNode) :
    (fat32PrepareTree vbr ctx root).1.EntriesFit vbr ↔ root.EntriesFit vbr := by
  have same := fat32PrepareTree_unassign vbr ctx root
  exact ⟨FsNode.forall_items_congr fsItemFits_ignores same rfl,
    FsNode.forall_items_congr fsItemFits_ignores same.symm rfl⟩

/-! ## The second pass -/

/-- `fat32_write_tree` on one node, without its children. -/
def fat32WriteItem (vbr : Vbr) (host : HostFiles) (partitionOffset : ℕ) (ctx : Fat32Ctx) :
    Option ℕ × FsNode → Option Fat32Ctx
  | (_, .file _ cluster hostPath size) =>
      fat32WriteFile vbr host partitionOffset ctx cluster hostPath size
  | (parent, .directory _ cluster children) =>
      fat32WriteDirectory vbr partitionOffset ctx parent cluster children

mutual

/-- The recursive pass writes the nodes of the tree one after the other. -/
theorem fat32WriteNode_eq (host : HostFiles) (partitionOffset : ℕ) (parent : Option ℕ)
    (ctx : Fat32Ctx) (node : FsNode) :
    fat32WriteNode vbr host partitionOffset parent ctx node =
      (node.items parent).foldlM (fat32WriteItem vbr host partitionOffset) ctx := by
  match node with
  | .file name cluster hostPath size =>
      rw [fat32WriteNode, FsNode.items, List.foldlM_cons, fat32WriteItem]
      exact (bind_pure _).symm
  | .directory name cluster children =>
      rw [fat32WriteNode, FsNode.items, List.foldlM_cons, fat32WriteItem]
      congr 1
      funext ctx
      exact fat32WriteNodes_eq host partitionOffset cluster ctx children

theorem fat32WriteNodes_eq (host : HostFiles) (partitionOffset cluster : ℕ) (ctx : Fat32Ctx)
    (nodes : List FsNode) :
    fat32WriteNodes vbr host partitionOffset cluster ctx nodes =
      (FsNode.itemsBelow cluster nodes).foldlM (fat32WriteItem vbr host partitionOffset) ctx := by
  match nodes with
  | [] => rfl
  | node :: nodes =>
      rw [fat32WriteNodes, FsNode.itemsBelow, List.foldlM_append, fat32WriteNode_eq]
      congr 1
      funext ctx
      exact fat32WriteNodes_eq host partitionOffset cluster ctx nodes

end

/-- Clusters that writing a node allocates beyond its first one. -/
def FsNode.extraClusters (vbr : Vbr) (host : HostFiles) : FsNode → ℕ
  | file _ _ hostPath size =>
      if (host hostPath).isSome then (size - 1) / fat32ClusterSize vbr else 0
  | directory _ _ _ => 0

/-- Whether writing a node writes any cluster. -/
def FsNode.written (host : HostFiles) : FsNode → Bool
  | file _ _ hostPath size => (host hostPath).isSome && size ≠ 0
  | directory _ _ _ => true

theorem fat32WriteFileLoop_zero (partitionOffset fuel : ℕ) (ctx : Fat32Ctx) (bytes : List UInt8)
    (cluster previous : ℕ) :
    fat32WriteFileLoop vbr partitionOffset fuel ctx bytes 0 cluster previous =
      some (ctx, previous) := by
  cases fuel <;> rfl

/-- The write loop, one iteration unfolded. -/
theorem fat32WriteFileLoop_succ (partitionOffset fuel : ℕ) (ctx : Fat32Ctx) (bytes : List UInt8)
    {remaining : ℕ} (cluster previous : ℕ) (nonempty : remaining ≠ 0) :
    fat32WriteFileLoop vbr partitionOffset (fuel + 1) ctx bytes remaining cluster previous =
      if fat32ClusterSize vbr < remaining then
        fat32WriteFileLoop vbr partitionOffset fuel
          (fat32ClusterAlloc vbr
            (fat32WriteChunk vbr partitionOffset ctx bytes cluster previous)).2
          (bytes.drop (fat32ClusterSize vbr)) (remaining - fat32ClusterSize vbr)
          (fat32ClusterAlloc vbr
            (fat32WriteChunk vbr partitionOffset ctx bytes cluster previous)).1 cluster
      else some (fat32WriteChunk vbr partitionOffset ctx bytes cluster previous, cluster) := by
  obtain ⟨remaining, rfl⟩ := Nat.exists_eq_succ_of_ne_zero nonempty
  rw [fat32WriteFileLoop]
  by_cases more : fat32ClusterSize vbr < remaining + 1
  · simp only [Nat.succ_eq_add_one, if_pos more, if_pos (Nat.sub_pos_of_lt more)]
  · simp only [Nat.succ_eq_add_one, if_neg more, Nat.sub_self, lt_irrefl, if_false]
    exact fat32WriteFileLoop_zero ..

theorem Fat32Ctx.Frontier.update {ctx : Fat32Ctx} (frontier : ctx.Frontier vbr) {i : ℕ}
    (below : i < ctx.nextFreeCluster) (value : ℕ) :
    ({ ctx with fat := Function.update ctx.fat i value } : Fat32Ctx).Frontier vbr := by
  refine ⟨frontier.next, fun j lower upper => ?_⟩
  simp only at lower ⊢
  rw [Function.update_of_ne (by omega)]
  exact frontier.free j lower upper

/-- The address lies outside a cluster. -/
def OutsideCluster (vbr : Vbr) (partitionOffset address cluster : ℕ) : Prop :=
  address < fat32ClusterOffset vbr partitionOffset cluster ∨
    fat32ClusterOffset vbr partitionOffset cluster + fat32ClusterSize vbr ≤ address

/-- The clusters a pass has handed out and written: `count` allocations, and writes to the given
clusters only. -/
structure Traced (vbr : Vbr) (partitionOffset : ℕ) (ctx : Fat32Ctx) (count : ℕ) (clusters : List ℕ)
    (after : Fat32Ctx) : Prop where
  frontier : after.Frontier vbr
  next : ctx.nextFreeCluster ≤ after.nextFreeCluster
  allocs : after.allocs =
    ctx.allocs ++ (List.range' (ctx.allocs.length + 1) count).map (allocCluster vbr)
  writes : after.writes = ctx.writes ++ clusters
  image : ∀ address, (∀ cluster ∈ clusters, OutsideCluster vbr partitionOffset address cluster) →
    after.image address = ctx.image address

theorem Traced.trans {partitionOffset : ℕ} {ctx mid after : Fat32Ctx} {count moreCount : ℕ}
    {clusters moreClusters : List ℕ}
    (first : Traced vbr partitionOffset ctx count clusters mid)
    (second : Traced vbr partitionOffset mid moreCount moreClusters after) :
    Traced vbr partitionOffset ctx (count + moreCount) (clusters ++ moreClusters) after := by
  have length : mid.allocs.length = ctx.allocs.length + count := by
    rw [first.allocs, List.length_append, List.length_map, List.length_range']
  refine ⟨second.frontier, first.next.trans second.next, ?_, ?_, fun address outside => ?_⟩
  · rw [second.allocs, length, first.allocs, List.append_assoc, ← List.map_append,
      ← List.range'_append_1, Nat.add_right_comm]
  · rw [second.writes, first.writes, List.append_assoc]
  · rw [List.forall_mem_append] at outside
    rw [second.image address outside.2, first.image address outside.1]

@[simp] theorem fat32WriteCluster_fat (partitionOffset : ℕ) (ctx : Fat32Ctx) (cluster : ℕ)
    (buffer : ℕ → UInt8) :
    (fat32WriteCluster vbr partitionOffset ctx cluster buffer).fat = ctx.fat := rfl

@[simp] theorem fat32WriteCluster_nextFreeCluster (partitionOffset : ℕ) (ctx : Fat32Ctx)
    (cluster : ℕ) (buffer : ℕ → UInt8) :
    (fat32WriteCluster vbr partitionOffset ctx cluster buffer).nextFreeCluster =
      ctx.nextFreeCluster := rfl

theorem fat32WriteCluster_image (partitionOffset : ℕ) (ctx : Fat32Ctx) (cluster : ℕ)
    (buffer : ℕ → UInt8) :
    (fat32WriteCluster vbr partitionOffset ctx cluster buffer).image =
      ctx.image.blit (fat32ClusterOffset vbr partitionOffset cluster) (fat32ClusterSize vbr)
        buffer := rfl

@[simp] theorem fat32WriteCluster_allocs (partitionOffset : ℕ) (ctx : Fat32Ctx) (cluster : ℕ)
    (buffer : ℕ → UInt8) :
    (fat32WriteCluster vbr partitionOffset ctx cluster buffer).allocs = ctx.allocs := rfl

@[simp] theorem fat32WriteCluster_writes (partitionOffset : ℕ) (ctx : Fat32Ctx) (cluster : ℕ)
    (buffer : ℕ → UInt8) :
    (fat32WriteCluster vbr partitionOffset ctx cluster buffer).writes =
      ctx.writes ++ [cluster] := rfl

theorem fat32WriteCluster_traced (partitionOffset : ℕ) {ctx : Fat32Ctx}
    (frontier : ctx.Frontier vbr) (cluster : ℕ) (buffer : ℕ → UInt8) :
    Traced vbr partitionOffset ctx 0 [cluster]
      (fat32WriteCluster vbr partitionOffset ctx cluster buffer) where
  frontier := ⟨by simpa using frontier.next, by simpa using frontier.free⟩
  next := by simp
  allocs := by simp
  writes := by simp
  image address outside := ByteMemory.blit_of_outside (outside cluster (List.mem_singleton_self _))

theorem Fat32Ctx.Frontier.traced_update (partitionOffset : ℕ) {ctx : Fat32Ctx}
    (frontier : ctx.Frontier vbr) {i : ℕ} (below : i < ctx.nextFreeCluster) (value : ℕ) :
    Traced vbr partitionOffset ctx 0 [] { ctx with fat := Function.update ctx.fat i value } where
  frontier := frontier.update below value
  next := le_rfl
  allocs := by simp
  writes := by simp
  image _ _ := rfl

theorem fat32WriteChunk_traced (partitionOffset : ℕ) {ctx : Fat32Ctx} (bytes : List UInt8)
    (cluster : ℕ) {previous : ℕ} (frontier : ctx.Frontier vbr)
    (previous_lt : previous < ctx.nextFreeCluster) :
    Traced vbr partitionOffset ctx 0 [cluster]
      (fat32WriteChunk vbr partitionOffset ctx bytes cluster previous) := by
  rw [fat32WriteChunk]
  split_ifs
  · have linked := frontier.traced_update partitionOffset previous_lt cluster
    exact linked.trans (fat32WriteCluster_traced partitionOffset linked.frontier cluster _)
  · exact fat32WriteCluster_traced partitionOffset frontier cluster _

theorem fat32ClusterAlloc_traced (partitionOffset : ℕ) {ctx : Fat32Ctx}
    (frontier : ctx.Frontier vbr) :
    (fat32ClusterAlloc vbr ctx).1 = allocCluster vbr (ctx.allocs.length + 1) ∧
    Traced vbr partitionOffset ctx 1 [] (fat32ClusterAlloc vbr ctx).2 := by
  have prepared : Prepared vbr ctx [.file [] 0 [] 0] [.file [] (fat32ClusterAlloc vbr ctx).1 [] 0]
      (fat32ClusterAlloc vbr ctx).2 := .alloc frontier rfl rfl
  refine ⟨List.singleton_inj.mp prepared.clusters, prepared.frontier, prepared.next,
    prepared.allocs, ?_, fun address _ => by rw [prepared.image]⟩
  rw [prepared.writes, List.append_nil]

theorem sub_one_div_of_lt {size remaining : ℕ} (sized : 0 < size) (more : size < remaining) :
    (remaining - 1) / size = (remaining - size - 1) / size + 1 := by
  rw [show remaining - 1 = remaining - size - 1 + size by omega, Nat.add_div_right _ sized]

/-- The write loop always ends, and writes the first cluster and every cluster it allocates. -/
theorem fat32WriteFileLoop_traced (sized : 0 < fat32ClusterSize vbr) (partitionOffset : ℕ)
    {fuel : ℕ} {ctx : Fat32Ctx} {bytes : List UInt8} {remaining cluster previous : ℕ}
    (frontier : ctx.Frontier vbr) (nonempty : remaining ≠ 0) (fueled : remaining ≤ fuel)
    (cluster_lt : cluster < ctx.nextFreeCluster) (previous_lt : previous < ctx.nextFreeCluster) :
    ∃ after last,
      fat32WriteFileLoop vbr partitionOffset fuel ctx bytes remaining cluster previous =
        some (after, last) ∧
      last < after.nextFreeCluster ∧
      Traced vbr partitionOffset ctx ((remaining - 1) / fat32ClusterSize vbr)
        (cluster :: (List.range' (ctx.allocs.length + 1)
          ((remaining - 1) / fat32ClusterSize vbr)).map (allocCluster vbr)) after := by
  induction fuel generalizing ctx bytes remaining cluster previous with
  | zero => omega
  | succ fuel induction =>
      have chunk := fat32WriteChunk_traced partitionOffset bytes cluster frontier previous_lt
      rw [fat32WriteFileLoop_succ _ _ _ _ _ _ nonempty]
      generalize fat32WriteChunk vbr partitionOffset ctx bytes cluster previous = mid at chunk ⊢
      split_ifs with more
      · obtain ⟨result, allocated⟩ := fat32ClusterAlloc_traced partitionOffset chunk.frontier
        have both := chunk.trans allocated
        have length : mid.allocs.length = ctx.allocs.length := by
          rw [chunk.allocs, List.range'_zero, List.map_nil, List.append_nil]
        have fresh : (fat32ClusterAlloc vbr mid).1 <
            (fat32ClusterAlloc vbr mid).2.nextFreeCluster := by
          have grown := allocated.frontier.next
          rw [allocated.allocs, List.length_append, List.length_map, List.length_range'] at grown
          have before := cluster_lt.trans_le both.next
          rw [result, allocCluster]
          split_ifs <;> omega
        obtain ⟨after, last, ran, last_lt, traced⟩ := @induction
          (fat32ClusterAlloc vbr mid).2 (bytes.drop (fat32ClusterSize vbr))
          (remaining - fat32ClusterSize vbr) (fat32ClusterAlloc vbr mid).1 cluster
          allocated.frontier (by omega) (by omega) fresh (cluster_lt.trans_le both.next)
        refine ⟨after, last, ran, last_lt, ?_⟩
        have whole := both.trans traced
        rw [allocated.allocs, List.length_append, List.length_map, List.length_range', length,
          result, length] at whole
        rw [sub_one_div_of_lt sized more, List.range'_succ, List.map_cons]
        simpa [Nat.add_comm] using whole
      · rw [Nat.div_eq_of_lt (by omega)]
        exact ⟨mid, cluster, rfl, cluster_lt.trans_le chunk.next, chunk⟩

theorem Traced.refl (partitionOffset : ℕ) {ctx : Fat32Ctx} (frontier : ctx.Frontier vbr) :
    Traced vbr partitionOffset ctx 0 [] ctx where
  frontier := frontier
  next := le_rfl
  allocs := by simp
  writes := by simp
  image _ _ := rfl

/-- The clusters that writing a node writes, when `count` allocations came before. -/
def FsNode.writtenClusters (vbr : Vbr) (host : HostFiles) (count : ℕ) (node : FsNode) : List ℕ :=
  if node.written host then
    node.firstCluster ::
      (List.range' (count + 1) (node.extraClusters vbr host)).map (allocCluster vbr)
  else []

/-- A node that allocates clusters is written. -/
theorem FsNode.extraClusters_of_not_written {host : HostFiles} {node : FsNode}
    (idle : node.written host = false) : node.extraClusters vbr host = 0 := by
  cases node with
  | file name first hostPath size =>
      rw [FsNode.written, Bool.and_eq_false_iff, decide_eq_false_iff_not, not_not] at idle
      rw [FsNode.extraClusters]
      split_ifs with opened
      · rw [idle.resolve_left (by rw [opened]; exact Bool.true_eq_false_eq_False), Nat.zero_sub,
          Nat.zero_div]
      · rfl
  | directory name first children => cases idle

theorem FsNode.mem_writtenClusters (vbr : Vbr) (host : HostFiles) (count : ℕ) (node : FsNode)
    (cluster : ℕ) :
    cluster ∈ node.writtenClusters vbr host count ↔
      (node.written host = true ∧ cluster = node.firstCluster) ∨
      cluster ∈ (List.range' (count + 1) (node.extraClusters vbr host)).map (allocCluster vbr) := by
  rw [FsNode.writtenClusters]
  split_ifs with written
  · simp only [List.mem_cons, written, true_and]
  · have idle := (Bool.not_eq_true _).mp written
    simp [node.extraClusters_of_not_written idle, written]

theorem fat32WriteFile_of_opened {host : HostFiles} {hostPath : CString} {bytes : List UInt8}
    (opened : host hostPath = some bytes) (partitionOffset : ℕ) (ctx : Fat32Ctx)
    (firstCluster size : ℕ) :
    fat32WriteFile vbr host partitionOffset ctx firstCluster hostPath size =
      (fat32WriteFileLoop vbr partitionOffset size ctx bytes size firstCluster 0).map fun result =>
        { result.1 with fat := Function.update result.1.fat result.2 fatEof } := by
  rw [fat32WriteFile, opened]

theorem fat32WriteItem_directory (host : HostFiles) (partitionOffset : ℕ) (ctx : Fat32Ctx)
    {parent : Option ℕ} {name : CString} {cluster : ℕ} {children : List FsNode}
    (fits : FsItemFits vbr (parent, .directory name cluster children)) :
    fat32WriteItem vbr host partitionOffset ctx (parent, .directory name cluster children) =
      some (fat32WriteCluster vbr partitionOffset ctx cluster fun i =>
        ((fsDirectoryEntries parent cluster children).flatMap FatDirEntry.bytes).getD i 0) := by
  classical
  rw [fat32WriteItem, fat32WriteDirectory_eq partitionOffset ctx parent name, if_pos fits]

/-- What is written fits. -/
theorem fat32WriteItem_fits {host : HostFiles} {partitionOffset : ℕ} {ctx after : Fat32Ctx}
    {item : Option ℕ × FsNode}
    (wrote : fat32WriteItem vbr host partitionOffset ctx item = some after) :
    FsItemFits vbr item := by
  classical
  match item with
  | (_, .file _ _ _ _) => trivial
  | (parent, .directory name cluster children) =>
      rw [fat32WriteItem, fat32WriteDirectory_eq partitionOffset ctx parent name] at wrote
      by_contra large
      rw [if_neg large] at wrote
      cases wrote

theorem fat32WriteItems_fit {host : HostFiles} {partitionOffset : ℕ} {ctx after : Fat32Ctx}
    {items : List (Option ℕ × FsNode)}
    (wrote : items.foldlM (fat32WriteItem vbr host partitionOffset) ctx = some after) :
    ∀ item ∈ items, FsItemFits vbr item := by
  induction items generalizing ctx with
  | nil => exact List.forall_mem_nil _
  | cons item items induction =>
      rw [List.foldlM_cons, Option.bind_eq_bind, Option.bind_eq_some_iff] at wrote
      obtain ⟨mid, first, rest⟩ := wrote
      exact List.forall_mem_cons.mpr ⟨fat32WriteItem_fits first, induction rest⟩

/-- The second pass ends only on trees whose entries fit. -/
theorem fat32WriteTree_fits {host : HostFiles} {partitionOffset : ℕ} {ctx after : Fat32Ctx}
    {tree : FsNode} (wrote : fat32WriteTree vbr host partitionOffset ctx tree = some after) :
    tree.EntriesFit vbr := by
  rw [fat32WriteTree, fat32WriteNode_eq] at wrote
  exact fat32WriteItems_fit wrote

/-- Writing one node that fits ends. -/
theorem fat32WriteItem_traced (sized : 0 < fat32ClusterSize vbr) (host : HostFiles)
    (partitionOffset : ℕ) {ctx : Fat32Ctx} (frontier : ctx.Frontier vbr)
    {item : Option ℕ × FsNode} (fits : FsItemFits vbr item)
    (cluster_lt : item.2.firstCluster < ctx.nextFreeCluster) :
    ∃ after, fat32WriteItem vbr host partitionOffset ctx item = some after ∧
      Traced vbr partitionOffset ctx (item.2.extraClusters vbr host)
        (item.2.writtenClusters vbr host ctx.allocs.length) after := by
  have positive : 0 < ctx.nextFreeCluster := by omega
  match item with
  | (parent, .directory name cluster children) =>
      exact ⟨_, fat32WriteItem_directory host partitionOffset ctx fits,
        fat32WriteCluster_traced partitionOffset frontier cluster _⟩
  | (parent, .file name cluster hostPath size) =>
      rw [fat32WriteItem]
      obtain missing | ⟨bytes, opened⟩ := Option.eq_none_or_eq_some (host hostPath)
      · refine ⟨ctx, by rw [fat32WriteFile, missing], ?_⟩
        simpa [FsNode.writtenClusters, FsNode.written, FsNode.extraClusters, missing] using
          Traced.refl partitionOffset frontier
      · rw [fat32WriteFile_of_opened opened]
        by_cases empty : size = 0
        · subst empty
          refine ⟨_, rfl, ?_⟩
          simpa [FsNode.writtenClusters, FsNode.written, FsNode.extraClusters, opened] using
            frontier.traced_update partitionOffset positive fatEof
        · obtain ⟨mid, last, ran, last_lt, traced⟩ :=
            @fat32WriteFileLoop_traced vbr sized partitionOffset size ctx bytes size cluster 0
              frontier empty le_rfl cluster_lt positive
          rw [ran, Option.map_some]
          refine ⟨_, rfl, ?_⟩
          simpa [FsNode.writtenClusters, FsNode.written, FsNode.extraClusters, FsNode.firstCluster,
            opened, empty] using
            traced.trans (traced.frontier.traced_update partitionOffset last_lt fatEof)

/-- Clusters that writing the nodes allocates. -/
def extraClusterCount (vbr : Vbr) (host : HostFiles) (nodes : List FsNode) : ℕ :=
  (nodes.map (FsNode.extraClusters vbr host)).sum

@[simp] theorem extraClusterCount_cons (vbr : Vbr) (host : HostFiles) (node : FsNode)
    (nodes : List FsNode) : extraClusterCount vbr host (node :: nodes) =
      node.extraClusters vbr host + extraClusterCount vbr host nodes := rfl

/-- Writing nodes that fit one after the other ends. -/
theorem fat32WriteItems_traced (sized : 0 < fat32ClusterSize vbr) (host : HostFiles)
    (partitionOffset : ℕ) {ctx : Fat32Ctx} (frontier : ctx.Frontier vbr)
    (items : List (Option ℕ × FsNode)) (fits : ∀ item ∈ items, FsItemFits vbr item)
    (below : ∀ item ∈ items, item.2.firstCluster < ctx.nextFreeCluster) :
    ∃ after clusters,
      items.foldlM (fat32WriteItem vbr host partitionOffset) ctx = some after ∧
      Traced vbr partitionOffset ctx (extraClusterCount vbr host (items.map Prod.snd)) clusters
        after ∧
      ∀ cluster, cluster ∈ clusters ↔
        (∃ node ∈ items.map Prod.snd, node.written host = true ∧ cluster = node.firstCluster) ∨
        cluster ∈ (List.range' (ctx.allocs.length + 1)
          (extraClusterCount vbr host (items.map Prod.snd))).map (allocCluster vbr) := by
  induction items generalizing ctx with
  | nil => exact ⟨ctx, [], rfl, .refl partitionOffset frontier, by simp [extraClusterCount]⟩
  | cons item items induction =>
      rw [List.forall_mem_cons] at fits below
      obtain ⟨mid, wrote, first⟩ :=
        fat32WriteItem_traced sized host partitionOffset frontier fits.1 below.1
      obtain ⟨after, clusters, ran, rest, members⟩ := induction first.frontier fits.2
        fun item member => (below.2 item member).trans_le first.next
      refine ⟨after, item.2.writtenClusters vbr host ctx.allocs.length ++ clusters, ?_,
        first.trans rest, fun cluster => ?_⟩
      · rw [List.foldlM_cons, wrote]
        exact ran
      · have length : mid.allocs.length + 1 =
            ctx.allocs.length + 1 + item.2.extraClusters vbr host := by
          rw [first.allocs, List.length_append, List.length_map, List.length_range',
            Nat.add_right_comm]
        rw [List.mem_append, FsNode.mem_writtenClusters, members, length, List.map_cons,
          extraClusterCount_cons, ← List.range'_append_1, List.map_append, List.mem_append]
        simp only [List.exists_mem_cons_iff]
        exact or_or_or_comm

end

end ItWorksOS
