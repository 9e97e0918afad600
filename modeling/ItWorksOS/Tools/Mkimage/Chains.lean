import ItWorksOS.Tools.Mkimage.Partition

/-!
# Cluster chains

Every node of the tree owns one chain: its first cluster from the first pass, followed by the
clusters that the second pass allocates while the node is written. The chains are known from the
tree, and the table and the image hold each of them.
-/

namespace ItWorksOS

/-- Follow the table from a cluster to the end mark, over at most `count` clusters. -/
def fatChain (fat : ℕ → ℕ) : ℕ → ℕ → Option (List ℕ)
  | 0, _ => none
  | count + 1, cluster =>
      if fat cluster = fatEof then some [cluster]
      else (fatChain fat count (fat cluster)).map (cluster :: ·)

theorem fatChain_singleton {fat : ℕ → ℕ} {cluster : ℕ} (last : fat cluster = fatEof) :
    fatChain fat 1 cluster = some [cluster] := if_pos last

theorem fatChain_cons {fat : ℕ → ℕ} {cluster next count : ℕ} {chain : List ℕ}
    (link : fat cluster = next) (inner : next ≠ fatEof)
    (rest : fatChain fat count next = some chain) :
    fatChain fat (count + 1) cluster = some (cluster :: chain) := by
  rw [fatChain, link, if_neg inner, rest, Option.map_some]

/-- A chain depends only on the entries of its own clusters. -/
theorem fatChain_congr {left right : ℕ → ℕ} {count cluster : ℕ} {chain : List ℕ}
    (followed : fatChain left count cluster = some chain)
    (agree : ∀ c ∈ chain, right c = left c) : fatChain right count cluster = some chain := by
  induction count generalizing cluster chain with
  | zero => cases followed
  | succ count induction =>
      rw [fatChain] at followed ⊢
      split_ifs at followed with last
      · obtain rfl := Option.some.inj followed
        rw [if_pos ((agree cluster (List.mem_singleton_self _)).trans last)]
      · obtain ⟨rest, inner, rfl⟩ := Option.map_eq_some_iff.mp followed
        rw [List.forall_mem_cons] at agree
        rw [agree.1, if_neg last, induction inner agree.2, Option.map_some]

section

variable {vbr : Vbr}

/-! ## Clusters of the image -/

/-- The clusters of a chain hold the bytes, followed by zeros. -/
def ChainHolds (vbr : Vbr) (partitionOffset : ℕ) (image : ByteMemory) (chain : List ℕ)
    (bytes : List UInt8) : Prop :=
  ∀ k c, chain[k]? = some c → ∀ offset < fat32ClusterSize vbr,
    image (fat32ClusterOffset vbr partitionOffset c + offset) =
      bytes.getD (k * fat32ClusterSize vbr + offset) 0

/-- Different clusters do not overlap. -/
theorem outsideCluster_of_ne {partitionOffset left right offset : ℕ} (left_above : 2 ≤ left)
    (right_above : 2 ≤ right) (differ : left ≠ right) (inside : offset < fat32ClusterSize vbr) :
    OutsideCluster vbr partitionOffset (fat32ClusterOffset vbr partitionOffset left + offset)
      right := by
  rw [OutsideCluster, fat32ClusterOffset, fat32ClusterOffset, if_neg (by omega), if_neg (by omega)]
  rcases Nat.lt_or_gt_of_ne differ with before | after
  · have := Nat.mul_le_mul_right (fat32ClusterSize vbr) (show left - 2 + 1 ≤ right - 2 by omega)
    rw [Nat.add_mul, Nat.one_mul] at this
    omega
  · have := Nat.mul_le_mul_right (fat32ClusterSize vbr) (show right - 2 + 1 ≤ left - 2 by omega)
    rw [Nat.add_mul, Nat.one_mul] at this
    omega

theorem ChainHolds.frame {partitionOffset : ℕ} {before after : ByteMemory} {chain others : List ℕ}
    {bytes : List UInt8} (holds : ChainHolds vbr partitionOffset before chain bytes)
    (frame : ∀ address, (∀ c ∈ others, OutsideCluster vbr partitionOffset address c) →
      after address = before address)
    (above : ∀ c ∈ chain, 2 ≤ c) (others_above : ∀ c ∈ others, 2 ≤ c)
    (disjoint : ∀ c ∈ chain, c ∉ others) : ChainHolds vbr partitionOffset after chain bytes := by
  intro k c at_k offset inside
  have member := List.mem_of_getElem? at_k
  rw [← holds k c at_k offset inside]
  refine frame _ fun other listed => ?_
  exact outsideCluster_of_ne (above c member) (others_above other listed)
    (fun same => disjoint c member (same ▸ listed)) inside

theorem ChainHolds.cons {partitionOffset : ℕ} {image : ByteMemory} {cluster : ℕ} {chain : List ℕ}
    {bytes : List UInt8}
    (first : ∀ offset < fat32ClusterSize vbr,
      image (fat32ClusterOffset vbr partitionOffset cluster + offset) = bytes.getD offset 0)
    (rest : ChainHolds vbr partitionOffset image chain (bytes.drop (fat32ClusterSize vbr))) :
    ChainHolds vbr partitionOffset image (cluster :: chain) bytes := by
  intro k c at_k offset inside
  cases k with
  | zero =>
      obtain rfl : cluster = c := Option.some.inj at_k
      rw [Nat.zero_mul, Nat.zero_add, first offset inside]
  | succ k =>
      rw [rest k c at_k offset inside, List.getD_eq_getElem?_getD, List.getD_eq_getElem?_getD,
        List.getElem?_drop, Nat.add_mul, Nat.one_mul]
      congr 2
      omega

/-! ## Writing one node -/

theorem fat32WriteChunk_fat (partitionOffset : ℕ) (ctx : Fat32Ctx) (bytes : List UInt8)
    (cluster previous : ℕ) :
    (fat32WriteChunk vbr partitionOffset ctx bytes cluster previous).fat =
      if previous ≠ 0 then Function.update ctx.fat previous cluster else ctx.fat := by
  rw [fat32WriteChunk]
  split_ifs <;> rfl

theorem fat32WriteChunk_image (partitionOffset : ℕ) (ctx : Fat32Ctx) (bytes : List UInt8)
    (cluster previous : ℕ) :
    (fat32WriteChunk vbr partitionOffset ctx bytes cluster previous).image =
      ctx.image.blit (fat32ClusterOffset vbr partitionOffset cluster) (fat32ClusterSize vbr)
        fun i => (bytes.take (fat32ClusterSize vbr)).getD i 0 := by
  rw [fat32WriteChunk]
  split_ifs <;> rfl

/-- What the write loop leaves: the clusters are chained and linked from the previous one, and hold
the bytes. -/
structure Linked (vbr : Vbr) (partitionOffset : ℕ) (ctx : Fat32Ctx) (bytes : List UInt8)
    (cluster previous : ℕ) (rest : List ℕ) (after : Fat32Ctx) (last : ℕ) : Prop where
  follow : fatChain after.fat (rest.length + 1) cluster = some (cluster :: rest)
  last : after.fat last = fatEof
  link : previous ≠ 0 → after.fat previous = cluster
  kept : ∀ i, i ≠ previous → i ∉ cluster :: rest → after.fat i = ctx.fat i
  holds : ChainHolds vbr partitionOffset after.image (cluster :: rest) bytes
  frame : ∀ address, (∀ c ∈ cluster :: rest, OutsideCluster vbr partitionOffset address c) →
    after.image address = ctx.image address

theorem fat32WriteChunk_linked (partitionOffset : ℕ) (ctx : Fat32Ctx) (bytes : List UInt8)
    {cluster previous : ℕ} (allocated : ctx.fat cluster = fatEof) (distinct : cluster ≠ previous) :
    Linked vbr partitionOffset ctx bytes cluster previous []
      (fat32WriteChunk vbr partitionOffset ctx bytes cluster previous) cluster := by
  have fat := @fat32WriteChunk_fat vbr partitionOffset ctx bytes cluster previous
  have image := @fat32WriteChunk_image vbr partitionOffset ctx bytes cluster previous
  generalize fat32WriteChunk vbr partitionOffset ctx bytes cluster previous = mid at fat image ⊢
  have last : mid.fat cluster = fatEof := by
    rw [fat]
    split_ifs
    · rw [Function.update_of_ne distinct, allocated]
    · exact allocated
  refine ⟨fatChain_singleton last, last, fun linked => ?_, fun i apart _ => ?_, ?_,
    fun address outside => ?_⟩
  · rw [fat, if_pos linked, Function.update_self]
  · rw [fat]
    split_ifs
    · rw [Function.update_of_ne apart]
    · rfl
  · refine .cons (fun offset inside => ?_) fun k c at_k => by cases at_k
    rw [image, ByteMemory.blit_of_inside inside]
    simp [List.getD_eq_getElem?_getD, List.getElem?_take_of_lt inside]
  · rw [image]
    exact ByteMemory.blit_of_outside (outside cluster (List.mem_singleton_self _))

/-- One iteration before a run of the loop from the next cluster. -/
theorem Linked.cons {partitionOffset : ℕ} {ctx mid next after : Fat32Ctx} {bytes : List UInt8}
    {cluster previous start last : ℕ} {rest : List ℕ}
    (chunk : Linked vbr partitionOffset ctx bytes cluster previous [] mid cluster)
    (loop : Linked vbr partitionOffset next (bytes.drop (fat32ClusterSize vbr)) start cluster rest
      after last)
    (fat : next.fat = Function.update mid.fat start fatEof) (image : next.image = mid.image)
    (cluster_above : 2 ≤ cluster) (distinct : cluster ≠ previous)
    (above : ∀ c ∈ start :: rest, 2 ≤ c) (inner : start ≠ fatEof)
    (fresh : cluster ∉ start :: rest) (unlinked : previous ∉ start :: rest) :
    Linked vbr partitionOffset ctx bytes cluster previous (start :: rest) after last := by
  refine ⟨fatChain_cons (loop.link (by omega)) inner loop.follow, loop.last, fun linked => ?_,
    fun i apart outside => ?_, ?_, fun address outside => ?_⟩
  · rw [loop.kept previous distinct.symm unlinked, fat,
      Function.update_of_ne (List.ne_of_not_mem_cons unlinked), chunk.link linked]
  · have unchanged := List.not_mem_of_not_mem_cons outside
    rw [loop.kept i (List.ne_of_not_mem_cons outside) unchanged, fat,
      Function.update_of_ne (List.ne_of_not_mem_cons unchanged)]
    exact chunk.kept i apart (by simpa using List.ne_of_not_mem_cons outside)
  · refine .cons (fun offset inside => ?_) loop.holds
    have first := chunk.holds 0 cluster rfl offset inside
    rw [Nat.zero_mul, Nat.zero_add] at first
    rw [← first, ← image]
    refine loop.frame _ fun c member => ?_
    exact outsideCluster_of_ne cluster_above (above c member)
      (fun same => fresh (same ▸ member)) inside
  · rw [List.forall_mem_cons] at outside
    rw [loop.frame address outside.2, image]
    exact chunk.frame address (by simpa using outside.1)

theorem fat32WriteFileLoop_linked (sized : 0 < fat32ClusterSize vbr) (above : 2 ≤ vbr.rootCluster)
    (partitionOffset : ℕ) {fuel : ℕ} {ctx after : Fat32Ctx}
    {bytes : List UInt8} {remaining cluster previous last : ℕ} (frontier : ctx.Frontier vbr)
    (nonempty : remaining ≠ 0) (fueled : remaining ≤ fuel) (cluster_above : 2 ≤ cluster)
    (cluster_lt : cluster < ctx.nextFreeCluster) (allocated : ctx.fat cluster = fatEof)
    (previous_lt : previous < ctx.nextFreeCluster) (distinct : cluster ≠ previous)
    (room : vbr.rootCluster + (ctx.allocs.length + (remaining - 1) / fat32ClusterSize vbr) <
      min (fat32Entries vbr) fatEof)
    (ran : fat32WriteFileLoop vbr partitionOffset fuel ctx bytes remaining cluster previous =
      some (after, last)) :
    Linked vbr partitionOffset ctx bytes cluster previous
      (List.range' (vbr.rootCluster + (ctx.allocs.length + 1))
        ((remaining - 1) / fat32ClusterSize vbr)) after last := by
  induction fuel generalizing ctx bytes remaining cluster previous with
  | zero => omega
  | succ fuel induction =>
      have chunk := @fat32WriteChunk_linked vbr partitionOffset ctx bytes _ _ allocated distinct
      have trace := fat32WriteChunk_traced partitionOffset bytes cluster frontier previous_lt
      rw [fat32WriteFileLoop_succ _ _ _ _ _ _ nonempty] at ran
      generalize fat32WriteChunk vbr partitionOffset ctx bytes cluster previous = mid
        at chunk trace ran
      split_ifs at ran with more
      · have length : mid.allocs.length = ctx.allocs.length := by
          rw [trace.allocs, List.range'_zero, List.map_nil, List.append_nil]
        obtain ⟨extra, extra_eq⟩ : ∃ extra,
          (remaining - fat32ClusterSize vbr - 1) / fat32ClusterSize vbr = extra := ⟨_, rfl⟩
        rw [sub_one_div_of_lt sized more, extra_eq, ← length] at room ⊢
        obtain ⟨start, start_eq⟩ : ∃ start,
          vbr.rootCluster + (mid.allocs.length + 1) = start := ⟨_, rfl⟩
        have next := trace.frontier.next
        have before := cluster_lt.trans_le trace.next
        have earlier := previous_lt.trans_le trace.next
        have advance := fat32ClusterAlloc_of_room trace.frontier (by omega)
        have grown := (fat32ClusterAlloc_traced partitionOffset trace.frontier).2
        rw [advance] at ran grown
        rw [start_eq] at ran grown ⊢
        have rest := @induction _ _ _ _ _ grown.frontier (by omega) (by omega) (by omega)
          (by simp only; omega) (Function.update_self ..) (by simp only; omega) (by omega)
          (by simp only [List.length_append, List.length_singleton]; rw [extra_eq]; omega) ran
        simp only [List.length_append, List.length_singleton, extra_eq] at rest
        rw [show vbr.rootCluster + (mid.allocs.length + 1 + 1) = start + 1 by omega] at rest
        have members : ∀ c ∈ start :: List.range' (start + 1) extra, start ≤ c := by
          simp only [List.forall_mem_cons, List.mem_range'_1]
          exact ⟨le_rfl, fun c range => by omega⟩
        rw [List.range'_succ]
        refine chunk.cons rest rfl rfl cluster_above distinct (fun c member => ?_) (by omega)
          (fun member => ?_) fun member => ?_
        · have := members c member
          omega
        · have := members _ member
          omega
        · have := members _ member
          omega
      · obtain ⟨rfl, rfl⟩ := Prod.mk.inj (Option.some.inj ran)
        rw [Nat.div_eq_of_lt (by omega)]
        exact chunk

/-- The bytes that writing a node stores. -/
def fsItemBytes (host : HostFiles) : Option ℕ × FsNode → List UInt8
  | (_, .file _ _ hostPath _) => (host hostPath).getD []
  | (parent, .directory _ cluster children) =>
      (fsDirectoryEntries parent cluster children).flatMap FatDirEntry.bytes

/-- The chain of a node, when its further clusters start at the given one. -/
def FsNode.chain (vbr : Vbr) (host : HostFiles) (start : ℕ) (node : FsNode) : List ℕ :=
  node.firstCluster :: List.range' start (node.extraClusters vbr host)

/-- The chain of a node leads from its first cluster to an end mark and holds its bytes. -/
structure ChainStored (vbr : Vbr) (host : HostFiles) (partitionOffset : ℕ) (after : Fat32Ctx)
    (item : Option ℕ × FsNode) (chain : List ℕ) : Prop where
  follow : fatChain after.fat chain.length item.2.firstCluster = some chain
  holds : item.2.written host = true →
    ChainHolds vbr partitionOffset after.image chain (fsItemBytes host item)

/-- Writing a node stores its chain and changes nothing else. -/
structure Stored (vbr : Vbr) (host : HostFiles) (partitionOffset : ℕ) (ctx : Fat32Ctx)
    (item : Option ℕ × FsNode) (chain : List ℕ) (after : Fat32Ctx) : Prop extends
    ChainStored vbr host partitionOffset after item chain where
  kept : ∀ i, i ≠ 0 → i ∉ chain → after.fat i = ctx.fat i
  frame : ∀ address, (∀ c ∈ chain, OutsideCluster vbr partitionOffset address c) →
    after.image address = ctx.image address

theorem fat32WriteDirectory_stored (host : HostFiles) (partitionOffset : ℕ) (ctx : Fat32Ctx)
    (parent : Option ℕ) (name : CString) {cluster : ℕ} (children : List FsNode)
    (allocated : ctx.fat cluster = fatEof) :
    Stored vbr host partitionOffset ctx (parent, .directory name cluster children) [cluster]
      (fat32WriteCluster vbr partitionOffset ctx cluster fun i =>
        ((fsDirectoryEntries parent cluster children).flatMap FatDirEntry.bytes).getD i 0) := by
  refine ⟨⟨fatChain_singleton allocated, fun _ => ?_⟩, fun _ _ _ => rfl, fun address outside => ?_⟩
  · refine .cons (fun offset inside => ?_) fun k c at_k => by cases at_k
    rw [fat32WriteCluster_image, ByteMemory.blit_of_inside inside, fsItemBytes]
  · rw [fat32WriteCluster_image]
    exact ByteMemory.blit_of_outside (outside cluster (List.mem_singleton_self _))

/-- A file that is not written keeps the chain of its first cluster. -/
theorem stored_of_not_written {host : HostFiles} {partitionOffset : ℕ} {ctx after : Fat32Ctx}
    {item : Option ℕ × FsNode} (allocated : after.fat item.2.firstCluster = fatEof)
    (idle : item.2.written host = false) (kept : ∀ i, i ≠ 0 → after.fat i = ctx.fat i)
    (image : after.image = ctx.image) :
    Stored vbr host partitionOffset ctx item [item.2.firstCluster] after where
  follow := fatChain_singleton allocated
  holds written := by rw [idle] at written; cases written
  kept i nonzero _ := kept i nonzero
  frame _ _ := by rw [image]

theorem fat32WriteItem_stored (sized : 0 < fat32ClusterSize vbr) (above : 2 ≤ vbr.rootCluster)
    {host : HostFiles} {partitionOffset : ℕ}
    {ctx after : Fat32Ctx} (frontier : ctx.Frontier vbr) {item : Option ℕ × FsNode}
    (cluster_above : 2 ≤ item.2.firstCluster)
    (cluster_lt : item.2.firstCluster < ctx.nextFreeCluster)
    (allocated : ctx.fat item.2.firstCluster = fatEof)
    (room : vbr.rootCluster + (ctx.allocs.length + item.2.extraClusters vbr host) <
      min (fat32Entries vbr) fatEof)
    (wrote : fat32WriteItem vbr host partitionOffset ctx item = some after) :
    Stored vbr host partitionOffset ctx item
      (item.2.chain vbr host (vbr.rootCluster + (ctx.allocs.length + 1))) after := by
  match item with
  | (parent, .directory name cluster children) =>
      rw [fat32WriteItem_directory host partitionOffset ctx (fat32WriteItem_fits wrote)] at wrote
      obtain rfl := Option.some.inj wrote
      exact fat32WriteDirectory_stored host partitionOffset ctx parent name children allocated
  | (parent, .file name cluster hostPath size) =>
      rw [fat32WriteItem] at wrote
      simp only [FsNode.firstCluster] at cluster_above cluster_lt allocated
      simp only [FsNode.extraClusters] at room
      simp only [FsNode.chain, FsNode.extraClusters]
      obtain missing | ⟨bytes, opened⟩ := Option.eq_none_or_eq_some (host hostPath)
      · rw [fat32WriteFile, missing] at wrote
        obtain rfl := Option.some.inj wrote
        rw [missing, Option.isSome_none, if_neg Bool.false_ne_true, List.range'_zero]
        exact stored_of_not_written allocated (by simp [FsNode.written, missing])
          (fun _ _ => rfl) rfl
      · rw [fat32WriteFile_of_opened opened, Option.map_eq_some_iff] at wrote
        rw [opened, Option.isSome_some, if_pos rfl] at room ⊢
        obtain ⟨⟨mid, last⟩, ran, rfl⟩ := wrote
        by_cases empty : size = 0
        · subst empty
          rw [fat32WriteFileLoop_zero] at ran
          obtain ⟨rfl, rfl⟩ := Prod.mk.inj (Option.some.inj ran)
          rw [Nat.zero_sub, Nat.zero_div, List.range'_zero]
          refine stored_of_not_written ?_ (by simp [FsNode.written]) (fun i nonzero => ?_) rfl
          · exact (Function.update_of_ne (by simp only [FsNode.firstCluster]; omega) ..).trans
              allocated
          · exact Function.update_of_ne nonzero ..
        · have linked := fat32WriteFileLoop_linked sized above partitionOffset frontier empty
            le_rfl cluster_above cluster_lt allocated (by omega) (by omega) room ran
          have same : Function.update mid.fat last fatEof = mid.fat :=
            Function.update_eq_self_iff.mpr linked.last.symm
          refine ⟨⟨?_, fun _ => ?_⟩, fun i nonzero outside => ?_, linked.frame⟩
          · simp only [same]
            exact linked.follow
          · simp only [fsItemBytes, opened, Option.getD_some]
            exact linked.holds
          · simp only [same]
            exact linked.kept i nonzero outside

/-! ## Writing all nodes -/

/-- The chains of nodes written one after the other. -/
def fsChains (vbr : Vbr) (host : HostFiles) : ℕ → List FsNode → List (List ℕ)
  | _, [] => []
  | start, node :: nodes =>
      node.chain vbr host start :: fsChains vbr host (start + node.extraClusters vbr host) nodes

theorem mem_fsChains_flatten (host : HostFiles) (start : ℕ) (nodes : List FsNode) (c : ℕ) :
    c ∈ (fsChains vbr host start nodes).flatten ↔
      c ∈ nodes.map FsNode.firstCluster ∨
        (start ≤ c ∧ c < start + extraClusterCount vbr host nodes) := by
  induction nodes generalizing start with
  | nil =>
      simp only [fsChains, extraClusterCount, List.flatten_nil, List.map_nil, List.sum_nil,
        List.not_mem_nil, false_or, false_iff]
      omega
  | cons node nodes induction =>
      simp only [fsChains, FsNode.chain, List.flatten_cons, List.cons_append, List.mem_cons,
        List.mem_append, List.mem_range'_1, List.map_cons, extraClusterCount_cons, induction]
      generalize extraClusterCount vbr host nodes = count
      generalize node.extraClusters vbr host = extra
      constructor
      · rintro (first | range | member | range)
        · exact .inl (.inl first)
        · exact .inr (by omega)
        · exact .inl (.inr member)
        · exact .inr (by omega)
      · rintro ((first | member) | range)
        · exact .inl first
        · exact .inr (.inr (.inl member))
        · by_cases early : c < start + extra
          · exact .inr (.inl ⟨range.1, early⟩)
          · exact .inr (.inr (.inr (by omega)))

/-- Chains whose first clusters are distinct and come before the further ones are disjoint. -/
theorem fsChains_nodup (host : HostFiles) {start : ℕ} {nodes : List FsNode}
    (firsts : (nodes.map FsNode.firstCluster).Nodup)
    (before : ∀ c ∈ nodes.map FsNode.firstCluster, c < start) :
    (fsChains vbr host start nodes).flatten.Nodup := by
  induction nodes generalizing start with
  | nil => exact List.nodup_nil
  | cons node nodes induction =>
      rw [List.map_cons, List.nodup_cons] at firsts
      rw [List.map_cons, List.forall_mem_cons] at before
      rw [fsChains, List.flatten_cons, FsNode.chain, List.cons_append, List.nodup_cons,
        List.nodup_append]
      have rest := @induction (start + node.extraClusters vbr host) firsts.2 fun c member =>
        (before.2 c member).trans_le (Nat.le_add_right ..)
      refine ⟨fun member => ?_, List.nodup_range', rest, fun left left_mem right right_mem => ?_⟩
      · rw [List.mem_append, List.mem_range'_1, mem_fsChains_flatten] at member
        rcases member with range | member | range
        · omega
        · exact firsts.1 member
        · omega
      · rw [List.mem_range'_1] at left_mem
        rcases (mem_fsChains_flatten host _ nodes right).mp right_mem with member | range
        · have := before.2 right member
          omega
        · omega

/-- Changes outside a chain keep it. -/
theorem ChainStored.frame {host : HostFiles} {partitionOffset : ℕ} {before after : Fat32Ctx}
    {item : Option ℕ × FsNode} {chain others : List ℕ}
    (stored : ChainStored vbr host partitionOffset before item chain)
    (kept : ∀ i, i ≠ 0 → i ∉ others → after.fat i = before.fat i)
    (frame : ∀ address, (∀ c ∈ others, OutsideCluster vbr partitionOffset address c) →
      after.image address = before.image address)
    (above : ∀ c ∈ chain, 2 ≤ c) (others_above : ∀ c ∈ others, 2 ≤ c)
    (disjoint : ∀ c ∈ chain, c ∉ others) :
    ChainStored vbr host partitionOffset after item chain where
  follow := by
    refine fatChain_congr stored.follow fun c member => ?_
    have := above c member
    exact kept c (by omega) (disjoint c member)
  holds written := (stored.holds written).frame frame above others_above disjoint

/-- The nodes are allocated: their first clusters are distinct and end marks. -/
structure Allocated (ctx : Fat32Ctx) (nodes : List FsNode) : Prop where
  above : ∀ node ∈ nodes, 2 ≤ node.firstCluster
  below : ∀ node ∈ nodes, node.firstCluster < ctx.nextFreeCluster
  marked : ∀ node ∈ nodes, ctx.fat node.firstCluster = fatEof
  nodup : (nodes.map FsNode.firstCluster).Nodup

theorem Allocated.chains_above {ctx : Fat32Ctx} {nodes : List FsNode}
    (allocated : Allocated ctx nodes) (vbr : Vbr) (host : HostFiles) {start : ℕ}
    (start_above : 2 ≤ start) :
    ∀ c ∈ (fsChains vbr host start nodes).flatten, 2 ≤ c := by
  intro c member
  rcases (mem_fsChains_flatten host start nodes c).mp member with first | range
  · obtain ⟨node, listed, rfl⟩ := List.mem_map.mp first
    exact allocated.above node listed
  · omega

theorem Allocated.chains_nodup {ctx : Fat32Ctx} {nodes : List FsNode}
    (allocated : Allocated ctx nodes) (vbr : Vbr) (host : HostFiles) {start : ℕ}
    (after : ctx.nextFreeCluster ≤ start) : (fsChains vbr host start nodes).flatten.Nodup := by
  refine fsChains_nodup host allocated.nodup ?_
  rw [List.forall_mem_map]
  exact fun node member => (allocated.below node member).trans_le after

/-- Writing all nodes stores the chain of each of them and changes nothing else. -/
theorem fat32WriteItems_stored (sized : 0 < fat32ClusterSize vbr) (above : 2 ≤ vbr.rootCluster)
    {host : HostFiles} {partitionOffset : ℕ}
    {ctx after : Fat32Ctx} (frontier : ctx.Frontier vbr) {items : List (Option ℕ × FsNode)}
    (allocated : Allocated ctx (items.map Prod.snd))
    (room : vbr.rootCluster + (ctx.allocs.length +
      extraClusterCount vbr host (items.map Prod.snd)) < min (fat32Entries vbr) fatEof)
    (ran : items.foldlM (fat32WriteItem vbr host partitionOffset) ctx = some after) :
    let chains := fsChains vbr host (vbr.rootCluster + (ctx.allocs.length + 1)) (items.map Prod.snd)
    List.Forall₂ (ChainStored vbr host partitionOffset after) items chains ∧
    (∀ i, i ≠ 0 → i ∉ chains.flatten → after.fat i = ctx.fat i) ∧
    ∀ address, (∀ c ∈ chains.flatten, OutsideCluster vbr partitionOffset address c) →
      after.image address = ctx.image address := by
  induction items generalizing ctx with
  | nil =>
      obtain rfl := Option.some.inj ran
      exact ⟨.nil, fun _ _ _ => rfl, fun _ _ => rfl⟩
  | cons item items induction =>
      rw [List.map_cons] at allocated room
      rw [extraClusterCount_cons] at room
      have next := frontier.next
      have item_lt := allocated.below item.2 (List.mem_cons_self ..)
      have fits := fat32WriteItems_fit ran item (List.mem_cons_self ..)
      obtain ⟨mid, wrote, traced⟩ :=
        fat32WriteItem_traced sized host partitionOffset frontier fits item_lt
      rw [List.foldlM_cons, wrote] at ran
      have stored := fat32WriteItem_stored sized above frontier
        (allocated.above _ (List.mem_cons_self ..)) item_lt
        (allocated.marked _ (List.mem_cons_self ..)) (by omega) wrote
      have length : mid.allocs.length = ctx.allocs.length + item.2.extraClusters vbr host := by
        rw [traced.allocs, List.length_append, List.length_map, List.length_range']
      have start : vbr.rootCluster + (mid.allocs.length + 1) =
          vbr.rootCluster + (ctx.allocs.length + 1) + item.2.extraClusters vbr host := by
        omega
      have nodup := allocated.chains_nodup vbr host
        (show _ ≤ vbr.rootCluster + (ctx.allocs.length + 1) by omega)
      have above_all := allocated.chains_above vbr host
        (show 2 ≤ vbr.rootCluster + (ctx.allocs.length + 1) by omega)
      rw [fsChains, List.flatten_cons, List.forall_mem_append] at above_all
      rw [fsChains, List.flatten_cons, List.nodup_append] at nodup
      have first_mem : ∀ node ∈ items.map Prod.snd, node.firstCluster ∈
          (fsChains vbr host (vbr.rootCluster + (ctx.allocs.length + 1) +
            item.2.extraClusters vbr host) (items.map Prod.snd)).flatten := fun node member =>
        (mem_fsChains_flatten host _ _ _).mpr (.inl (List.mem_map_of_mem member))
      have remaining : Allocated mid (items.map Prod.snd) := by
        refine ⟨fun node member => allocated.above node (List.mem_cons_of_mem _ member),
          fun node member => (allocated.below node (List.mem_cons_of_mem _ member)).trans_le
            traced.next, fun node member => ?_, (List.nodup_cons.mp allocated.nodup).2⟩
        have nonzero := allocated.above node (List.mem_cons_of_mem _ member)
        rw [stored.kept node.firstCluster (by omega) fun inside =>
          nodup.2.2 _ inside _ (first_mem node member) rfl]
        exact allocated.marked node (List.mem_cons_of_mem _ member)
      have rest := induction traced.frontier remaining (by omega) ran
      rw [start] at rest
      simp only [List.map_cons, fsChains, List.flatten_cons]
      refine ⟨.cons ?_ rest.1, fun i nonzero outside => ?_, fun address outside => ?_⟩
      · exact stored.toChainStored.frame rest.2.1 rest.2.2 above_all.1 above_all.2
          fun c member other => nodup.2.2 c member c other rfl
      · rw [List.mem_append, not_or] at outside
        rw [rest.2.1 i nonzero outside.2, stored.kept i nonzero outside.1]
      · rw [List.forall_mem_append] at outside
        rw [rest.2.2 address outside.2, stored.frame address outside.1]

/-! ## The chains of a tree -/

/-- Number of clusters in the chain of a node. -/
def FsNode.clusterCount (vbr : Vbr) : FsNode → ℕ
  | file _ _ _ size => max 1 ((size + fat32ClusterSize vbr - 1) / fat32ClusterSize vbr)
  | directory _ _ _ => 1

/-- Every file of the tree opens on the host. -/
def HostOpens (host : HostFiles) (nodes : List FsNode) : Prop :=
  ∀ node ∈ nodes, ∀ file ∈ node.source, (host file.1).isSome = true

theorem FsNode.chain_length (sized : 0 < fat32ClusterSize vbr) {host : HostFiles} (start : ℕ)
    {node : FsNode} (opens : ∀ file ∈ node.source, (host file.1).isSome = true) :
    (node.chain vbr host start).length = node.clusterCount vbr := by
  rw [FsNode.chain, List.length_cons, List.length_range']
  cases node with
  | directory name cluster children => rfl
  | file name cluster hostPath size =>
      rw [FsNode.extraClusters, FsNode.clusterCount, if_pos (opens _ rfl)]
      by_cases empty : size = 0
      · rw [empty, Nat.zero_sub, Nat.zero_div, Nat.zero_add, Nat.div_eq_of_lt (by omega)]
        rfl
      · rw [show size + fat32ClusterSize vbr - 1 = size - 1 + fat32ClusterSize vbr by omega,
          Nat.add_div_right _ sized, Nat.max_eq_right (Nat.le_add_left ..)]

/-- When no allocation failed, there was room for all of them. -/
theorem room_of_allocs {count : ℕ} (root : vbr.rootCluster < fat32Entries vbr)
    (succeeded : 0 ∉ (List.range' 1 count).map (allocCluster vbr)) :
    vbr.rootCluster + count < fat32Entries vbr := by
  by_contra full
  refine succeeded (List.mem_map.mpr ⟨count, ?_, if_neg full⟩)
  rw [List.mem_range'_1]
  omega

theorem fat32TableInit_nextFreeCluster (image : ByteMemory) (above : 2 ≤ vbr.rootCluster)
    (root : vbr.rootCluster < fat32Entries vbr) :
    (fat32TableInit vbr image).nextFreeCluster = vbr.rootCluster + 1 := by
  rw [(fat32TableInit_frontier image above root).next]
  simp only [fat32TableInit, List.length_nil]
  omega

/-- After the first pass only the first clusters of nodes are in use. -/
theorem Prepared.fat_eq_zero {image : ByteMemory} {children nodes : List FsNode} {ctx : Fat32Ctx}
    (prepared : Prepared vbr (fat32TableInit vbr image) children nodes.tail ctx)
    (above : 2 ≤ vbr.rootCluster)
    (clusters : nodes.map FsNode.firstCluster =
      (List.range (ctx.allocs.length + 1)).map (allocCluster vbr))
    (room : vbr.rootCluster + ctx.allocs.length < fat32Entries vbr) {i : ℕ} (bound : 2 ≤ i)
    (unused : i ∉ nodes.map FsNode.firstCluster) : ctx.fat i = 0 := by
  have next := prepared.frontier.next
  have apart : ∀ k < ctx.allocs.length + 1, i ≠ vbr.rootCluster + k := by
    intro k small same
    rw [clusters, List.mem_map] at unused
    exact unused ⟨k, List.mem_range.mpr small, (if_pos (by omega)).trans same.symm⟩
  rw [prepared.fat, fat32TableInit_nextFreeCluster image above (by omega)]
  have not_root := apart 0 (by omega)
  rw [if_neg fun inside => apart (i - vbr.rootCluster) (by omega) (by omega)]
  simp only [fat32TableInit]
  rw [Function.update_of_ne (by omega), Function.update_of_ne (by omega),
    Function.update_of_ne (by omega)]

theorem Prepared.allocated {image : ByteMemory} {children : List FsNode} {nodes : List FsNode}
    {ctx : Fat32Ctx} (prepared : Prepared vbr (fat32TableInit vbr image) children nodes.tail ctx)
    (above : 2 ≤ vbr.rootCluster)
    (clusters : nodes.map FsNode.firstCluster =
      (List.range (ctx.allocs.length + 1)).map (allocCluster vbr))
    (room : vbr.rootCluster + ctx.allocs.length < fat32Entries vbr) : Allocated ctx nodes := by
  have next := prepared.frontier.next
  have first := @fat32TableInit_nextFreeCluster vbr image above (by omega)
  have exact_cluster : ∀ i < ctx.allocs.length + 1, allocCluster vbr i = vbr.rootCluster + i :=
    fun i bound => if_pos (by omega)
  have indexed : ∀ node ∈ nodes, ∃ i, i < ctx.allocs.length + 1 ∧
      node.firstCluster = vbr.rootCluster + i := by
    intro node member
    obtain ⟨i, at_i⟩ := List.mem_iff_getElem?.mp member
    obtain ⟨cluster, bound⟩ := eq_of_map_eq_map_range clusters at_i
    exact ⟨i, bound, cluster.trans (exact_cluster i bound)⟩
  refine ⟨fun node member => ?_, fun node member => ?_, fun node member => ?_, ?_⟩
  · obtain ⟨i, -, cluster⟩ := indexed node member
    omega
  · obtain ⟨i, bound, cluster⟩ := indexed node member
    omega
  · obtain ⟨i, bound, cluster⟩ := indexed node member
    rw [prepared.fat, cluster, first]
    split_ifs with later
    · rfl
    · obtain rfl : i = 0 := by omega
      exact Function.update_self ..
  · rw [clusters]
    refine List.Nodup.map_on (fun i left j right same => ?_) List.nodup_range
    rw [exact_cluster i (List.mem_range.mp left), exact_cluster j (List.mem_range.mp right)] at same
    omega

/-- A parameter block of a FAT32 volume: the clusters are not empty, the root cluster is a cluster
of the table, and no cluster number is the end mark. -/
structure Vbr.Valid (vbr : Vbr) : Prop where
  sized : 0 < fat32ClusterSize vbr
  above : 2 ≤ vbr.rootCluster
  root : vbr.rootCluster < fat32Entries vbr
  entries : fat32Entries vbr ≤ fatEof

theorem systemVbr_valid : systemVbr.Valid where
  sized := by decide
  above := by decide
  root := by decide
  entries := by decide

/-- The chains of the nodes of a tree after both passes. -/
def treeChains (vbr : Vbr) (host : HostFiles) (tree : FsNode) : List (List ℕ) :=
  fsChains vbr host (vbr.rootCluster + tree.preorder.length) tree.preorder

/-- What both passes leave of a tree: the chains of all nodes are stored and the table has no other
entries, and the cluster of a file without contents is as it was in the image. -/
structure TreeStored (vbr : Vbr) (host : HostFiles) (partitionOffset : ℕ) (image : ByteMemory)
    (ctx : Fat32Ctx) (tree : FsNode) (after : Fat32Ctx) : Prop where
  allocated : Allocated ctx tree.preorder
  next : ctx.nextFreeCluster ≤ vbr.rootCluster + tree.preorder.length
  stored : List.Forall₂ (ChainStored vbr host partitionOffset after) (tree.items none)
    (treeChains vbr host tree)
  used : ∀ i, 2 ≤ i → after.fat i ≠ 0 → i ∈ (treeChains vbr host tree).flatten
  idle : ∀ node ∈ tree.preorder, node.written host = false → ∀ offset < fat32ClusterSize vbr,
    after.image (fat32ClusterOffset vbr partitionOffset node.firstCluster + offset) =
      image (fat32ClusterOffset vbr partitionOffset node.firstCluster + offset)

/-- Both passes end if the entries fit. When no allocation failed, there was room for all clusters,
and with room below the end mark the tree is stored. -/
theorem fat32WriteTree_stored (sized : 0 < fat32ClusterSize vbr) (above : 2 ≤ vbr.rootCluster)
    (root : vbr.rootCluster < fat32Entries vbr) (host : HostFiles) (partitionOffset : ℕ)
    (image : ByteMemory) (name : CString) (cluster : ℕ) {children : List FsNode}
    (unassigned : FsNode.Unassigned children)
    (fits : (FsNode.directory name cluster children).EntriesFit vbr) {tree : FsNode}
    {ctx : Fat32Ctx}
    (prepare : fat32PrepareTree vbr (fat32TableInit vbr image) (.directory name cluster children) =
      (tree, ctx)) :
    ∃ after, fat32WriteTree vbr host partitionOffset ctx tree = some after ∧
      (0 ∉ after.allocs → vbr.rootCluster + tree.preorder.length +
        extraClusterCount vbr host tree.preorder ≤ fat32Entries vbr) ∧
      (vbr.rootCluster + tree.preorder.length + extraClusterCount vbr host tree.preorder ≤
          min (fat32Entries vbr) fatEof →
        TreeStored vbr host partitionOffset image ctx tree after) := by
  obtain ⟨prepared, clusters, sources⟩ :=
    fat32PrepareTree_prepared image above root name cluster unassigned prepare
  have allocated_length := fat32PrepareTree_allocs_length name cluster prepared
  have preorder_length : tree.preorder.length = ctx.allocs.length + 1 := by
    rw [allocated_length, ← List.length_map FsNode.source, sources, List.length_map]
  rw [← allocated_length] at clusters
  rw [← fat32PrepareTree_fit (fat32TableInit vbr image), prepare] at fits
  obtain ⟨after, written, ran, traced, members⟩ := fat32WriteItems_traced sized host
    partitionOffset prepared.frontier (tree.items none) fits
    (prepared.frontier.items_below root clusters)
  have total : after.allocs = (List.range' 1 (ctx.allocs.length +
      extraClusterCount vbr host tree.preorder)).map (allocCluster vbr) := by
    have before : ctx.allocs = (List.range' 1 ctx.allocs.length).map (allocCluster vbr) := by
      have filled := prepared.allocs
      rw [FsNode.preorder_directory, List.length_cons, Nat.add_right_cancel_iff] at allocated_length
      rw [← allocated_length] at filled
      exact filled
    rw [traced.allocs, ← FsNode.preorder, ← List.range'_append_1, List.map_append, ← before,
      Nat.add_comm 1]
  refine ⟨after, by rw [fat32WriteTree, fat32WriteNode_eq, ran], fun succeeded => ?_,
    fun room => ?_⟩
  · have := room_of_allocs root (total ▸ succeeded)
    omega
  have allocated := prepared.allocated above clusters (by omega)
  have next := prepared.frontier.next
  obtain ⟨stored, kept, -⟩ := fat32WriteItems_stored sized above prepared.frontier allocated
    (by rw [← FsNode.preorder]; omega) ran
  rw [← FsNode.preorder] at stored kept members
  rw [← preorder_length, ← treeChains] at stored kept
  refine ⟨allocated, by omega, stored, fun i bound used => ?_,
    fun node member idle offset inside => ?_⟩
  · by_contra unused
    refine used ((kept i (by omega) unused).trans ?_)
    rw [treeChains, mem_fsChains_flatten, not_or] at unused
    exact prepared.fat_eq_zero above clusters (by omega) bound unused.1
  · have first := allocated.below node member
    have image_eq : ctx.image = image := prepared.image
    rw [← image_eq]
    refine traced.image _ fun c listed => ?_
    rcases (members c).mp listed with ⟨other, other_mem, written, rfl⟩ | extra
    · refine outsideCluster_of_ne (allocated.above node member) (allocated.above other other_mem)
        (fun same => ?_) inside
      obtain rfl := List.inj_on_of_nodup_map allocated.nodup member other_mem same
      exact Bool.false_ne_true (idle.symm.trans written)
    · obtain ⟨k, range, rfl⟩ := List.mem_map.mp extra
      rw [List.mem_range'_1] at range
      have cluster_eq : allocCluster vbr k = vbr.rootCluster + k := if_pos (by omega)
      exact outsideCluster_of_ne (allocated.above node member) (by omega) (by omega) inside

theorem HostOpens.of_sources {host : HostFiles} {nodes others : List FsNode}
    (opens : HostOpens host nodes) (same : others.map FsNode.source = nodes.map FsNode.source) :
    HostOpens host others := by
  intro node member file source
  have listed : node.source ∈ nodes.map FsNode.source := same ▸ List.mem_map_of_mem member
  obtain ⟨original, original_mem, equal⟩ := List.mem_map.mp listed
  exact opens original original_mem file (equal ▸ source)

theorem forall₂_fsChains (sized : 0 < fat32ClusterSize vbr) {host : HostFiles}
    {partitionOffset start : ℕ} {after : Fat32Ctx} {items : List (Option ℕ × FsNode)}
    (opens : HostOpens host (items.map Prod.snd))
    (stored : List.Forall₂ (ChainStored vbr host partitionOffset after) items
      (fsChains vbr host start (items.map Prod.snd))) :
    List.Forall₂ (fun node chain =>
        fatChain after.fat (node.clusterCount vbr) node.firstCluster = some chain ∧
          chain.length = node.clusterCount vbr) (items.map Prod.snd)
      (fsChains vbr host start (items.map Prod.snd)) := by
  induction items generalizing start with
  | nil => exact .nil
  | cons item items induction =>
      rw [List.map_cons, HostOpens, List.forall_mem_cons] at opens
      rw [List.map_cons, fsChains] at stored ⊢
      obtain ⟨first, rest⟩ := List.forall₂_cons.mp stored
      have length := FsNode.chain_length sized start opens.1
      exact .cons ⟨length ▸ first.follow, length⟩ (induction opens.2 rest)

/-- If every file opens, the passes end, and then, when no allocation failed, each node has one
chain of the right length, the chains are disjoint, and every entry in use belongs to one of them,
if and only if the names and the entries of every directory fit. -/
theorem fat32WriteTree_chains (vbr : Vbr) (host : HostFiles) (partitionOffset : ℕ)
    (image : ByteMemory) (name : CString) (cluster : ℕ) (children : List FsNode)
    (valid : vbr.Valid) (unassigned : FsNode.Unassigned children)
    (opens : HostOpens host (FsNode.preorderBelow children)) :
    let prepared := fat32PrepareTree vbr (fat32TableInit vbr image)
      (.directory name cluster children)
    (∃ after, fat32WriteTree vbr host partitionOffset prepared.2 prepared.1 = some after ∧
      (0 ∉ after.allocs →
        ∃ chains : List (List ℕ),
          List.Forall₂ (fun node chain =>
            fatChain after.fat (node.clusterCount vbr) node.firstCluster = some chain ∧
              chain.length = node.clusterCount vbr) prepared.1.preorder chains ∧
          (∀ chain ∈ chains, ∀ c ∈ chain, 2 ≤ c) ∧
          chains.flatten.Nodup ∧
          ∀ i, 2 ≤ i → after.fat i ≠ 0 → ∃ chain ∈ chains, i ∈ chain)) ↔
      (FsNode.directory name cluster children).EntriesFit vbr := by
  intro prepared
  constructor
  · rintro ⟨after, wrote, -⟩
    exact (fat32PrepareTree_fit _ _).mp (fat32WriteTree_fits wrote)
  intro fits
  obtain ⟨after, wrote, room, stored⟩ :=
    fat32WriteTree_stored valid.sized valid.above valid.root host
    partitionOffset image name cluster unassigned fits (Prod.mk.eta (p := prepared)).symm
  refine ⟨after, wrote, fun succeeded => ?_⟩
  have roomy := room succeeded
  have entries := valid.entries
  obtain ⟨allocated, next, chained, used, -⟩ := stored (by omega)
  have sources := (fat32PrepareTree_prepared image valid.above valid.root name cluster unassigned
    (Prod.mk.eta (p := prepared)).symm).2.2
  have opened : HostOpens host prepared.1.preorder := by
    refine HostOpens.of_sources ?_ sources
    rw [FsNode.preorder_directory, HostOpens, List.forall_mem_cons]
    exact ⟨fun file source => (Option.not_mem_none _ source).elim, opens⟩
  refine ⟨treeChains vbr host prepared.1, forall₂_fsChains valid.sized opened chained,
    fun chain member c inside => ?_, allocated.chains_nodup vbr host next,
    fun i bound nonzero => ?_⟩
  · exact allocated.chains_above vbr host (valid.above.trans (Nat.le_add_right ..)) c
      (List.mem_flatten_of_mem member inside)
  · exact List.mem_flatten.mp (used i bound nonzero)

/-- For a root with a file of two clusters no allocation fails, and the two chains are disjoint. -/
theorem fat32WriteTree_chains_two_clusters :
    ∃ after, fat32WriteTree systemVbr (sizedHost 600) (2048 * 512)
        (fat32PrepareTree systemVbr (fat32TableInit systemVbr fun _ => 0)
          (.directory [] 0 (singleFile 600))).2
        (fat32PrepareTree systemVbr (fat32TableInit systemVbr fun _ => 0)
          (.directory [] 0 (singleFile 600))).1 = some after ∧
      ∃ chains : List (List ℕ), chains.length = 2 ∧ chains.flatten.Nodup ∧
        ∀ i, 2 ≤ i → after.fat i ≠ 0 → ∃ chain ∈ chains, i ∈ chain := by
  obtain ⟨after, wrote, chained⟩ := (fat32WriteTree_chains systemVbr (sizedHost 600) (2048 * 512)
    (fun _ => 0) [] 0 (singleFile 600) systemVbr_valid (singleFile_unassigned 600)
    (fun _ _ _ _ => rfl)).mpr (singleFile_entriesFit 600)
  have allocs : (fat32WriteTree systemVbr (sizedHost 600) (2048 * 512)
      (fat32PrepareTree systemVbr (fat32TableInit systemVbr fun _ => 0)
        (.directory [] 0 (singleFile 600))).2
      (fat32PrepareTree systemVbr (fat32TableInit systemVbr fun _ => 0)
        (.directory [] 0 (singleFile 600))).1).map Fat32Ctx.allocs = some [3, 4] := by
    decide +kernel
  rw [wrote, Option.map_some, Option.some.injEq] at allocs
  obtain ⟨chains, follow, -, nodup, used⟩ := chained (by rw [allocs]; decide)
  exact ⟨after, wrote, chains, follow.length_eq.symm.trans rfl, nodup, used⟩

/-- The lines `:x…x/` and `:y…y/` with names of 63 characters. -/
def twoLongNames : List UInt8 :=
  [58] ++ List.replicate 63 120 ++ [47, 10] ++ [58] ++ List.replicate 63 121 ++ [47, 10]

/-- The lines `h:A` to `h:Q`. -/
def seventeenFiles : List UInt8 :=
  (List.range 17).flatMap fun i => [104, 58, UInt8.ofNat (65 + i), 10]

/-- On the system's volume, every file of the lines opens and no allocation fails, but the second
pass overflows a buffer. -/
def SecondPassOverflows (content : List UInt8) : Prop :=
  let root := parseDiskFiles (sizedHost 600) content
  let prepared := fat32PrepareTree systemVbr (fat32TableInit systemVbr fun _ => 0) root
  0 ∉ prepared.2.allocs ∧ HostOpens (sizedHost 600) root.preorder ∧
    ¬ ∃ after, fat32WriteTree systemVbr (sizedHost 600) (2048 * 512) prepared.2 prepared.1 =
      some after

/-- Long names and more than sixteen entries in the root overflow the buffers of the second pass. -/
theorem fat32WriteTree_overflows :
    SecondPassOverflows twoLongNames ∧ SecondPassOverflows seventeenFiles := by
  have overflows : ∀ content ∈ [twoLongNames, seventeenFiles],
      let prepared := fat32PrepareTree systemVbr (fat32TableInit systemVbr fun _ => 0)
        (parseDiskFiles (sizedHost 600) content)
      0 ∉ prepared.2.allocs ∧ (fat32WriteTree systemVbr (sizedHost 600) (2048 * 512) prepared.2
        prepared.1).isNone := by
    decide +kernel
  have both (content : List UInt8) (member : content ∈ [twoLongNames, seventeenFiles]) :
      SecondPassOverflows content := by
    obtain ⟨succeeded, missing⟩ := overflows content member
    refine ⟨succeeded, fun _ _ _ _ => rfl, ?_⟩
    rintro ⟨after, wrote⟩
    rw [Option.isNone_iff_eq_none] at missing
    cases missing.symm.trans wrote
  exact ⟨both _ (List.mem_cons_self ..), both _ (List.mem_cons_of_mem _ (List.mem_cons_self ..))⟩

end

end ItWorksOS
