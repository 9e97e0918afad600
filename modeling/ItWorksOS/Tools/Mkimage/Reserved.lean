import ItWorksOS.Tools.Mkimage.Chains

/-!
# The reserved entries of the table

Entries 0 and 1 hold the media descriptor and an end mark. Clusters that are handed out are free and
so not reserved, but `fat32_write_file` ends with an entry of the cluster it wrote last, which is
zero for an empty file.
-/

namespace ItWorksOS

/-! ## Allocations -/

/-- The reserved entries are in use. -/
def Fat32Ctx.Reserving (ctx : Fat32Ctx) : Prop := ctx.fat 0 ≠ 0 ∧ ctx.fat 1 ≠ 0

/-- Allocations are recorded, and unless one failed the reserved entries stay as they are. -/
structure ReservedKept (ctx after : Fat32Ctx) : Prop where
  allocs : ctx.allocs ⊆ after.allocs
  entries : 0 ∉ after.allocs → ctx.Reserving →
    after.fat 0 = ctx.fat 0 ∧ after.fat 1 = ctx.fat 1

theorem ReservedKept.reserving {ctx after : Fat32Ctx} (kept : ReservedKept ctx after)
    (succeeded : 0 ∉ after.allocs) (reserving : ctx.Reserving) : after.Reserving := by
  obtain ⟨first, second⟩ := kept.entries succeeded reserving
  exact ⟨first ▸ reserving.1, second ▸ reserving.2⟩

theorem ReservedKept.refl (ctx : Fat32Ctx) : ReservedKept ctx ctx :=
  ⟨List.Subset.refl _, fun _ _ => ⟨rfl, rfl⟩⟩

theorem ReservedKept.trans {ctx mid after : Fat32Ctx} (first : ReservedKept ctx mid)
    (second : ReservedKept mid after) : ReservedKept ctx after := by
  refine ⟨List.Subset.trans first.allocs second.allocs, fun succeeded reserving => ?_⟩
  have early : 0 ∉ mid.allocs := fun failed => succeeded (second.allocs failed)
  have before := first.entries early reserving
  have later := second.entries succeeded (first.reserving early reserving)
  exact ⟨later.1.trans before.1, later.2.trans before.2⟩

theorem fatFindFree_free {fat : ℕ → ℕ} {count i found : ℕ}
    (search : fatFindFree fat count i = some found) : fat found = fatFree := by
  induction count generalizing i with
  | zero => cases search
  | succ count induction =>
      rw [fatFindFree] at search
      split_ifs at search with free
      · exact Option.some.inj search ▸ free
      · exact induction search

section

variable {vbr : Vbr}

/-- An allocation that succeeds returns a cluster behind the reserved entries. -/
theorem fat32ClusterAlloc_reserved (ctx : Fat32Ctx) :
    ReservedKept ctx (fat32ClusterAlloc vbr ctx).2 ∧
      (0 ∉ (fat32ClusterAlloc vbr ctx).2.allocs → ctx.Reserving →
        2 ≤ (fat32ClusterAlloc vbr ctx).1) := by
  rw [fat32ClusterAlloc]
  cases search : fatFindFree ctx.fat (fat32Entries vbr - ctx.nextFreeCluster)
    ctx.nextFreeCluster with
  | none =>
      have failed : 0 ∈ ctx.allocs ++ [0] := List.mem_append_right _ (List.mem_singleton_self 0)
      exact ⟨⟨List.subset_append_left .., fun succeeded => absurd failed succeeded⟩,
        fun succeeded => absurd failed succeeded⟩
  | some found =>
      have free := fatFindFree_free search
      have above (reserving : ctx.Reserving) : 2 ≤ found := by
        obtain ⟨first, second⟩ := reserving
        by_contra low
        obtain rfl | rfl : found = 0 ∨ found = 1 := by omega
        · exact first free
        · exact second free
      refine ⟨⟨List.subset_append_left .., fun _ reserving => ?_⟩, fun _ => above⟩
      have := above reserving
      exact ⟨Function.update_of_ne (by omega) .., Function.update_of_ne (by omega) ..⟩

/-! ## The first pass -/

/-- What preparing nodes does to the reserved entries: it keeps them, and assigns clusters behind
them. -/
structure ReservedPrepared (ctx : Fat32Ctx) (nodes prepared : List FsNode) (after : Fat32Ctx) :
    Prop where
  kept : ReservedKept ctx after
  clusters : 0 ∉ after.allocs → ctx.Reserving → ∀ node ∈ prepared, 2 ≤ node.firstCluster
  sources : prepared.map FsNode.source = nodes.map FsNode.source

theorem ReservedPrepared.trans {ctx mid after : Fat32Ctx}
    {nodes prepared moreNodes morePrepared : List FsNode}
    (first : ReservedPrepared ctx nodes prepared mid)
    (second : ReservedPrepared mid moreNodes morePrepared after) :
    ReservedPrepared ctx (nodes ++ moreNodes) (prepared ++ morePrepared) after := by
  refine ⟨first.kept.trans second.kept, fun succeeded reserving => ?_, ?_⟩
  · have early : 0 ∉ mid.allocs := fun failed => succeeded (second.kept.allocs failed)
    rw [List.forall_mem_append]
    exact ⟨first.clusters early reserving,
      second.clusters succeeded (first.kept.reserving early reserving)⟩
  · rw [List.map_append, List.map_append, first.sources, second.sources]

theorem ReservedPrepared.alloc (ctx : Fat32Ctx) {node prepared : FsNode}
    (cluster : prepared.firstCluster = (fat32ClusterAlloc vbr ctx).1)
    (source : prepared.source = node.source) :
    ReservedPrepared ctx [node] [prepared] (fat32ClusterAlloc vbr ctx).2 := by
  obtain ⟨kept, above⟩ := @fat32ClusterAlloc_reserved vbr ctx
  refine ⟨kept, fun succeeded reserving other member => ?_, ?_⟩
  · obtain rfl := List.mem_singleton.mp member
    exact cluster ▸ above succeeded reserving
  · rw [List.map_singleton, List.map_singleton, source]

mutual

theorem fat32PrepareNode_reserved (ctx : Fat32Ctx) (node : FsNode)
    (unassigned : node.IsUnassigned) :
    ReservedPrepared ctx node.preorder (fat32PrepareNode vbr ctx node).1.preorder
      (fat32PrepareNode vbr ctx node).2 := by
  match node with
  | .file name cluster hostPath size =>
      obtain rfl : cluster = 0 := unassigned _ (List.mem_singleton_self _)
      exact .alloc ctx rfl rfl
  | .directory name cluster children =>
      rw [FsNode.isUnassigned_directory] at unassigned
      obtain rfl := unassigned.1
      rw [fat32PrepareNode, if_pos rfl, FsNode.preorder_directory, FsNode.preorder_directory]
      have first : ReservedPrepared ctx [.directory name 0 children] [.directory name
          (fat32ClusterAlloc vbr ctx).1
          (fat32PrepareNodes vbr (fat32ClusterAlloc vbr ctx).2 children).1]
          (fat32ClusterAlloc vbr ctx).2 := .alloc ctx rfl rfl
      exact first.trans (fat32PrepareNodes_reserved _ children unassigned.2)

theorem fat32PrepareNodes_reserved (ctx : Fat32Ctx) (nodes : List FsNode)
    (unassigned : FsNode.Unassigned nodes) :
    ReservedPrepared ctx (FsNode.preorderBelow nodes)
      (FsNode.preorderBelow (fat32PrepareNodes vbr ctx nodes).1)
      (fat32PrepareNodes vbr ctx nodes).2 := by
  match nodes with
  | [] => exact ⟨.refl ctx, fun _ _ node member => absurd member List.not_mem_nil, rfl⟩
  | node :: nodes =>
      rw [FsNode.unassigned_iff, List.forall_mem_cons, ← FsNode.unassigned_iff] at unassigned
      rw [fat32PrepareNodes, FsNode.preorderBelow_cons, FsNode.preorderBelow_cons]
      exact (fat32PrepareNode_reserved ctx node unassigned.1).trans
        (fat32PrepareNodes_reserved _ nodes unassigned.2)

end

/-! ## The second pass -/

theorem fat32WriteChunk_reserved (partitionOffset : ℕ) (ctx : Fat32Ctx) (bytes : List UInt8)
    (cluster : ℕ) {previous : ℕ} (above : previous = 0 ∨ 2 ≤ previous) :
    ReservedKept ctx (fat32WriteChunk vbr partitionOffset ctx bytes cluster previous) ∧
      (fat32WriteChunk vbr partitionOffset ctx bytes cluster previous).allocs = ctx.allocs := by
  have allocs : (fat32WriteChunk vbr partitionOffset ctx bytes cluster previous).allocs =
      ctx.allocs := by
    rw [fat32WriteChunk, fat32WriteCluster_allocs]
    split_ifs <;> rfl
  refine ⟨⟨allocs ▸ List.Subset.refl _, fun _ _ => ?_⟩, allocs⟩
  rw [fat32WriteChunk_fat]
  split_ifs with linked
  · have := above.resolve_left linked
    exact ⟨Function.update_of_ne (by omega) .., Function.update_of_ne (by omega) ..⟩
  · exact ⟨rfl, rfl⟩

/-- The loop writes clusters behind the reserved entries only, and ends with the last of them. -/
theorem fat32WriteFileLoop_reserved (partitionOffset : ℕ) {fuel remaining cluster previous : ℕ}
    {ctx after : Fat32Ctx} {bytes : List UInt8} {last : ℕ}
    (ran : fat32WriteFileLoop vbr partitionOffset fuel ctx bytes remaining cluster previous =
      some (after, last)) (nonempty : remaining ≠ 0) :
    ctx.allocs ⊆ after.allocs ∧
      (0 ∉ after.allocs → ctx.Reserving → 2 ≤ cluster → (previous = 0 ∨ 2 ≤ previous) →
        ReservedKept ctx after ∧ 2 ≤ last) := by
  induction fuel generalizing ctx bytes remaining cluster previous with
  | zero =>
      obtain ⟨remaining, rfl⟩ := Nat.exists_eq_succ_of_ne_zero nonempty
      cases ran
  | succ fuel induction =>
      have allocs : (fat32WriteChunk vbr partitionOffset ctx bytes cluster previous).allocs =
          ctx.allocs := by
        rw [fat32WriteChunk, fat32WriteCluster_allocs]
        split_ifs <;> rfl
      rw [fat32WriteFileLoop_succ partitionOffset fuel ctx bytes cluster previous nonempty] at ran
      split_ifs at ran with more
      · obtain ⟨recorded, later⟩ := induction ran (by omega)
        obtain ⟨alloc, found⟩ := @fat32ClusterAlloc_reserved vbr
          (fat32WriteChunk vbr partitionOffset ctx bytes cluster previous)
        refine ⟨allocs ▸ List.Subset.trans alloc.allocs recorded,
          fun succeeded reserving above linked => ?_⟩
        have early := fun failed => succeeded (recorded failed)
        obtain ⟨chunk, -⟩ := @fat32WriteChunk_reserved vbr partitionOffset ctx bytes cluster _
          linked
        have mid := chunk.reserving (fun failed => early (alloc.allocs failed)) reserving
        obtain ⟨rest, last_above⟩ := later succeeded (alloc.reserving early mid) (found early mid)
          (.inr above)
        exact ⟨(chunk.trans alloc).trans rest, last_above⟩
      · cases ran
        exact ⟨allocs ▸ List.Subset.refl _, fun _ _ above linked =>
          ⟨(fat32WriteChunk_reserved partitionOffset ctx bytes last linked).1, above⟩⟩

/-- The node is a file without contents. -/
def FsNode.isEmptyFile (node : FsNode) : Bool := node.source.any fun file => file.2 == 0

/-- Writing a node keeps the reserved entries, but for the first one if it is an empty file. -/
theorem fat32WriteItem_reserved {host : HostFiles} {partitionOffset : ℕ} {ctx after : Fat32Ctx}
    {item : Option ℕ × FsNode}
    (wrote : fat32WriteItem vbr host partitionOffset ctx item = some after)
    (opens : ∀ file ∈ item.2.source, (host file.1).isSome = true) :
    ctx.allocs ⊆ after.allocs ∧
      (0 ∉ after.allocs → ctx.Reserving → 2 ≤ item.2.firstCluster ∨ item.2.source = none →
        after.fat 0 = (if item.2.isEmptyFile then fatEof else ctx.fat 0) ∧
          after.fat 1 = ctx.fat 1) := by
  obtain ⟨parent, node⟩ := item
  cases node with
  | directory name cluster children =>
      rw [fat32WriteItem_directory host partitionOffset ctx (fat32WriteItem_fits wrote)] at wrote
      cases wrote
      exact ⟨List.Subset.refl _, fun _ _ _ => ⟨rfl, rfl⟩⟩
  | file name cluster hostPath size =>
      obtain ⟨bytes, opened⟩ := Option.isSome_iff_exists.mp (opens (hostPath, size) rfl)
      rw [fat32WriteItem, fat32WriteFile_of_opened opened, Option.map_eq_some_iff] at wrote
      obtain ⟨⟨mid, last⟩, ran, rfl⟩ := wrote
      by_cases empty : size = 0
      · subst empty
        rw [fat32WriteFileLoop_zero] at ran
        cases ran
        refine ⟨List.Subset.refl _, fun _ _ _ => ⟨?_, ?_⟩⟩
        · change Function.update ctx.fat 0 fatEof 0 = fatEof
          exact Function.update_self ..
        · change Function.update ctx.fat 0 fatEof 1 = ctx.fat 1
          exact Function.update_of_ne (by decide) ..
      · obtain ⟨recorded, later⟩ := fat32WriteFileLoop_reserved partitionOffset ran empty
        refine ⟨recorded, fun succeeded reserving above => ?_⟩
        have above : 2 ≤ cluster := above.resolve_right fun none => by cases none
        obtain ⟨kept, last_above⟩ := later succeeded reserving above (.inl rfl)
        obtain ⟨first, second⟩ := kept.entries succeeded reserving
        have nonempty : FsNode.isEmptyFile (.file name cluster hostPath size) = false := by
          simpa [FsNode.isEmptyFile, FsNode.source] using empty
        simp only [nonempty, Bool.false_eq_true, if_false]
        exact ⟨(Function.update_of_ne (by omega) ..).trans first,
          (Function.update_of_ne (by omega) ..).trans second⟩

/-- Writing nodes one after the other keeps the reserved entries, but for the first one if there is
an empty file among them. -/
theorem fat32WriteItems_reserved {host : HostFiles} {partitionOffset : ℕ} {ctx after : Fat32Ctx}
    {items : List (Option ℕ × FsNode)}
    (wrote : items.foldlM (fat32WriteItem vbr host partitionOffset) ctx = some after)
    (opens : HostOpens host (items.map Prod.snd)) :
    ctx.allocs ⊆ after.allocs ∧
      (0 ∉ after.allocs → ctx.Reserving →
        (∀ item ∈ items, 2 ≤ item.2.firstCluster ∨ item.2.source = none) →
        after.fat 0 =
            (if (items.map Prod.snd).any FsNode.isEmptyFile then fatEof else ctx.fat 0) ∧
          after.fat 1 = ctx.fat 1) := by
  induction items generalizing ctx with
  | nil =>
      cases wrote
      exact ⟨List.Subset.refl _, fun _ _ _ => ⟨rfl, rfl⟩⟩
  | cons item items induction =>
      rw [List.foldlM_cons, Option.bind_eq_bind, Option.bind_eq_some_iff] at wrote
      rw [List.map_cons, HostOpens, List.forall_mem_cons] at opens
      obtain ⟨mid, first, rest⟩ := wrote
      obtain ⟨recorded, one⟩ := fat32WriteItem_reserved first opens.1
      obtain ⟨recorded', others⟩ := induction rest opens.2
      refine ⟨List.Subset.trans recorded recorded', fun succeeded reserving above => ?_⟩
      rw [List.forall_mem_cons] at above
      have early : 0 ∉ mid.allocs := fun failed => succeeded (recorded' failed)
      obtain ⟨zero, second⟩ := one early reserving above.1
      have mid_reserving : mid.Reserving := by
        refine ⟨?_, second ▸ reserving.2⟩
        rw [zero]
        split_ifs
        · decide
        · exact reserving.1
      obtain ⟨zero', second'⟩ := others succeeded mid_reserving above.2
      refine ⟨?_, second'.trans second⟩
      rw [zero', zero, List.map_cons, List.any_cons]
      cases item.2.isEmptyFile with
      | false => rw [if_neg Bool.false_ne_true, Bool.false_or]
      | true => rw [if_pos rfl, ite_self, Bool.true_or, if_pos rfl]

theorem fat32TableInit_fat_zero (vbr : Vbr) (image : ByteMemory) :
    (fat32TableInit vbr image).fat 0 =
      if vbr.rootCluster = 0 then fatEof else 0xFFFFFF00 ||| vbr.mediaDescriptor := by
  simp only [fat32TableInit]
  split_ifs with root
  · rw [root, Function.update_self]
  · rw [Function.update_of_ne (Ne.symm root), Function.update_of_ne (by decide),
      Function.update_self]

theorem fat32TableInit_fat_one (vbr : Vbr) (image : ByteMemory) :
    (fat32TableInit vbr image).fat 1 = fatEof := by
  simp only [fat32TableInit, Function.update_apply]
  split_ifs <;> rfl

theorem fatEof_lt_media (mediaDescriptor : ℕ) : fatEof < 0xFFFFFF00 ||| mediaDescriptor :=
  Nat.lt_of_lt_of_le (by decide) Nat.left_le_or

theorem fat32TableInit_reserving (vbr : Vbr) (image : ByteMemory) :
    (fat32TableInit vbr image).Reserving := by
  constructor
  · rw [fat32TableInit_fat_zero]
    split_ifs
    · decide
    · exact Nat.ne_of_gt (Nat.zero_lt_of_lt (fatEof_lt_media vbr.mediaDescriptor))
  · rw [fat32TableInit_fat_one]
    decide

/-- When both passes end without a failed allocation, the reserved entries survive if and only if
the root cluster is not zero and no file is empty. -/
theorem reserved_iff_of_wrote {host : HostFiles} {partitionOffset : ℕ}
    {image : ByteMemory} {name : CString} {cluster : ℕ} {children : List FsNode}
    (unassigned : FsNode.Unassigned children)
    (opens : HostOpens host (FsNode.preorderBelow children)) {after : Fat32Ctx}
    (wrote : fat32WriteTree vbr host partitionOffset
      (fat32PrepareTree vbr (fat32TableInit vbr image) (.directory name cluster children)).2
      (fat32PrepareTree vbr (fat32TableInit vbr image) (.directory name cluster children)).1 =
        some after)
    (succeeded : 0 ∉ after.allocs) :
    (after.fat 0 = 0xFFFFFF00 ||| vbr.mediaDescriptor ∧ after.fat 1 = fatEof) ↔
      vbr.rootCluster ≠ 0 ∧ ∀ node ∈ FsNode.preorderBelow children, ¬ node.isEmptyFile := by
  have marked := fatEof_lt_media vbr.mediaDescriptor
  have reserving := fat32TableInit_reserving vbr image
  have first := fat32TableInit_fat_zero vbr image
  have second := fat32TableInit_fat_one vbr image
  obtain ⟨kept, clusters, sources⟩ :=
    @fat32PrepareNodes_reserved vbr (fat32TableInit vbr image) children unassigned
  rw [fat32PrepareTree, fat32WriteTree, fat32WriteNode_eq] at wrote
  generalize fat32PrepareNodes vbr (fat32TableInit vbr image) children = below at *
  obtain ⟨recorded, written⟩ := fat32WriteItems_reserved wrote (by
    rw [FsNode.items_map_snd, FsNode.preorder_directory, HostOpens, List.forall_mem_cons]
    exact ⟨fun file source => (Option.not_mem_none _ source).elim, opens.of_sources sources⟩)
  have early : 0 ∉ below.2.allocs := fun failed => succeeded (recorded failed)
  obtain ⟨zero, one⟩ := written succeeded (kept.reserving early reserving) (by
    intro item member
    have listed := List.mem_map_of_mem (f := Prod.snd) member
    rw [FsNode.items_map_snd, FsNode.preorder_directory] at listed
    rcases List.mem_cons.mp listed with directory | inner
    · exact .inr (congrArg FsNode.source directory)
    · exact .inl (clusters early reserving item.2 inner))
  obtain ⟨zero', one'⟩ := kept.entries early reserving
  have any_eq : ((FsNode.directory name vbr.rootCluster below.1).preorder).any FsNode.isEmptyFile =
      (FsNode.preorderBelow children).any FsNode.isEmptyFile := by
    have empties := congrArg (List.any · fun source => source.any fun file => file.2 == 0) sources
    rw [List.any_map, List.any_map] at empties
    rw [FsNode.preorder_directory, List.any_cons]
    exact empties
  rw [zero, one, FsNode.items_map_snd, any_eq, zero', one', first, second]
  simp only [and_true, ne_eq]
  by_cases empty : (FsNode.preorderBelow children).any FsNode.isEmptyFile = true
  · rw [if_pos empty]
    obtain ⟨node, member, is_empty⟩ := List.any_eq_true.mp empty
    exact iff_of_false (by omega) fun both => both.2 node member is_empty
  · rw [if_neg empty]
    have none : ∀ node ∈ FsNode.preorderBelow children, ¬ node.isEmptyFile := by
      intro node member is_empty
      exact empty (List.any_eq_true.mpr ⟨node, member, is_empty⟩)
    split_ifs with root
    · exact iff_of_false (by omega) fun both => both.1 root
    · exact iff_of_true rfl ⟨root, none⟩

/-- The entries that `fat32_table_init` writes lie in the table. -/
def Vbr.TableInBounds (vbr : Vbr) : Prop := ∀ i ∈ [0, 1, vbr.rootCluster], i < fat32Entries vbr

/-- If no allocation fails and every file opens, all writes stay inside their buffers and the
reserved entries survive if and only if the table has the entries that are written first, the root
cluster is not zero, no file is empty, and the names and the entries of every directory fit. -/
theorem fat32WriteTree_reserved_iff (vbr : Vbr) (host : HostFiles) (partitionOffset : ℕ)
    (image : ByteMemory) (name : CString) (cluster : ℕ) (children : List FsNode)
    (unassigned : FsNode.Unassigned children)
    (opens : HostOpens host (FsNode.preorderBelow children))
    (succeeded : ∀ after, fat32WriteTree vbr host partitionOffset
      (fat32PrepareTree vbr (fat32TableInit vbr image) (.directory name cluster children)).2
      (fat32PrepareTree vbr (fat32TableInit vbr image) (.directory name cluster children)).1 =
        some after → 0 ∉ after.allocs) :
    (vbr.TableInBounds ∧ ∃ after, fat32WriteTree vbr host partitionOffset
        (fat32PrepareTree vbr (fat32TableInit vbr image) (.directory name cluster children)).2
        (fat32PrepareTree vbr (fat32TableInit vbr image) (.directory name cluster children)).1 =
          some after ∧
      after.fat 0 = 0xFFFFFF00 ||| vbr.mediaDescriptor ∧ after.fat 1 = fatEof) ↔
      vbr.TableInBounds ∧ vbr.rootCluster ≠ 0 ∧
        (∀ node ∈ FsNode.preorderBelow children, ¬ node.isEmptyFile) ∧
        (FsNode.directory name cluster children).EntriesFit vbr := by
  refine and_congr_right fun _ => ⟨?_, ?_⟩
  · rintro ⟨after, wrote, entries⟩
    obtain ⟨root, nonempty⟩ :=
      (reserved_iff_of_wrote unassigned opens wrote (succeeded after wrote)).mp entries
    exact ⟨root, nonempty, (fat32PrepareTree_fit _ _).mp (fat32WriteTree_fits wrote)⟩
  · rintro ⟨root, nonempty, fits⟩
    rw [← fat32PrepareTree_fit (fat32TableInit vbr image), fat32PrepareTree] at fits
    obtain ⟨after, wrote⟩ := fat32WriteTree_ends host partitionOffset
      (fat32PrepareTree vbr (fat32TableInit vbr image) (.directory name cluster children)).2 fits
    exact ⟨after, wrote, (reserved_iff_of_wrote unassigned opens wrote
      (succeeded after wrote)).mpr ⟨root, nonempty⟩⟩

theorem fat32WriteTree_reserved_one_file :
    ∃ after, fat32WriteTree systemVbr (sizedHost 600) (2048 * 512)
        (fat32PrepareTree systemVbr (fat32TableInit systemVbr fun _ => 0)
          (.directory [] 0 (singleFile 600))).2
        (fat32PrepareTree systemVbr (fat32TableInit systemVbr fun _ => 0)
          (.directory [] 0 (singleFile 600))).1 = some after ∧
      after.fat 0 = 0xFFFFFFF8 ∧ after.fat 1 = fatEof := by
  have allocs : (fat32WriteTree systemVbr (sizedHost 600) (2048 * 512)
      (fat32PrepareTree systemVbr (fat32TableInit systemVbr fun _ => 0)
        (.directory [] 0 (singleFile 600))).2
      (fat32PrepareTree systemVbr (fat32TableInit systemVbr fun _ => 0)
        (.directory [] 0 (singleFile 600))).1).map Fat32Ctx.allocs = some [3, 4] := by
    decide +kernel
  have succeeded (after : Fat32Ctx) (wrote : fat32WriteTree systemVbr (sizedHost 600) (2048 * 512)
      (fat32PrepareTree systemVbr (fat32TableInit systemVbr fun _ => 0)
        (.directory [] 0 (singleFile 600))).2
      (fat32PrepareTree systemVbr (fat32TableInit systemVbr fun _ => 0)
        (.directory [] 0 (singleFile 600))).1 = some after) : 0 ∉ after.allocs := by
    rw [wrote, Option.map_some, Option.some.injEq] at allocs
    rw [allocs]
    decide
  exact ((fat32WriteTree_reserved_iff systemVbr (sizedHost 600) (2048 * 512)
    (fun _ => 0) [] 0 (singleFile 600) (singleFile_unassigned 600) (fun _ _ _ _ => rfl)
    succeeded).mpr ⟨show ∀ i ∈ [0, 1, 2], i < 131072 by decide, by decide, by decide,
      singleFile_entriesFit 600⟩).2

/-- An empty file overwrites the media descriptor with an end mark. -/
theorem fat32WriteTree_overwrites_media :
    (fat32WriteTree systemVbr (sizedHost 0) (2048 * 512)
        (fat32PrepareTree systemVbr (fat32TableInit systemVbr fun _ => 0)
          (.directory [] 0 (singleFile 0))).2
        (fat32PrepareTree systemVbr (fat32TableInit systemVbr fun _ => 0)
          (.directory [] 0 (singleFile 0))).1).map
      (fun after => (after.allocs, after.fat 0)) = some ([3], fatEof) ∧
      fatEof ≠ 0xFFFFFF00 ||| systemVbr.mediaDescriptor := by
  decide +kernel

end

end ItWorksOS
