import ItWorksOS.Boot.Stage2Files
import ItWorksOS.Tools.Mkimage.Paths

/-!
# Finding the files of `disk.files`

`mkimage` writes the entries of each directory to one cluster, and Stage2 scans such a cluster for
an 8.3 name. Whether the scan finds every file of `disk.files` can be told from the paths that its
lines request.
-/

namespace ItWorksOS

/-! ## Directories -/

/-- A file lies at or below the node. -/
def FsNode.HoldsFile (node : FsNode) : Prop := ∃ file ∈ node.preorder, file.isFile = true

/-- The children of a directory have distinct names, `fat32_write_directory` emits entries with
distinct names for them, and a scan of the cluster it writes for the entry name of a child that
leads to a file ends at the entry of that child. -/
structure DirectoryFound (vbr : Vbr) (partitionOffset : ℕ) (ctx : Fat32Ctx) (parent : Option ℕ)
    (cluster : ℕ) (children : List FsNode) : Prop where
  names : (children.map FsNode.name).Nodup
  entries : ∃ created after, children.mapM fat32CreateEntry = some created ∧
    (created.map FatDirEntry.name).Nodup ∧
    fat32WriteDirectory vbr partitionOffset ctx parent cluster children = some after ∧
    ∀ k child entry, children[k]? = some child → created[k]? = some entry → child.HoldsFile →
      fat32EntryLoop entry.name after.image (fat32ClusterSize vbr / 32)
          (fat32ClusterOffset vbr partitionOffset cluster) =
        .found (fat32ClusterOffset vbr partitionOffset cluster + 32 * (fsDots parent + k))

/-- Every directory of the tree can be searched for its files. -/
def ItemFound (vbr : Vbr) (partitionOffset : ℕ) (ctx : Fat32Ctx) : Option ℕ × FsNode → Prop
  | (_, .file _ _ _ _) => True
  | (parent, .directory _ cluster children) =>
      DirectoryFound vbr partitionOffset ctx parent cluster children

/-- The names below a directory can be told apart, and none that leads to a file starts with the
mark of a deleted entry. -/
structure Findable (children : List FsNode) : Prop where
  names : (children.map FsNode.name).Nodup
  entries : (children.map fun child => fatName child.name).Nodup
  kept : ∀ child ∈ children, child.HoldsFile → child.name.head? ≠ some 0xE5

theorem toupper_eq_iff {byte mark : UInt8} (mark_lt : mark.toNat < 65 ∨ 122 < mark.toNat) :
    toupper byte = mark ↔ byte = mark := by
  rw [← UInt8.toNat_inj, ← UInt8.toNat_inj, toupper_toNat]
  split_ifs <;> omega

theorem fatNameFirst_eq_iff {name : CString} {mark : UInt8}
    (mark_eq : mark = 0x00 ∨ mark = 0xE5) : fatNameFirst name = mark ↔ name.head? = some mark := by
  have outside : mark.toNat < 65 ∨ 122 < mark.toNat := by
    rcases mark_eq with rfl | rfl <;> decide
  have not_space : (32 : UInt8) ≠ mark := by
    rcases mark_eq with rfl | rfl <;> decide
  cases name with
  | nil => simp [fatNameFirst, not_space]
  | cons byte name =>
      rw [fatNameFirst, List.head?_cons, Option.some_inj]
      split_ifs with dot
      · subst dot
        refine iff_of_false not_space ?_
        rcases mark_eq with rfl | rfl <;> decide
      · exact toupper_eq_iff outside

theorem fatNameFirst_ne_dot (name : CString) : fatNameFirst name ≠ 46 := by
  cases name with
  | nil => decide
  | cons byte name =>
      rw [fatNameFirst]
      split_ifs with dot
      · decide
      · rwa [ne_eq, toupper_eq_iff (.inl (by decide))]

section

variable {vbr : Vbr} {partitionOffset : ℕ} {ctx : Fat32Ctx} {parent : Option ℕ} {cluster : ℕ}
  {children : List FsNode} {mem : ByteMemory}

/-- The scan stops at no entry that is marked as deleted. -/
theorem fat32EntryLoop_kept {name : List UInt8} {left bx found : ℕ}
    (scanned : fat32EntryLoop name mem left bx = .found found) : mem found ≠ 0xE5 := by
  induction left generalizing bx with
  | zero => cases scanned
  | succ left induction =>
      rw [fat32EntryLoop] at scanned
      split_ifs at scanned with ended deleted long volume same
      · exact induction scanned
      · exact induction scanned
      · exact induction scanned
      · cases scanned
        exact deleted
      · exact induction scanned

theorem fsEntry_used {node : FsNode} (bounds : FatNameInBounds node.name)
    (nonzero : node.name.head? ≠ some 0x00) : (fsEntry node).Used ∧
      some (fsEntry node).name = fatName node.name ∧
      (fsEntry node).name.head? = some (fatNameFirst node.name) := by
  obtain ⟨bytes, named⟩ := Option.isSome_iff_exists.mp ((fatName_isSome_iff _).mpr bounds)
  obtain ⟨rest, bytes_eq, length⟩ := fatName_cons named
  have entry_name : (fsEntry node).name = bytes := by
    cases node <;> simp only [FsNode.name] at named <;> simp [fsEntry, named]
  have head : bytes.head? = some (fatNameFirst node.name) := by rw [bytes_eq, List.head?_cons]
  refine ⟨⟨entry_name ▸ length, ?_, ?_⟩, by rw [entry_name, named], entry_name ▸ head⟩
  · rw [entry_name, head, ne_eq, Option.some_inj, fatNameFirst_eq_iff (.inl rfl)]
    exact nonzero
  · cases node with
    | file => exact .inr rfl
    | directory => exact .inl rfl

theorem fat32DotEntries_used {cluster parent : ℕ} :
    ∀ entry ∈ fat32DotEntries cluster parent, entry.Used ∧ entry.name.head? = some 46 := by
  simp only [fat32DotEntries, List.forall_mem_cons]
  have dot : (some 46 : Option UInt8) ≠ some 0x00 := by decide
  exact ⟨⟨⟨rfl, dot, .inl rfl⟩, rfl⟩, ⟨⟨rfl, dot, .inl rfl⟩, rfl⟩, List.forall_mem_nil _⟩

theorem fsDirectoryEntries_used (bounds : ∀ child ∈ children, FatNameInBounds child.name)
    (nonzero : ∀ child ∈ children, child.name.head? ≠ some 0x00) :
    ∀ entry ∈ fsDirectoryEntries parent cluster children, entry.Used := by
  intro entry listed
  have own (made : entry ∈ children.map fsEntry) : entry.Used := by
    obtain ⟨child, member, rfl⟩ := List.mem_map.mp made
    exact (fsEntry_used (bounds child member) (nonzero child member)).1
  cases parent with
  | none => exact own listed
  | some parent =>
      rcases List.mem_append.mp listed with dot | made
      · exact (fat32DotEntries_used entry dot).1
      · exact own made

theorem fsDirectoryEntries_dots {j : ℕ} {entry : FatDirEntry} (dot : j < fsDots parent)
    (at_j : (fsDirectoryEntries parent cluster children)[j]? = some entry) :
    entry.name.head? = some 46 := by
  cases parent with
  | none => cases dot
  | some parent =>
      rw [fsDirectoryEntries, List.getElem?_append_left dot] at at_j
      exact (fat32DotEntries_used entry (List.mem_of_getElem? at_j)).2

theorem fsDirectoryEntries_add (k : ℕ) :
    (fsDirectoryEntries parent cluster children)[fsDots parent + k]? =
      children[k]?.map fsEntry := by
  cases parent with
  | none => simp [fsDirectoryEntries, fsDots]
  | some parent =>
      rw [fsDirectoryEntries]
      change (_ ++ _)[(fat32DotEntries cluster parent).length + k]? = _
      rw [List.getElem?_append_right (Nat.le_add_right ..), Nat.add_sub_cancel_left,
        List.getElem?_map]

/-- The entries lie in the cluster that is written. -/
theorem fsDirectoryEntries_held {name : CString}
    (fits : FsItemFits vbr (parent, .directory name cluster children))
    (named : ∀ entry ∈ fsDirectoryEntries parent cluster children, entry.name.length = 11) {j : ℕ}
    {entry : FatDirEntry} (at_j : (fsDirectoryEntries parent cluster children)[j]? = some entry) :
    Holds (fat32WriteCluster vbr partitionOffset ctx cluster fun i =>
        ((fsDirectoryEntries parent cluster children).flatMap FatDirEntry.bytes).getD i 0).image
      (fat32ClusterOffset vbr partitionOffset cluster + 32 * j) entry.bytes := by
  refine holds_flatMap named (fun index inside => ?_) at_j
  have room := inside
  rw [FatDirEntry.flatMap_length named, length_fsDirectoryEntries] at room
  rw [fat32WriteCluster_image, ByteMemory.blit_of_inside (room.trans_le fits.2),
    List.getD_eq_getElem?_getD, List.getElem?_eq_getElem inside, Option.getD_some]

/-- The entry names of nodes that fit are those of their entries. -/
theorem map_fatName_eq (bounds : ∀ child ∈ children, FatNameInBounds child.name)
    (nonzero : ∀ child ∈ children, child.name.head? ≠ some 0x00) :
    (children.map fun child => fatName child.name) =
      ((children.map fsEntry).map FatDirEntry.name).map some := by
  rw [List.map_map, List.map_map]
  exact List.map_congr_left fun child member =>
    (fsEntry_used (bounds child member) (nonzero child member)).2.1.symm

theorem DirectoryFound.findable (name : CString)
    (nonzero : ∀ child ∈ children, child.name.head? ≠ some 0x00)
    (found : DirectoryFound vbr partitionOffset ctx parent cluster children) :
    FsItemFits vbr (parent, .directory name cluster children) ∧ Findable children := by
  obtain ⟨names, created, after, made, distinct, wrote, scans⟩ := found
  classical
  rw [fat32WriteDirectory_eq partitionOffset ctx parent name] at wrote
  split_ifs at wrote with fits
  obtain rfl := Option.some.inj wrote
  rw [mapM_fat32CreateEntry, if_pos fits.1, Option.some_inj] at made
  subst made
  refine ⟨fits, names, ?_, fun child member holds deleted => ?_⟩
  · rw [map_fatName_eq fits.1 nonzero]
    exact distinct.map (Option.some_injective _)
  · obtain ⟨k, at_k⟩ := List.mem_iff_getElem?.mp member
    obtain ⟨used, -, head⟩ := fsEntry_used (fits.1 child member) (nonzero child member)
    have scanned :=
      scans k child (fsEntry child) at_k (by rw [List.getElem?_map, at_k]; rfl) holds
    have at_entry : (fsDirectoryEntries parent cluster children)[fsDots parent + k]? =
        some (fsEntry child) := by
      rw [fsDirectoryEntries_add, at_k, Option.map_some]
    have held := @fsDirectoryEntries_held _ partitionOffset ctx _ _ _ _ fits
      (fun entry listed => (fsDirectoryEntries_used fits.1 nonzero entry listed).named) _ _
      at_entry
    refine fat32EntryLoop_kept scanned (((used.held held).1 _ head).trans ?_)
    exact (fatNameFirst_eq_iff (.inr rfl)).mpr deleted

/-- No entry before that of a child has the entry name of the child. -/
theorem fsDirectoryEntries_name_ne (bounds : ∀ child ∈ children, FatNameInBounds child.name)
    (nonzero : ∀ child ∈ children, child.name.head? ≠ some 0x00)
    (distinct : (children.map fun child => fatName child.name).Nodup) {j k : ℕ} {child : FsNode}
    {entry : FatDirEntry} (before : j < fsDots parent + k) (at_k : children[k]? = some child)
    (at_j : (fsDirectoryEntries parent cluster children)[j]? = some entry) :
    entry.name ≠ (fsEntry child).name := by
  intro same
  have member := List.mem_of_getElem? at_k
  have head := (fsEntry_used (bounds child member) (nonzero child member)).2.2
  by_cases dot : j < fsDots parent
  · have first := fsDirectoryEntries_dots dot at_j
    rw [same, head] at first
    exact fatNameFirst_ne_dot child.name (Option.some.inj first)
  · obtain ⟨i, rfl⟩ : ∃ i, j = fsDots parent + i := ⟨j - fsDots parent, by omega⟩
    rw [map_fatName_eq bounds nonzero] at distinct
    have left : ((children.map fsEntry).map FatDirEntry.name)[i]? =
        some (fsEntry child).name := by
      rw [List.getElem?_map, List.getElem?_map, ← @fsDirectoryEntries_add parent cluster,
        at_j, Option.map_some, same]
    have right : ((children.map fsEntry).map FatDirEntry.name)[k]? =
        some (fsEntry child).name := by
      rw [List.getElem?_map, List.getElem?_map, at_k]
      rfl
    have := (List.getElem?_inj (List.getElem?_eq_some_iff.mp left).1
      (List.Nodup.of_map _ distinct)).mp (left.trans right.symm)
    omega

theorem Findable.directoryFound {name : CString}
    (nonzero : ∀ child ∈ children, child.name.head? ≠ some 0x00) (findable : Findable children)
    (fits : FsItemFits vbr (parent, .directory name cluster children)) :
    DirectoryFound vbr partitionOffset ctx parent cluster children := by
  obtain ⟨names, distinct, kept⟩ := findable
  have emitted := distinct
  rw [map_fatName_eq fits.1 nonzero] at emitted
  refine ⟨names, children.map fsEntry, fat32WriteCluster vbr partitionOffset ctx cluster fun i =>
    ((fsDirectoryEntries parent cluster children).flatMap FatDirEntry.bytes).getD i 0, ?_,
    List.Nodup.of_map _ emitted, ?_, ?_⟩
  · rw [mapM_fat32CreateEntry, if_pos fits.1]
  · classical
    rw [fat32WriteDirectory_eq partitionOffset ctx parent name, if_pos fits]
  intro k child entry at_k at_entry holds
  rw [List.getElem?_map, at_k, Option.map_some, Option.some_inj] at at_entry
  subst at_entry
  have member := List.mem_of_getElem? at_k
  obtain ⟨used, -, head⟩ := fsEntry_used (fits.1 child member) (nonzero child member)
  have all_used := @fsDirectoryEntries_used parent cluster _ fits.1 nonzero
  have k_lt := (List.getElem?_eq_some_iff.mp at_k).1
  have room : 32 * (fsDots parent + children.length) ≤ fat32ClusterSize vbr := fits.2
  refine fat32EntryLoop_found (by omega) (fun j before => ?_) (used.found ?_ ?_)
  · have j_lt : j < (fsDirectoryEntries parent cluster children).length := by
      rw [length_fsDirectoryEntries]
      omega
    have at_j := List.getElem?_eq_getElem j_lt
    exact (all_used _ (List.mem_of_getElem? at_j)).passed (fsDirectoryEntries_held fits
      (fun entry listed => (all_used entry listed).named) at_j)
      (fsDirectoryEntries_name_ne fits.1 nonzero distinct before at_k at_j)
  · exact fsDirectoryEntries_held fits (fun entry listed => (all_used entry listed).named)
      ((fsDirectoryEntries_add k).trans (by rw [at_k]; rfl))
  · rw [head, ne_eq, Option.some_inj, fatNameFirst_eq_iff (.inr rfl)]
    exact kept child member holds

/-- A directory can be searched exactly when its entries fit and its names can be told apart. -/
theorem directoryFound_iff (name : CString)
    (nonzero : ∀ child ∈ children, child.name.head? ≠ some 0x00) :
    DirectoryFound vbr partitionOffset ctx parent cluster children ↔
      FsItemFits vbr (parent, .directory name cluster children) ∧ Findable children :=
  ⟨fun found => found.findable name nonzero,
    fun both => both.2.directoryFound nonzero both.1⟩

end

/-! ## Paths -/

/-- The paths that the requests create fit a volume: the names fit the buffers of
`fat32_create_entry`, siblings have different entry names, the entries of every directory fit one
cluster, and no name on the path of a file starts with the mark of a deleted entry. -/
structure PathsFit (vbr : Vbr) (requests : List (PathRequest CString)) : Prop where
  names : ∀ path ∈ createdPaths requests, ∀ name ∈ path.getLast?, FatNameInBounds name
  distinct : ∀ left ∈ createdPaths requests, ∀ right ∈ createdPaths requests,
    left.dropLast = right.dropLast → left.getLast?.bind fatName = right.getLast?.bind fatName →
      left = right
  room : ∀ dir ∈ [] :: createdPaths requests, firstRequest requests dir ≠ some true →
    32 * ((if dir = [] then 0 else 2) +
      ((createdPaths requests).filter fun path => path.dropLast = dir).length) ≤
        fat32ClusterSize vbr
  kept : ∀ path ∈ createdPaths requests, firstRequest requests path = some true →
    ∀ part ∈ path, part.head? ≠ some 0xE5

instance (vbr : Vbr) (requests : List (PathRequest CString)) : Decidable (PathsFit vbr requests) :=
  decidable_of_iff
    ((∀ path ∈ createdPaths requests, ∀ name ∈ path.getLast?, FatNameInBounds name) ∧
      (∀ left ∈ createdPaths requests, ∀ right ∈ createdPaths requests,
        left.dropLast = right.dropLast →
          left.getLast?.bind fatName = right.getLast?.bind fatName → left = right) ∧
      (∀ dir ∈ [] :: createdPaths requests, firstRequest requests dir ≠ some true →
        32 * ((if dir = [] then 0 else 2) +
          ((createdPaths requests).filter fun path => path.dropLast = dir).length) ≤
            fat32ClusterSize vbr) ∧
      ∀ path ∈ createdPaths requests, firstRequest requests path = some true →
        ∀ part ∈ path, part.head? ≠ some 0xE5)
    ⟨fun ⟨names, distinct, room, kept⟩ => ⟨names, distinct, room, kept⟩,
      fun fit => ⟨fit.names, fit.distinct, fit.room, fit.kept⟩⟩

theorem FsNode.not_holdsFile_iff (node : FsNode) :
    ¬ node.HoldsFile ↔ ∀ item ∈ node.items none, item.2.isFile = false := by
  rw [FsNode.HoldsFile, ← FsNode.items_map_snd node none]
  constructor
  · intro none item listed
    by_contra file
    exact none ⟨item.2, List.mem_map_of_mem listed, (Bool.not_eq_false _).mp file⟩
  · rintro directories ⟨file, listed, is_file⟩
    obtain ⟨item, item_listed, rfl⟩ := List.mem_map.mp listed
    exact Bool.false_ne_true ((directories item item_listed).symm.trans is_file)

theorem FsNode.HoldsFile.of_unassign {left right : FsNode} (holds : left.HoldsFile)
    (same : left.unassign = right.unassign) : right.HoldsFile := by
  have ignores : FsNode.IgnoresClusters fun item => item.2.isFile = false := by
    rintro ⟨_, node⟩ ⟨_, twin⟩ - same directory
    cases node with
    | file => cases directory
    | directory =>
        cases twin with
        | file => cases same
        | directory => rfl
  by_contra none
  rw [FsNode.not_holdsFile_iff] at none
  exact left.not_holdsFile_iff.mpr (FsNode.forall_items_congr ignores same.symm rfl none) holds

theorem findable_ignores : FsNode.IgnoresClusters fun item => Findable item.2.children := by
  rintro ⟨_, node⟩ ⟨_, twin⟩ - same findable
  simp only at same findable ⊢
  have twins : node.children.map FsNode.unassign = twin.children.map FsNode.unassign := by
    rw [← FsNode.unassign_children, ← FsNode.unassign_children, same]
  have names : node.children.map FsNode.name = twin.children.map FsNode.name := by
    rw [← FsNode.unassignAll_eq, ← FsNode.unassignAll_eq] at twins
    exact FsNode.map_name_of_unassign twins
  have entries (children : List FsNode) : (children.map fun child => fatName child.name) =
      (children.map FsNode.name).map fatName := by
    rw [List.map_map]
    rfl
  refine ⟨names ▸ findable.names, ?_, fun child member holds => ?_⟩
  · rw [entries, ← names, ← entries]
    exact findable.entries
  · obtain ⟨original, original_mem, equal⟩ := List.mem_map.mp (twins ▸ List.mem_map_of_mem member)
    have name_eq : original.name = child.name := by
      rw [← FsNode.unassign_name, equal, FsNode.unassign_name]
    exact name_eq ▸ findable.kept original original_mem (holds.of_unassign equal.symm)

/-- A node leads to a file exactly when there is a path from it to one. -/
theorem FsNode.Unique.holdsFile_iff {node : FsNode} (unique : node.Unique) :
    node.HoldsFile ↔ ∃ path, (node.lookup path).map FsNode.isFile = some true := by
  have directories := @FsNode.Unique.forall_items_iff node unique
    (fun _ other => other.isFile = false) none
  rw [← not_iff_not, FsNode.not_holdsFile_iff, directories]
  simp only [Option.map_eq_some_iff, not_exists, not_and, Bool.not_eq_true]

/-- The directory at every path fits its cluster, and its names can be told apart. -/
def DirectoriesFit (vbr : Vbr) (children : List FsNode) : Prop :=
  ∀ dir node, (FsNode.directory [] 0 children).lookup dir = some node →
    FsItemFits vbr (if dir ≠ [] then some 0 else none, node) ∧ Findable node.children

/-- Only whether a directory has dot entries matters, not the cluster of its parent. -/
theorem fsItemFits_iff_dots (vbr : Vbr) (item : Option ℕ × FsNode) :
    FsItemFits vbr item ↔ FsItemFits vbr (if item.1.isSome then some 0 else none, item.2) := by
  obtain ⟨parent, node⟩ := item
  cases parent <;> cases node <;> rfl

theorem fsDots_of_path (dir : List CString) :
    fsDots (if dir ≠ [] then some 0 else none) = if dir = [] then 0 else 2 := by
  by_cases empty : dir = []
  · rw [if_neg (not_not_intro empty), if_pos empty]
    rfl
  · rw [if_pos empty, if_neg empty]
    rfl

theorem forall_items_iff_directoriesFit {vbr : Vbr} {children : List FsNode}
    (unique : UniqueBelow children) : (∀ item ∈ (FsNode.directory [] 0 children).items none,
      FsItemFits vbr item ∧ Findable item.2.children) ↔ DirectoriesFit vbr children := by
  have root_unique : (FsNode.directory [] 0 children).Unique := unique_directory_iff.mpr unique
  have listed := @FsNode.Unique.forall_items_iff _ root_unique (fun nested node =>
    FsItemFits vbr (if nested then some 0 else none, node) ∧ Findable node.children) none
  rw [forall₂_congr fun item _ => and_congr_left' (fsItemFits_iff_dots vbr item), listed,
    DirectoriesFit]
  simp only [Option.isSome_none, Bool.false_or, decide_eq_true_eq]

section

variable {vbr : Vbr} {children : List FsNode} {requests : List (PathRequest CString)}
  (ordered : RequestsOrdered requests) (same : fsView children = PathView.root.serveAll requests)

include ordered same

theorem mem_createdPaths_iff_lookup {path : List CString} :
    path ∈ createdPaths requests ↔
      path ≠ [] ∧ ((FsNode.directory [] 0 children).lookup path).isSome := by
  rw [ordered.mem_createdPaths_iff, ← same, fsView, Option.isSome_map]

theorem firstRequest_eq_lookup {path : List CString} (created : path ∈ createdPaths requests) :
    firstRequest requests path =
      ((FsNode.directory [] 0 children).lookup path).map FsNode.isFile := by
  obtain ⟨path_ne, found⟩ := ordered.mem_createdPaths_iff.mp created
  obtain ⟨isFile, lies⟩ := Option.isSome_iff_exists.mp found
  rw [((ordered.serveAll_eq_some_iff path_ne).mp lies).2, ← lies, ← same, fsView]

theorem created_child_iff {dir : List CString} {name part : CString} {cluster : ℕ}
    {below : List FsNode}
    (lookup : (FsNode.directory [] 0 children).lookup dir = some (.directory name cluster below)) :
    dir ++ [part] ∈ createdPaths requests ↔ part ∈ below.map FsNode.name := by
  rw [mem_createdPaths_iff_lookup ordered same, FsNode.lookup_append, lookup, Option.bind_some,
    FsNode.lookup_single, fsNodeFindChild, List.find?_isSome, List.mem_map]
  simp [FsNode.children]

/-- The paths created in a directory are those of its children. -/
theorem created_children_length {dir : List CString} {name : CString} {cluster : ℕ}
    {below : List FsNode} (names : (below.map FsNode.name).Nodup)
    (lookup : (FsNode.directory [] 0 children).lookup dir = some (.directory name cluster below)) :
    ((createdPaths requests).filter fun path => path.dropLast = dir).length = below.length := by
  have created_nodup : (createdPaths requests).Nodup := (List.nodup_dedup _).filter _
  have children_nodup : ((below.map FsNode.name).map fun part => dir ++ [part]).Nodup :=
    names.map fun left right equal => by simpa using equal
  have perm := (List.perm_ext_iff_of_nodup (created_nodup.filter _) children_nodup).mpr fun path =>
    show path ∈ (createdPaths requests).filter (fun path => path.dropLast = dir) ↔ _ by
      rw [List.mem_filter, decide_eq_true_iff, List.mem_map]
      constructor
      · rintro ⟨created, rfl⟩
        have path_ne := (mem_createdPaths_iff_lookup ordered same).mp created |>.1
        have split := List.dropLast_append_getLast path_ne
        refine ⟨path.getLast path_ne, ?_, split⟩
        rwa [← created_child_iff ordered same lookup, split]
      · rintro ⟨part, listed, rfl⟩
        exact ⟨(created_child_iff ordered same lookup).mpr listed, List.dropLast_concat⟩
  rw [perm.length_eq, List.length_map, List.length_map]

/-- What is created lies in a directory of the tree. -/
theorem exists_directory_of_created {path : List CString} (created : path ∈ createdPaths requests) :
    ∃ dir part name cluster below child, path = dir ++ [part] ∧
      (FsNode.directory [] 0 children).lookup dir = some (.directory name cluster below) ∧
      fsNodeFindChild below part = some child ∧
      (FsNode.directory [] 0 children).lookup path = some child := by
  obtain ⟨path_ne, found⟩ := (mem_createdPaths_iff_lookup ordered same).mp created
  obtain ⟨child, lookup⟩ := Option.isSome_iff_exists.mp found
  have split := List.dropLast_append_getLast path_ne
  rw [← split, FsNode.lookup_append, Option.bind_eq_some_iff] at lookup
  obtain ⟨parent, parent_found, last⟩ := lookup
  rw [FsNode.lookup_single] at last
  cases parent with
  | file => cases (fsNodeFindChild_some last).1
  | directory name cluster below =>
      refine ⟨path.dropLast, path.getLast path_ne, name, cluster, below, child, split.symm,
        parent_found, last, ?_⟩
      rw [← split, FsNode.lookup_append, parent_found, Option.bind_some, FsNode.lookup_single]
      exact last

variable {dir : List CString} {name : CString} {cluster : ℕ} {below : List FsNode}

/-- The created names are those of the nodes, so they fit the buffers. -/
theorem DirectoriesFit.names (all : DirectoriesFit vbr children) {path : List CString}
    (created : path ∈ createdPaths requests) {part : CString} (last : part ∈ path.getLast?) :
    FatNameInBounds part := by
  obtain ⟨dir, _, _, _, below, child, rfl, lookup, found, -⟩ :=
    exists_directory_of_created ordered same created
  obtain ⟨⟨bounds, -⟩, -⟩ := all dir _ lookup
  rw [List.getLast?_concat, Option.mem_some_iff] at last
  obtain ⟨child_mem, child_name⟩ := fsNodeFindChild_some found
  exact last ▸ child_name ▸ bounds child child_mem

/-- Paths of one directory with the same entry name are those of one child. -/
theorem DirectoriesFit.distinct (all : DirectoriesFit vbr children) {left right : List CString}
    (left_created : left ∈ createdPaths requests) (right_created : right ∈ createdPaths requests)
    (parents : left.dropLast = right.dropLast)
    (entries : left.getLast?.bind fatName = right.getLast?.bind fatName) : left = right := by
  obtain ⟨dir, part, _, _, below, child, rfl, lookup, found, -⟩ :=
    exists_directory_of_created ordered same left_created
  obtain ⟨dir', part', _, _, below', child', rfl, lookup', found', -⟩ :=
    exists_directory_of_created ordered same right_created
  rw [List.dropLast_concat, List.dropLast_concat] at parents
  subst parents
  cases lookup.symm.trans lookup'
  rw [List.getLast?_concat, List.getLast?_concat, Option.bind_some, Option.bind_some] at entries
  obtain ⟨child_mem, rfl⟩ := fsNodeFindChild_some found
  obtain ⟨child_mem', rfl⟩ := fsNodeFindChild_some found'
  obtain ⟨-, -, distinct, -⟩ := all dir _ lookup
  rw [List.inj_on_of_nodup_map distinct child_mem child_mem' entries]

/-- What is not first requested as a file is a directory of the tree. -/
theorem exists_directory_of_not_file (created : dir ∈ [] :: createdPaths requests)
    (directory : firstRequest requests dir ≠ some true) : ∃ name cluster below,
      (FsNode.directory [] 0 children).lookup dir = some (.directory name cluster below) := by
  rcases List.mem_cons.mp created with rfl | created
  · exact ⟨_, _, _, rfl⟩
  · rw [firstRequest_eq_lookup ordered same created] at directory
    obtain ⟨node, found⟩ := Option.isSome_iff_exists.mp
      ((mem_createdPaths_iff_lookup ordered same).mp created).2
    rw [found, Option.map_some, ne_eq, Option.some_inj] at directory
    cases node with
    | file => exact absurd rfl directory
    | directory name cluster below => exact ⟨name, cluster, below, found⟩

/-- The created paths of a directory are as many as its entries. -/
theorem DirectoriesFit.room (all : DirectoriesFit vbr children)
    (created : dir ∈ [] :: createdPaths requests)
    (directory : firstRequest requests dir ≠ some true) :
    32 * ((if dir = [] then 0 else 2) +
      ((createdPaths requests).filter fun path => path.dropLast = dir).length) ≤
        fat32ClusterSize vbr := by
  obtain ⟨name, cluster, below, found⟩ :=
    exists_directory_of_not_file ordered same created directory
  obtain ⟨⟨-, room⟩, names, -⟩ := all dir _ found
  rw [created_children_length ordered same names found, ← fsDots_of_path]
  exact room

/-- Every name on the path of a file is that of a child that leads to it. -/
theorem DirectoriesFit.kept (all : DirectoriesFit vbr children) (unique : UniqueBelow children)
    {path : List CString} (created : path ∈ createdPaths requests)
    (file : firstRequest requests path = some true) {part : CString} (member : part ∈ path) :
    part.head? ≠ some 0xE5 := by
  obtain ⟨dir, rest, rfl⟩ := List.append_of_mem member
  rw [firstRequest_eq_lookup ordered same created, FsNode.lookup_append] at file
  cases parent_found : (FsNode.directory [] 0 children).lookup dir with
  | none =>
      rw [parent_found] at file
      cases file
  | some parent =>
      rw [parent_found, Option.bind_some, FsNode.lookup] at file
      cases found : fsNodeFindChild parent.children part with
      | none =>
          rw [found] at file
          cases file
      | some child =>
          rw [found, Option.bind_some] at file
          obtain ⟨child_mem, rfl⟩ := fsNodeFindChild_some found
          obtain ⟨-, findable⟩ := all dir parent parent_found
          have child_found : (FsNode.directory [] 0 children).lookup (dir ++ [child.name]) =
              some child := by
            rw [FsNode.lookup_append, parent_found, Option.bind_some, FsNode.lookup_single, found]
          have root_unique : (FsNode.directory [] 0 children).Unique :=
            unique_directory_iff.mpr unique
          have child_unique := root_unique.lookup child_found
          exact findable.kept child child_mem (child_unique.holdsFile_iff.mpr ⟨rest, file⟩)

theorem DirectoriesFit.pathsFit (all : DirectoriesFit vbr children)
    (unique : UniqueBelow children) : PathsFit vbr requests where
  names _ created _ last := all.names ordered same created last
  distinct _ left_created _ right_created parents entries :=
    all.distinct ordered same left_created right_created parents entries
  room _ created directory := all.room ordered same created directory
  kept _ created file _ member := all.kept ordered same unique created file member

/-- The entries of a directory fit when the created paths do. -/
theorem PathsFit.itemFits (fit : PathsFit vbr requests) (names : (below.map FsNode.name).Nodup)
    (found : (FsNode.directory [] 0 children).lookup dir = some (.directory name cluster below)) :
    FsItemFits vbr (if dir ≠ [] then some 0 else none, .directory name cluster below) := by
  constructor
  · intro child member
    have created := (created_child_iff ordered same found).mpr (List.mem_map_of_mem member)
    exact fit.names _ created child.name (by simp)
  · rw [fsDots_of_path, ← created_children_length ordered same names found]
    by_cases empty : dir = []
    · refine fit.room dir (empty ▸ List.mem_cons_self ..) ?_
      rw [empty, ordered.firstRequest_root]
      simp
    · have dir_created := (mem_createdPaths_iff_lookup ordered same).mpr
        ⟨empty, by rw [found]; rfl⟩
      refine fit.room dir (List.mem_cons_of_mem _ dir_created) ?_
      rw [firstRequest_eq_lookup ordered same dir_created, found]
      simp [FsNode.isFile]

/-- The names of a directory can be told apart when those of the created paths can. -/
theorem PathsFit.findable (fit : PathsFit vbr requests) (unique : UniqueBelow children)
    (found : (FsNode.directory [] 0 children).lookup dir = some (.directory name cluster below)) :
    Findable below := by
  have root_unique : (FsNode.directory [] 0 children).Unique := unique_directory_iff.mpr unique
  obtain ⟨names, below_unique⟩ := unique_directory_iff.mp (root_unique.lookup found)
  have created {child : FsNode} (member : child ∈ below) :
      dir ++ [child.name] ∈ createdPaths requests :=
    (created_child_iff ordered same found).mpr (List.mem_map_of_mem member)
  refine ⟨names, ?_, fun child member holds => ?_⟩
  · refine List.Nodup.map_on (fun left left_mem right right_mem entries => ?_)
      (List.Nodup.of_map _ names)
    have paths := fit.distinct _ (created left_mem) _ (created right_mem) (by simp)
      (by simpa using entries)
    exact List.inj_on_of_nodup_map names left_mem right_mem (by simpa using paths)
  · obtain ⟨rest, leads⟩ := (below_unique child member).holdsFile_iff.mp holds
    have at_file : ((FsNode.directory [] 0 children).lookup (dir ++ child.name :: rest)).map
        FsNode.isFile = some true := by
      rw [FsNode.lookup_append, found, Option.bind_some, FsNode.lookup, FsNode.children,
        fsNodeFindChild_of_mem names member, Option.bind_some, leads]
    have path_created : dir ++ child.name :: rest ∈ createdPaths requests := by
      refine (mem_createdPaths_iff_lookup ordered same).mpr ⟨by simp, ?_⟩
      rw [← Option.isSome_map (f := FsNode.isFile), at_file]
      rfl
    refine fit.kept _ path_created ?_ child.name (by simp)
    rw [firstRequest_eq_lookup ordered same path_created, at_file]

theorem PathsFit.directoriesFit (fit : PathsFit vbr requests) (unique : UniqueBelow children) :
    DirectoriesFit vbr children := by
  intro dir node found
  cases node with
  | file => exact ⟨trivial, List.nodup_nil, List.nodup_nil, List.forall_mem_nil _⟩
  | directory name cluster below =>
      have findable := fit.findable ordered same unique found
      exact ⟨fit.itemFits ordered same findable.names found, findable⟩

/-- In a tree with distinct names that holds what the requests create, all directories can be
searched exactly when the created paths fit. -/
theorem forall_findable_iff (unique : UniqueBelow children) :
    (∀ item ∈ (FsNode.directory [] 0 children).items none,
        FsItemFits vbr item ∧ Findable item.2.children) ↔ PathsFit vbr requests :=
  (forall_items_iff_directoriesFit unique).trans
    ⟨fun all => all.pathsFit ordered same unique,
      fun fit => fit.directoriesFit ordered same unique⟩

end

/-! ## Trees of `disk.files` -/

section

variable {vbr : Vbr} {partitionOffset : ℕ} {ctx : Fat32Ctx}

theorem itemFound_iff {item : Option ℕ × FsNode}
    (nonzero : ∀ child ∈ item.2.children, child.name.head? ≠ some 0x00) :
    ItemFound vbr partitionOffset ctx item ↔ FsItemFits vbr item ∧ Findable item.2.children := by
  match item with
  | (parent, .file name cluster hostPath size) =>
      exact iff_of_true trivial
        ⟨trivial, List.nodup_nil, List.nodup_nil, List.forall_mem_nil _⟩
  | (parent, .directory name cluster children) => exact directoryFound_iff name nonzero

theorem ItemFound.fits {item : Option ℕ × FsNode} (found : ItemFound vbr partitionOffset ctx item) :
    FsItemFits vbr item := by
  classical
  match item with
  | (parent, .file name cluster hostPath size) => trivial
  | (parent, .directory name cluster children) =>
      obtain ⟨-, created, after, -, -, wrote, -⟩ := found
      rw [fat32WriteDirectory_eq partitionOffset ctx parent name] at wrote
      split_ifs at wrote with fits
      exact fits

mutual

/-- Names that fit the buffers are short. -/
theorem FsNode.short_of_fits (node : FsNode) (parent : Option ℕ)
    (fits : ∀ item ∈ node.items parent, FsItemFits vbr item) : node.Short := by
  match node with
  | .file _ _ _ _ => exact .file ..
  | .directory _ cluster children =>
      rw [FsNode.items, List.forall_mem_cons] at fits
      exact .directory _ _ _
        (fun child member => (fits.1.1 child member).length_lt.trans (by decide))
        (FsNode.short_of_fits_below children cluster fits.2)

theorem FsNode.short_of_fits_below (nodes : List FsNode) (cluster : ℕ)
    (fits : ∀ item ∈ FsNode.itemsBelow cluster nodes, FsItemFits vbr item) :
    ∀ node ∈ nodes, node.Short := by
  match nodes with
  | [] => exact List.forall_mem_nil _
  | node :: nodes =>
      rw [FsNode.itemsBelow, List.forall_mem_append] at fits
      rw [List.forall_mem_cons]
      exact ⟨node.short_of_fits (some cluster) fits.1,
        FsNode.short_of_fits_below nodes cluster fits.2⟩

end

/-- Created names that fit the buffers are short. -/
theorem PathsFit.shortView {requests : List (PathRequest CString)} (fit : PathsFit vbr requests)
    (ordered : RequestsOrdered requests) : ShortView (PathView.root.serveAll requests) := by
  intro path found part member
  obtain ⟨before, rest, rfl⟩ := List.append_of_mem member
  have created : before ++ part :: rest ∈ createdPaths requests :=
    ordered.mem_createdPaths_iff.mpr ⟨by simp, found⟩
  have cut : (before ++ part :: rest).take (before.length + 1) = before ++ [part] := by
    simp [List.take_append]
  have own := PathView.take_mem_createdPaths created (Nat.succ_pos before.length) (by simp)
  rw [Nat.succ_eq_add_one, cut] at own
  exact (fit.names _ own part (by simp)).length_lt.trans (by decide)

end

/-- The names of the parsed tree are components of its lines, which end at the first NUL. -/
theorem parseDiskFiles_nonzero {host : HostFiles} {content : List UInt8}
    (unique : UniqueBelow (parseDiskFiles host content).children)
    (same : fsView (parseDiskFiles host content).children =
      PathView.root.serveAll (diskRequests host content)) :
    ∀ item ∈ (parseDiskFiles host content).items none,
      ∀ child ∈ item.2.children, child.name.head? ≠ some 0x00 := by
  have root_unique : (parseDiskFiles host content).Unique := unique_directory_iff.mpr unique
  have listed := @FsNode.Unique.forall_items_iff _ root_unique
    (fun _ node => ∀ child ∈ node.children, child.name.head? ≠ some 0x00) none
  refine listed.mpr fun dir node found child member => ?_
  cases node with
  | file => cases member
  | directory name cluster below =>
      have created := (created_child_iff (diskRequests_ordered host content) same found).mpr
        (List.mem_map_of_mem member)
      obtain ⟨request, requested, path_eq⟩ := List.mem_map.mp
        (List.mem_dedup.mp (List.mem_of_mem_filter created))
      intro head
      have inside : child.name ∈ request.path := by
        rw [path_eq]
        exact List.mem_append_right _ (List.mem_singleton_self _)
      exact not_mem_of_mem_diskRequests requested inside (List.mem_of_head? head)

/-- Whether names start with a byte does not depend on the clusters. -/
theorem nonzero_ignores : FsNode.IgnoresClusters fun item =>
    ∀ child ∈ item.2.children, child.name.head? ≠ some 0x00 := by
  rintro ⟨_, node⟩ ⟨_, twin⟩ - same kept child member
  have twins : node.children.map FsNode.unassign = twin.children.map FsNode.unassign := by
    rw [← FsNode.unassign_children, ← FsNode.unassign_children]
    exact congrArg FsNode.children same
  obtain ⟨original, original_mem, equal⟩ :=
    List.mem_map.mp (twins ▸ List.mem_map_of_mem member)
  rw [← FsNode.unassign_name, ← equal, FsNode.unassign_name]
  exact kept original original_mem

/-- For every `disk.files` content, the directories of the parsed tree have distinct names and
distinct entries that are written inside their cluster, and a scan for the entry name of each file
and of each directory on its path finds it, if and only if the paths that the lines create fit. -/
theorem parseDiskFiles_found_iff (vbr : Vbr) (host : HostFiles) (content : List UInt8)
    (image : ByteMemory) (partitionOffset : ℕ) (ctx : Fat32Ctx) :
    (∀ item ∈ (fat32PrepareTree vbr (fat32TableInit vbr image)
        (parseDiskFiles host content)).1.items none, ItemFound vbr partitionOffset ctx item) ↔
      PathsFit vbr (diskRequests host content) := by
  have ordered := diskRequests_ordered host content
  have prepared := fat32PrepareTree_unassign vbr (fat32TableInit vbr image)
    (parseDiskFiles host content)
  have follows := parseDiskFiles_follows host content
  have root_eq : parseDiskFiles host content =
      .directory [] 0 (parseDiskFiles host content).children := rfl
  cases follows with
  | long tree view_long =>
      refine iff_of_false (fun all => tree ?_) fun fit => view_long (fit.shortView ordered)
      have fits : ∀ item ∈ (parseDiskFiles host content).items none, FsItemFits vbr item :=
        FsNode.forall_items_congr fsItemFits_ignores prepared rfl fun item listed =>
          (all item listed).fits
      rw [← short_directory_iff, ← root_eq]
      exact FsNode.short_of_fits _ none fits
  | exact short unique same =>
      have nonzero := parseDiskFiles_nonzero unique same
      have prepared_nonzero := FsNode.forall_items_congr nonzero_ignores prepared.symm
        (rfl : (none : Option ℕ).isSome = (none : Option ℕ).isSome) nonzero
      rw [← forall_findable_iff ordered same unique, ← root_eq,
        forall₂_congr fun item listed => itemFound_iff (prepared_nonzero item listed)]
      have both : FsNode.IgnoresClusters fun item =>
          FsItemFits vbr item ∧ Findable item.2.children := fun left right placed same =>
        And.imp (fsItemFits_ignores left right placed same)
          (findable_ignores left right placed same)
      exact ⟨FsNode.forall_items_congr both prepared rfl,
        FsNode.forall_items_congr both prepared.symm rfl⟩

/-- The line `k:boot/kernel.bin`. -/
def kernelLine : List UInt8 :=
  [107, 58, 98, 111, 111, 116, 47, 107, 101, 114, 110, 101, 108, 46, 98, 105, 110, 10]

example : PathsFit systemVbr (diskRequests (sizedHost 600) kernelLine) := by decide +kernel

/-- The lines `a:FOO` and `b:foo`. -/
def twoCases : List UInt8 := [97, 58, 70, 79, 79, 10, 98, 58, 102, 111, 111, 10]

/-- Twice the line `:x…x/` with a component of 64 characters. -/
def twiceLong : List UInt8 :=
  [58] ++ List.replicate 64 120 ++ [47, 10] ++ [58] ++ List.replicate 64 120 ++ [47, 10]

/-- The tree of the given content on the system's volume. -/
def systemDiskTree (content : List UInt8) : FsNode :=
  (fat32PrepareTree systemVbr (fat32TableInit systemVbr fun _ => 0)
    (parseDiskFiles (sizedHost 600) content)).1

/-- Every directory that the lines put on the system's volume holds its names once, and Stage2 finds
its files. -/
def SystemDiskFound (content : List UInt8) : Prop :=
  ∀ item ∈ (systemDiskTree content).items none,
    ItemFound systemVbr (2048 * 512) (fat32TableInit systemVbr fun _ => 0) item

theorem SystemDiskFound.root {content : List UInt8} (found : SystemDiskFound content) :
    DirectoryFound systemVbr (2048 * 512) (fat32TableInit systemVbr fun _ => 0) none
      systemVbr.rootCluster (systemDiskTree content).children :=
  found (none, systemDiskTree content) (List.mem_cons_self ..)

/-- Names that differ in case get the same entry name, a component that is cut when its directory is
created is not found again and added a second time, and seventeen files overflow the cluster of the
root. -/
theorem parseDiskFiles_hides_files :
    ¬SystemDiskFound twoCases ∧ ¬SystemDiskFound twiceLong ∧ ¬SystemDiskFound seventeenFiles := by
  refine ⟨fun found => ?_, fun found => ?_, fun found => ?_⟩
  · obtain ⟨created, after, made, distinct, -⟩ := found.root.entries
    have names : ((systemDiskTree twoCases).children.mapM fat32CreateEntry).map
        (List.map FatDirEntry.name) = some [[70, 79, 79, 32, 32, 32, 32, 32, 32, 32, 32],
          [70, 79, 79, 32, 32, 32, 32, 32, 32, 32, 32]] := by
      decide +kernel
    rw [made, Option.map_some, Option.some_inj] at names
    rw [names] at distinct
    simp at distinct
  · have distinct := found.root.names
    have names : (systemDiskTree twiceLong).children.map FsNode.name =
        [List.replicate 63 120, List.replicate 63 120] := by
      decide +kernel
    rw [names] at distinct
    simp at distinct
  · obtain ⟨created, after, -, -, wrote, -⟩ := found.root.entries
    have overflows : (fat32WriteDirectory systemVbr (2048 * 512)
        (fat32TableInit systemVbr fun _ => 0) none systemVbr.rootCluster
          (systemDiskTree seventeenFiles).children).isNone := by
      decide +kernel
    rw [wrote] at overflows
    cases overflows

end ItWorksOS
