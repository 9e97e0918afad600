import ItWorksOS.Boot.Stage2Image
import ItWorksOS.Boot.Vbr

/-!
# What the volume boot record reads

The VBR and Stage2 compute the same sectors. The VBR takes every directory and every entry of the
table as it lies on the disk, and so it reads the volumes that `mkimage` writes.
-/

namespace ItWorksOS

section

variable {machine : Stage2Machine} {vbr : Vbr} {disk mem : ByteMemory}
  {total dl si cluster loadPtr : ℕ} {name : List UInt8}

/-! ## Clusters and table entries -/

theorem clusterToSector_eq (dl si : ℕ) (vbr : Vbr) (cluster : ℕ) :
    clusterToSector (vbrInit dl si vbr) cluster =
      fat32ClusterToLba (stage2Init dl vbr) cluster := by
  rw [clusterToSector, fat32ClusterToLba]
  simp only [vbrInit, stage2Init, Word32.mul, Nat.mul_comm vbr.fatCount]

/-- The VBR loads the clusters that Stage2 reads. -/
theorem loadCluster_eq (machine : Stage2Machine) (dl si : ℕ) (vbr : Vbr) (cluster loadPtr : ℕ)
    (mem : ByteMemory) :
    loadCluster machine.bios (vbrInit dl si vbr) cluster loadPtr mem =
      stage2ReadCluster machine (stage2Init dl vbr) cluster 0 loadPtr mem := by
  rw [loadCluster, clusterToSector_eq, stage2ReadCluster]
  rfl

theorem loadCluster_of_inside (volume : Stage2Disk machine (stage2Init dl vbr) disk total)
    (inside : (stage2Init dl vbr).Inside total cluster)
    (room : loadPtr + 512 * vbr.sectorsPerCluster ≤ 2 ^ 16) (mem : ByteMemory) :
    loadCluster machine.bios (vbrInit dl si vbr) cluster loadPtr mem =
      (false, mem.blit loadPtr (512 * vbr.sectorsPerCluster)
        fun i => disk (512 * (stage2Init dl vbr).clusterLba cluster + i)) := by
  have below : 0 * 16 + loadPtr + 512 * vbr.sectorsPerCluster ≤ 2 ^ 20 := by omega
  rw [loadCluster_eq, stage2ReadCluster_of_inside volume inside room below, Nat.zero_mul,
    Nat.zero_add]
  rfl

/-- Entry of a cluster in the table on the disk, with the reserved bits. -/
def tableEntry (ctx : Stage2Context) (disk : ByteMemory) (cluster : ℕ) : ℕ :=
  disk.read32 (512 * ctx.fatStartLba + 4 * cluster)

theorem getNextCluster_of_inside (volume : Stage2Disk machine (stage2Init dl vbr) disk total)
    (inside : (stage2Init dl vbr).Inside total cluster) (mem : ByteMemory) :
    ∃ sector : ℕ → UInt8, getNextCluster machine.bios (vbrInit dl si vbr) cluster mem =
      (false, tableEntry (stage2Init dl vbr) disk cluster, mem.blit fatSecLoadOff 512 sector) := by
  have total_le := volume.total_le
  have table := inside.table
  have start : (vbrInit dl si vbr).fatStartSector = (stage2Init dl vbr).fatStartLba := rfl
  have drive : (vbrInit dl si vbr).bootDrive = (stage2Init dl vbr).bootDrive := rfl
  refine ⟨fun i => disk (512 * ((stage2Init dl vbr).fatStartLba + cluster / 128) + i), ?_⟩
  rw [getNextCluster, start, drive, Word32.add_of_lt (by omega), Nat.add_comm (cluster / 128),
    diskReadLba_buffer volume.serves table (by decide)]
  simp only [tableEntry]
  congr 2
  refine ByteMemory.read32_shift fun offset small => ?_
  rw [Nat.add_assoc, ByteMemory.blit_of_inside (by omega)]
  congr 1
  omega

/-! ## Directories -/

/-- The scan finds the first entry with the name, unless a free entry comes before it. -/
theorem loopThroughEntries_found {left si k : ℕ} (inside : k < left)
    (room : si + 32 * k + 32 ≤ 2 ^ 16)
    (passed : ∀ j < k, mem (si + 32 * j) ≠ 0x00 ∧
      (List.range 11).map (fun i => mem (si + 32 * j + i)) ≠ name)
    (used : mem (si + 32 * k) ≠ 0x00)
    (named : (List.range 11).map (fun i => mem (si + 32 * k + i)) = name) :
    loopThroughEntries name mem left si = some (si + 32 * k) := by
  have unwrapped {address : ℕ} (low : address + 32 ≤ 2 ^ 16) :
      (List.range 11).map (fun i => mem ((address + i) % 2 ^ 16)) =
        (List.range 11).map fun i => mem (address + i) := by
    refine List.map_congr_left fun i member => ?_
    have := List.mem_range.mp member
    rw [Nat.mod_eq_of_lt (by omega)]
  induction left generalizing si k with
  | zero => cases inside
  | succ left induction =>
      cases k with
      | zero =>
          rw [Nat.mul_zero, Nat.add_zero] at room used named ⊢
          rw [loopThroughEntries, if_neg used, unwrapped room, if_pos named, Nat.add_zero]
      | succ k =>
          have first := passed 0 (Nat.succ_pos k)
          rw [Nat.mul_zero, Nat.add_zero] at first
          have step (j : ℕ) : si + 32 * (j + 1) = si + 32 + 32 * j := by omega
          rw [step] at room used named ⊢
          rw [loopThroughEntries, if_neg first.1, unwrapped (by omega), if_neg first.2,
            Nat.mod_eq_of_lt (by omega)]
          exact induction (Nat.lt_of_succ_lt_succ inside) room
            (fun j before => step j ▸ passed (j + 1) (Nat.succ_lt_succ before)) used named

/-- `find_entry` finds the entry of a child of the directory that has been loaded. -/
theorem findEntry_child {ctx : VbrContext} (sectors : 0 < ctx.vbr.sectorsPerCluster)
    (room : clusterLoadOff + 512 * ctx.vbr.sectorsPerCluster ≤ 2 ^ 16) {parent : Option ℕ}
    {first : ℕ} {children : List FsNode} (named : ∀ child ∈ children, ShortName child.name)
    (distinct : (children.map fun child => child.name.map toupper).Nodup)
    (fits : 32 * (fsDots parent + children.length) ≤ 512 * ctx.vbr.sectorsPerCluster)
    (held : Holds mem clusterLoadOff
      ((fsDirectoryEntries parent first children).flatMap FatDirEntry.bytes))
    {child : FsNode} (member : child ∈ children) :
    ∃ address, findEntry ctx (shortNameBytes child.name) mem = some address ∧
      Holds mem address (fsEntry child).bytes := by
  obtain ⟨comparable, length, k, at_k, before⟩ :=
    fsDirectoryEntries_child parent first named distinct member
  have entries_named (entry : FatDirEntry)
      (listed : entry ∈ fsDirectoryEntries parent first children) : entry.name.length = 11 :=
    (comparable entry listed).named
  have k_lt := (List.getElem?_eq_some_iff.mp at_k).1
  have child_entry := fsEntry_comparable (named child member)
  have child_held := holds_flatMap entries_named held at_k
  have child_named := (child_entry.1.scan child_held).2
  refine ⟨_, ?_, child_held⟩
  rw [findEntry, if_neg (by omega)]
  refine loopThroughEntries_found (by omega) (by omega) (fun j j_lt => ?_) child_named.used
    (child_named.named.trans child_entry.2)
  obtain ⟨entry, at_j⟩ : ∃ entry, (fsDirectoryEntries parent first children)[j]? = some entry :=
    ⟨_, List.getElem?_eq_getElem (j_lt.trans k_lt)⟩
  have other := ((comparable entry (List.mem_of_getElem? at_j)).scan
    (holds_flatMap entries_named held at_j)).2
  exact ⟨other.used, other.named ▸ before j j_lt entry at_j⟩

/-- First cluster of the entry of a node. -/
theorem entryCluster_of_holds {entry : FatDirEntry} {address : ℕ} (named : entry.name.length = 11)
    (cluster_lt : entry.cluster < 2 ^ 32) (held : Holds mem address entry.bytes) :
    entryCluster address mem = entry.cluster := by
  obtain ⟨-, -, high, low, -⟩ := FatDirEntry.holds_fields named held
  rw [entryCluster, high, low]
  simp only [UInt16.toNat_ofNat']
  omega

/-! ## The file -/

theorem nextLoadPtr_of_room (dl si : ℕ) (few : vbr.sectorsPerCluster ≤ 127)
    (room : loadPtr + 512 * vbr.sectorsPerCluster < 2 ^ 16) :
    nextLoadPtr (vbrInit dl si vbr) loadPtr = loadPtr + 512 * vbr.sectorsPerCluster := by
  rw [nextLoadPtr]
  simp only [vbrInit]
  omega

/-- `.load_stage2_loop` loads the clusters of a chain one after the other, and nothing else outside
the buffer of the table. -/
theorem loadStage2Loop_chain (volume : Stage2Disk machine (stage2Init dl vbr) disk total) {size : ℕ}
    (size_eq : size = 512 * vbr.sectorsPerCluster) {rest : List ℕ} {fuel : ℕ}
    (leads : FatLeads (tableEntry (stage2Init dl vbr) disk) (cluster :: rest))
    (inside : ∀ c ∈ cluster :: rest, (stage2Init dl vbr).Inside total c)
    (below : loadPtr + (rest.length + 1) * size ≤ fatSecLoadOff) (fueled : rest.length < fuel)
    (mem : ByteMemory) :
    ∃ loaded : ByteMemory,
      loadStage2Loop machine.bios (vbrInit dl si vbr) fuel cluster loadPtr mem =
        some (.stage2 dl si 0x0500 loaded) ∧
      (∀ k c, (cluster :: rest)[k]? = some c → ∀ offset < size,
        loaded (loadPtr + k * size + offset) =
          disk (512 * (stage2Init dl vbr).clusterLba c + offset)) ∧
      ∀ address, (address < fatSecLoadOff ∨ fatSecLoadOff + 512 ≤ address) →
        (address < loadPtr ∨ loadPtr + (rest.length + 1) * size ≤ address) →
          loaded address = mem address := by
  have few : vbr.sectorsPerCluster ≤ 127 := volume.sectors_le
  have buffer : fatSecLoadOff = 0x7E00 := rfl
  induction rest generalizing cluster fuel loadPtr mem with
  | nil =>
      obtain ⟨fuel, rfl⟩ : ∃ left, fuel = left + 1 := ⟨fuel - 1, by omega⟩
      rw [List.length_nil, Nat.zero_add, Nat.one_mul] at below
      have read := @loadCluster_of_inside machine vbr disk total dl si cluster loadPtr volume
        (inside cluster (List.mem_singleton_self _)) (by omega) mem
      obtain ⟨sector, next⟩ := @getNextCluster_of_inside machine vbr disk total dl si cluster volume
        (inside cluster (List.mem_singleton_self _)) (mem.blit loadPtr (512 * vbr.sectorsPerCluster)
          fun i => disk (512 * (stage2Init dl vbr).clusterLba cluster + i))
      have last : 0x0FFFFFF8 ≤ tableEntry (stage2Init dl vbr) disk cluster := leads
      refine ⟨(mem.blit loadPtr (512 * vbr.sectorsPerCluster)
          fun i => disk (512 * (stage2Init dl vbr).clusterLba cluster + i)).blit fatSecLoadOff 512
            sector, ?_, fun k c at_k offset small => ?_, fun address above outside => ?_⟩
      · rw [loadStage2Loop, read]
        simp only [next]
        rw [if_neg (Nat.not_lt.mpr last)]
        rfl
      · cases k with
        | zero =>
            obtain rfl := Option.some.inj at_k
            rw [Nat.zero_mul, Nat.add_zero, ByteMemory.blit_of_outside (by omega),
              ByteMemory.blit_of_inside (by omega)]
        | succ k => cases at_k
      · rw [List.length_nil, Nat.zero_add, Nat.one_mul] at outside
        rw [ByteMemory.blit_of_outside (by omega), ByteMemory.blit_of_outside (by omega)]
  | cons next rest induction =>
      obtain ⟨fuel, rfl⟩ : ∃ left, fuel = left + 1 := ⟨fuel - 1, by omega⟩
      rw [List.length_cons, Nat.succ_mul] at below ⊢
      rw [List.length_cons] at fueled
      have one : size ≤ (rest.length + 1) * size := Nat.le_mul_of_pos_left _ (Nat.succ_pos _)
      have read := @loadCluster_of_inside machine vbr disk total dl si cluster loadPtr volume
        (inside cluster (List.mem_cons_self ..)) (by omega) mem
      obtain ⟨sector, entry⟩ := @getNextCluster_of_inside machine vbr disk total dl si cluster
        volume (inside cluster (List.mem_cons_self ..))
        (mem.blit loadPtr (512 * vbr.sectorsPerCluster)
          fun i => disk (512 * (stage2Init dl vbr).clusterLba cluster + i))
      obtain ⟨link, next_lt, leads⟩ := leads
      obtain ⟨loaded, ran, held, kept⟩ := @induction next (loadPtr + size) fuel leads
        (fun c member => inside c (List.mem_cons_of_mem _ member)) (by omega) (by omega)
        ((mem.blit loadPtr (512 * vbr.sectorsPerCluster)
          fun i => disk (512 * (stage2Init dl vbr).clusterLba cluster + i)).blit fatSecLoadOff 512
            sector)
      have advance : nextLoadPtr (vbrInit dl si vbr) loadPtr = loadPtr + size := by
        rw [nextLoadPtr_of_room dl si few (by omega), size_eq]
      refine ⟨loaded, ?_, fun k c at_k offset small => ?_, fun address above outside => ?_⟩
      · rw [loadStage2Loop, read]
        simp only [entry]
        rw [link, if_pos (by omega), advance]
        exact ran
      · cases k with
        | zero =>
            obtain rfl := Option.some.inj at_k
            rw [Nat.zero_mul, Nat.add_zero, kept _ (by omega) (by omega),
              ByteMemory.blit_of_outside (by omega), ByteMemory.blit_of_inside (by omega)]
        | succ k =>
            rw [show loadPtr + (k + 1) * size + offset = loadPtr + size + k * size + offset by
              rw [Nat.succ_mul]
              omega]
            exact held k c at_k offset small
      · rw [kept address above (by omega), ByteMemory.blit_of_outside (by omega),
          ByteMemory.blit_of_outside (by omega)]

end

end ItWorksOS
