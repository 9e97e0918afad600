import ItWorksOS.Boot.Stage2

/-!
# What Stage2 reads

On a disk that the BIOS serves, each function of the reader returns what lies on the disk, as long
as the sectors it asks for exist. A directory scan finds the first entry with the name, and a chain
is loaded contiguously.
-/

namespace ItWorksOS

/-! ## Clusters and table entries -/

/-- The BIOS serves the disk, and the sectors of a cluster can be read in one call. -/
structure Stage2Disk (machine : Stage2Machine) (ctx : Stage2Context) (disk : ByteMemory)
    (total : ℕ) :
    Prop where
  serves : machine.bios.Serves ctx.bootDrive disk total
  total_le : total ≤ 2 ^ 32
  sectors_pos : 0 < ctx.sectorsPerCluster
  sectors_le : ctx.sectorsPerCluster ≤ 127

/-- First sector of a cluster. -/
def Stage2Context.clusterLba (ctx : Stage2Context) (cluster : ℕ) : ℕ :=
  ctx.dataStartLba + (cluster - 2) * ctx.sectorsPerCluster

/-- The sectors of the cluster and of its table entry exist. -/
structure Stage2Context.Inside (ctx : Stage2Context) (total cluster : ℕ) : Prop where
  above : 2 ≤ cluster
  data : ctx.clusterLba cluster + ctx.sectorsPerCluster ≤ total
  table : ctx.fatStartLba + cluster / 128 < total

/-- Entry of a cluster in the table on the disk, without the reserved bits. -/
def Stage2Context.fatEntry (ctx : Stage2Context) (disk : ByteMemory) (cluster : ℕ) : ℕ :=
  disk.read32 (512 * ctx.fatStartLba + 4 * cluster) &&& 0x0FFFFFFF

section

variable {machine : Stage2Machine} {ctx : Stage2Context} {disk mem : ByteMemory} {total cluster : ℕ}
  {name : List UInt8}

theorem fat32ClusterToLba_of_inside (total_le : total ≤ 2 ^ 32)
    (sectors_pos : 0 < ctx.sectorsPerCluster) (inside : ctx.Inside total cluster) :
    fat32ClusterToLba ctx cluster = ctx.clusterLba cluster := by
  have above := inside.above
  have data := inside.data
  rw [Stage2Context.clusterLba] at data ⊢
  have cluster_le : cluster - 2 ≤ (cluster - 2) * ctx.sectorsPerCluster :=
    Nat.le_mul_of_pos_right _ sectors_pos
  have shifted : Word32.sub cluster 2 = cluster - 2 := by
    rw [Word32.sub]
    omega
  rw [fat32ClusterToLba, shifted, Word32.mul_of_lt (by omega), Word32.add_of_lt (by omega),
    Nat.add_comm]

theorem stage2ReadCluster_of_inside (volume : Stage2Disk machine ctx disk total)
    (inside : ctx.Inside total cluster) {es si : ℕ}
    (offset : si + 512 * ctx.sectorsPerCluster ≤ 2 ^ 16)
    (below : es * 16 + si + 512 * ctx.sectorsPerCluster ≤ 2 ^ 20) (mem : ByteMemory) :
    stage2ReadCluster machine ctx cluster es si mem =
      (false, mem.blit (es * 16 + si) (512 * ctx.sectorsPerCluster)
        fun i => disk (512 * ctx.clusterLba cluster + i)) := by
  rw [stage2ReadCluster, fat32ClusterToLba_of_inside volume.total_le volume.sectors_pos inside]
  exact diskReadLba_of_serves volume.serves es si mem volume.sectors_pos volume.sectors_le
    inside.data
    offset below

/-- One sector is read to a buffer of Stage2. -/
theorem diskReadLba_buffer {drive : ℕ} (serves : machine.bios.Serves drive disk total)
    {lba buffer : ℕ} (inside : lba < total) (fits : buffer + 512 ≤ 2 ^ 16) (mem : ByteMemory) :
    diskReadLba machine.bios drive lba 1 0 buffer mem =
      (false, mem.blit buffer 512 fun i => disk (512 * lba + i)) := by
  have read := diskReadLba_of_serves serves 0 buffer mem Nat.zero_lt_one (by decide)
    (Nat.succ_le_of_lt inside) (by omega) (by omega)
  rwa [Nat.zero_mul, Nat.zero_add, Nat.mul_one] at read

theorem fat32ReadFatEntry_of_inside (serves : machine.bios.Serves ctx.bootDrive disk total)
    (total_le : total ≤ 2 ^ 32) (table : ctx.fatStartLba + cluster / 128 < total)
    (mem : ByteMemory) :
    fat32ReadFatEntry machine ctx cluster mem = (false, ctx.fatEntry disk cluster,
      mem.blit machine.bufFat 512 fun i => disk (512 * (ctx.fatStartLba + cluster / 128) + i)) := by
  have fits := machine.fits
  rw [fat32ReadFatEntry, Word32.add_of_lt (by omega), Nat.add_comm (cluster / 128),
    diskReadLba_buffer serves table (by omega)]
  simp only [Stage2Context.fatEntry]
  congr 3
  refine ByteMemory.read32_shift fun offset small => ?_
  rw [Nat.add_assoc, ByteMemory.blit_of_inside (by omega)]
  congr 1
  omega

/-! ## Directory scans -/

/-- The scan goes past the entry at an address. -/
def DirEntryPassed (name : List UInt8) (mem : ByteMemory) (address : ℕ) : Prop :=
  mem address ≠ 0x00 ∧ (mem address = 0xE5 ∨ mem (address + 0x0B) = 0x0F ∨
    mem (address + 0x0B) &&& 0x08 ≠ 0 ∨ (List.range 11).map (fun i => mem (address + i)) ≠ name)

/-- The scan stops at the entry at an address, because it has the name. -/
structure DirEntryNamed (name : List UInt8) (mem : ByteMemory) (address : ℕ) : Prop where
  used : mem address ≠ 0x00
  kept : mem address ≠ 0xE5
  short : mem (address + 0x0B) ≠ 0x0F
  entry : mem (address + 0x0B) &&& 0x08 = 0
  named : (List.range 11).map (fun i => mem (address + i)) = name

theorem map_range_eleven {other : ByteMemory} {address target : ℕ}
    (same : ∀ offset < 32, other (target + offset) = mem (address + offset)) :
    (List.range 11).map (fun i => other (target + i)) =
      (List.range 11).map fun i => mem (address + i) := by
  refine List.map_congr_left fun i member => same i ?_
  have := List.mem_range.mp member
  omega

theorem DirEntryPassed.shift {other : ByteMemory} {address target : ℕ}
    (passed : DirEntryPassed name mem address)
    (same : ∀ offset < 32, other (target + offset) = mem (address + offset)) :
    DirEntryPassed name other target := by
  have first := same 0 (by decide)
  rw [Nat.add_zero, Nat.add_zero] at first
  rw [DirEntryPassed, first, same 0x0B (by decide), map_range_eleven same]
  exact passed

theorem DirEntryNamed.shift {other : ByteMemory} {address target : ℕ}
    (found : DirEntryNamed name mem address)
    (same : ∀ offset < 32, other (target + offset) = mem (address + offset)) :
    DirEntryNamed name other target := by
  have first := same 0 (by decide)
  rw [Nat.add_zero, Nat.add_zero] at first
  have attr := same 0x0B (by decide)
  exact ⟨first ▸ found.used, first ▸ found.kept, attr ▸ found.short, attr ▸ found.entry,
    (map_range_eleven same).trans found.named⟩

theorem fat32EntryLoop_of_passed {bx : ℕ} (passed : DirEntryPassed name mem bx) (left : ℕ) :
    fat32EntryLoop name mem (left + 1) bx = fat32EntryLoop name mem left (bx + 32) := by
  obtain ⟨used, skipped⟩ := passed
  rw [fat32EntryLoop, if_neg used]
  split_ifs with deleted long volume same
  · rfl
  · rfl
  · rfl
  · exact absurd same (((skipped.resolve_left deleted).resolve_left long).resolve_left volume)
  · rfl

theorem fat32EntryLoop_of_named {bx : ℕ} (found : DirEntryNamed name mem bx) (left : ℕ) :
    fat32EntryLoop name mem (left + 1) bx = .found bx := by
  rw [fat32EntryLoop, if_neg found.used, if_neg found.kept, if_neg found.short,
    if_neg (not_not_intro found.entry), if_pos found.named]

/-- The first entry with the name is found. -/
theorem fat32EntryLoop_found {left bx k : ℕ} (inside : k < left)
    (passed : ∀ j < k, DirEntryPassed name mem (bx + 32 * j))
    (found : DirEntryNamed name mem (bx + 32 * k)) :
    fat32EntryLoop name mem left bx = .found (bx + 32 * k) := by
  induction left generalizing bx k with
  | zero => cases inside
  | succ left induction =>
      cases k with
      | zero => exact fat32EntryLoop_of_named found left
      | succ k =>
          have first : DirEntryPassed name mem bx := passed 0 (Nat.succ_pos k)
          rw [fat32EntryLoop_of_passed first]
          have step (j : ℕ) : bx + 32 * (j + 1) = bx + 32 + 32 * j := by omega
          rw [step] at found ⊢
          exact induction (by omega) (fun j before => step j ▸ passed (j + 1) (by omega)) found

theorem fat32EntryLoop_next {left bx : ℕ}
    (passed : ∀ j < left, DirEntryPassed name mem (bx + 32 * j)) :
    fat32EntryLoop name mem left bx = .next := by
  induction left generalizing bx with
  | zero => rfl
  | succ left induction =>
      have first : DirEntryPassed name mem bx := passed 0 (Nat.succ_pos left)
      rw [fat32EntryLoop_of_passed first]
      refine induction fun j before => ?_
      have entry := passed (j + 1) (by omega)
      rwa [Nat.mul_succ, Nat.add_comm (32 * j), ← Nat.add_assoc] at entry

/-- The first entry with the name in consecutive sectors is found, and its sector is left in
`buf_dir`. -/
theorem fat32SectorLoop_found (volume : Stage2Disk machine ctx disk total) {left lba k : ℕ}
    (sectors : lba + left ≤ total) (inside : k < 16 * left)
    (passed : ∀ j < k, DirEntryPassed name disk (512 * lba + 32 * j))
    (found : DirEntryNamed name disk (512 * lba + 32 * k)) (mem : ByteMemory) :
    fat32SectorLoop machine ctx name left lba mem = (.found (machine.bufDir + 32 * (k % 16)),
      mem.blit machine.bufDir 512 fun i => disk (512 * (lba + k / 16) + i)) := by
  have fits := machine.fits
  have bufDir_fits : machine.bufDir + 512 ≤ 2 ^ 16 := by
    rw [Stage2Machine.bufDir]
    omega
  have total_le := volume.total_le
  induction left generalizing lba k mem with
  | zero => omega
  | succ left induction =>
      have buffered (mem : ByteMemory) {offset : ℕ} (small : offset < 512) :
          mem.blit machine.bufDir 512 (fun i => disk (512 * lba + i)) (machine.bufDir + offset) =
            disk (512 * lba + offset) := ByteMemory.blit_of_inside small
      rw [fat32SectorLoop, diskReadLba_buffer volume.serves (by omega) bufDir_fits]
      simp only
      by_cases first : k < 16
      · rw [fat32EntryLoop_found first
          (fun j before => (passed j before).shift fun offset small => ?_)
          (found.shift fun offset small => ?_), Nat.mod_eq_of_lt first, Nat.div_eq_of_lt first,
          Nat.add_zero]
        · rw [Nat.add_assoc, buffered mem (by omega), ← Nat.add_assoc]
        · rw [Nat.add_assoc, buffered mem (by omega), ← Nat.add_assoc]
      · obtain ⟨k, rfl⟩ : ∃ later, k = later + 16 := ⟨k - 16, by omega⟩
        have step (j : ℕ) : 512 * lba + 32 * (j + 16) = 512 * (lba + 1) + 32 * j := by omega
        rw [fat32EntryLoop_next fun j before => (passed j (by omega)).shift fun offset small => ?_]
        · simp only
          rw [Word32.add_of_lt (by omega), induction (by omega) (by omega)
            (fun j before => step j ▸ passed (j + 16) (by omega)) (step k ▸ found),
            ByteMemory.blit_blit, Nat.add_mod_right, Nat.add_div_right _ (by decide), Nat.add_assoc,
            Nat.add_comm 1]
        · rw [Nat.add_assoc, buffered mem (by omega), ← Nat.add_assoc]

/-- `fat32_find_entry` finds the first entry with the name in the first cluster of a directory. -/
theorem fat32FindEntry_found (volume : Stage2Disk machine ctx disk total)
    (inside : ctx.Inside total cluster) {k : ℕ} (small : k < 16 * ctx.sectorsPerCluster)
    (passed : ∀ j < k, DirEntryPassed name disk (512 * ctx.clusterLba cluster + 32 * j))
    (found : DirEntryNamed name disk (512 * ctx.clusterLba cluster + 32 * k)) (fuel : ℕ)
    (mem : ByteMemory) :
    fat32FindEntry machine ctx name (fuel + 1) cluster mem = some (some (32 * (k % 16)),
      mem.blit machine.bufDir 512 fun i => disk (512 * (ctx.clusterLba cluster + k / 16) + i)) := by
  have positive := volume.sectors_pos
  rw [fat32FindEntry, if_neg (by omega),
    fat32ClusterToLba_of_inside volume.total_le volume.sectors_pos inside,
    fat32SectorLoop_found volume inside.data small passed found]
  simp only [Nat.add_sub_cancel_left]

/-! ## Files -/

/-- The table leads from each cluster to the next one, and from the last one to an end mark. -/
def FatLeads (entry : ℕ → ℕ) : List ℕ → Prop
  | [] => False
  | [last] => 0x0FFFFFF8 ≤ entry last
  | cluster :: next :: rest =>
      entry cluster = next ∧ next < 0x0FFFFFF7 ∧ FatLeads entry (next :: rest)

/-- A buffer position that is a multiple of the cluster size leaves room for a cluster. -/
theorem add_le_of_aligned {size si limit : ℕ} (divides : size ∣ limit) (aligned : size ∣ si)
    (before : si < limit) : si + size ≤ limit := by
  have := Nat.le_of_dvd (by omega) (Nat.dvd_sub divides aligned)
  omega

/-- Where `ES:SI` points after a cluster, as long as another one follows below 1 MiB. -/
theorem stage2_advance {size es si : ℕ} (divides : size ∣ 2 ^ 16) (aligned : size ∣ si)
    (before : si < 2 ^ 16) (more : es * 16 + si + size < 2 ^ 20) :
    (if 2 ^ 16 ≤ si + size then (es + 0x1000) % 2 ^ 16 else es) * 16 + (si + size) % 2 ^ 16 =
        es * 16 + si + size ∧
      size ∣ (si + size) % 2 ^ 16 := by
  have room := add_le_of_aligned divides aligned before
  by_cases wraps : 2 ^ 16 ≤ si + size
  · have full : si + size = 2 ^ 16 := Nat.le_antisymm room wraps
    rw [if_pos wraps, full, Nat.mod_self, Nat.mod_eq_of_lt (by omega)]
    exact ⟨by omega, Nat.dvd_zero _⟩
  · rw [if_neg wraps, Nat.mod_eq_of_lt (by omega)]
    exact ⟨by omega, Nat.dvd_add_self_right.mpr aligned⟩

/-- A range of addresses does not meet `buf_fat`. -/
def Stage2Machine.Apart (machine : Stage2Machine) (first last : ℕ) : Prop :=
  machine.bufFat + 512 ≤ first ∨ last ≤ machine.bufFat

theorem Stage2Machine.Apart.mono {first last first' last' : ℕ} (apart : machine.Apart first last)
    (first_le : first ≤ first') (last_le : last' ≤ last) : machine.Apart first' last' := by
  unfold Stage2Machine.Apart at *
  omega

/-- One iteration of `fat32_load_file`: the cluster is loaded, and nothing else changes outside
`buf_fat`. -/
theorem fat32LoadFile_succ (volume : Stage2Disk machine ctx disk total) {size : ℕ}
    (size_eq : size = 512 * ctx.sectorsPerCluster) (bytes : ctx.bytesPerCluster = size)
    (proper : size < 2 ^ 16) {es si : ℕ} (inside : ctx.Inside total cluster)
    (room : si + size ≤ 2 ^ 16) (apart : machine.Apart (es * 16 + si) (es * 16 + si + size))
    (below : es * 16 + si + size ≤ 2 ^ 20) (fuel : ℕ) (mem : ByteMemory) :
    ∃ mem' : ByteMemory,
      (fat32LoadFile machine ctx (fuel + 1) cluster es si mem =
        let es' := if 2 ^ 16 ≤ si + size then (es + 0x1000) % 2 ^ 16 else es
        let si' := (si + size) % 2 ^ 16
        if ctx.fatEntry disk cluster = 0x0FFFFFF7 then some ⟨true, es', si', mem'⟩
        else if 0x0FFFFFF8 ≤ ctx.fatEntry disk cluster then some ⟨false, es', si', mem'⟩
        else fat32LoadFile machine ctx fuel (ctx.fatEntry disk cluster) es' si' mem') ∧
      (∀ offset < size, mem' (es * 16 + si + offset) =
        disk (512 * ctx.clusterLba cluster + offset)) ∧
      ∀ address, machine.Apart address (address + 1) →
        (address < es * 16 + si ∨ es * 16 + si + size ≤ address) → mem' address = mem address := by
  unfold Stage2Machine.Apart at *
  refine ⟨(mem.blit (es * 16 + si) (512 * ctx.sectorsPerCluster)
      fun i => disk (512 * ctx.clusterLba cluster + i)).blit machine.bufFat 512
      fun i => disk (512 * (ctx.fatStartLba + cluster / 128) + i), ?_, fun offset small => ?_,
    fun address above outside => ?_⟩
  · rw [fat32LoadFile, stage2ReadCluster_of_inside volume inside (by omega) (by omega)]
    simp only [fat32ReadFatEntry_of_inside volume.serves volume.total_le inside.table, bytes,
      Nat.mod_eq_of_lt proper]
  · rw [ByteMemory.blit_of_outside (by omega), ByteMemory.blit_of_inside (by omega)]
  · rw [ByteMemory.blit_of_outside (by omega), ByteMemory.blit_of_outside (by omega)]

/-- `fat32_load_file` loads the clusters of a chain one after the other, and nothing else outside
`buf_fat`. -/
theorem fat32LoadFile_chain (volume : Stage2Disk machine ctx disk total) {size : ℕ}
    (size_eq : size = 512 * ctx.sectorsPerCluster) (bytes : ctx.bytesPerCluster = size)
    (proper : size < 2 ^ 16) (divides : size ∣ 2 ^ 16) {rest : List ℕ} {fuel es si : ℕ}
    (leads : FatLeads (ctx.fatEntry disk) (cluster :: rest))
    (inside : ∀ c ∈ cluster :: rest, ctx.Inside total c) (aligned : size ∣ si)
    (before : si < 2 ^ 16)
    (apart : machine.Apart (es * 16 + si) (es * 16 + si + (rest.length + 1) * size))
    (below : es * 16 + si + (rest.length + 1) * size ≤ 2 ^ 20)
    (fueled : rest.length < fuel) (mem : ByteMemory) :
    ∃ load, fat32LoadFile machine ctx fuel cluster es si mem = some load ∧ load.carry = false ∧
      (∀ k c, (cluster :: rest)[k]? = some c → ∀ offset < size,
        load.mem (es * 16 + si + k * size + offset) = disk (512 * ctx.clusterLba c + offset)) ∧
      ∀ address, machine.Apart address (address + 1) →
        (address < es * 16 + si ∨ es * 16 + si + (rest.length + 1) * size ≤ address) →
          load.mem address = mem address := by
  have sectors := volume.sectors_pos
  induction rest generalizing cluster fuel es si mem with
  | nil =>
      obtain ⟨fuel, rfl⟩ : ∃ left, fuel = left + 1 := ⟨fuel - 1, by omega⟩
      rw [List.length_nil, Nat.zero_add, Nat.one_mul] at below apart
      obtain ⟨mem', ran, loaded, kept⟩ := fat32LoadFile_succ volume size_eq bytes proper
        (inside cluster (List.mem_singleton_self _)) (add_le_of_aligned divides aligned before)
        apart below fuel mem
      have last : 0x0FFFFFF8 ≤ ctx.fatEntry disk cluster := leads
      rw [if_neg (by omega), if_pos last] at ran
      refine ⟨_, ran, rfl, fun k c at_k offset small => ?_, fun address above outside => ?_⟩
      · cases k with
        | zero =>
            obtain rfl := Option.some.inj at_k
            rw [Nat.zero_mul, Nat.add_zero]
            exact loaded offset small
        | succ k => cases at_k
      · rw [List.length_nil, Nat.zero_add, Nat.one_mul] at outside
        exact kept address above outside
  | cons next rest induction =>
      obtain ⟨fuel, rfl⟩ : ∃ left, fuel = left + 1 := ⟨fuel - 1, by omega⟩
      rw [List.length_cons, Nat.succ_mul] at below apart ⊢
      rw [List.length_cons] at fueled
      have one : size ≤ (rest.length + 1) * size := Nat.le_mul_of_pos_left _ (Nat.succ_pos _)
      obtain ⟨mem', ran, loaded, kept⟩ := fat32LoadFile_succ volume size_eq bytes proper
        (inside cluster (List.mem_cons_self ..)) (add_le_of_aligned divides aligned before)
        (apart.mono le_rfl (by omega)) (by omega) fuel mem
      obtain ⟨link, next_lt, leads⟩ := leads
      obtain ⟨address_eq, aligned'⟩ := stage2_advance divides aligned before
        (show es * 16 + si + size < 2 ^ 20 by omega)
      have before' := Nat.mod_lt (si + size) (show 0 < 2 ^ 16 by decide)
      rw [link, if_neg (by omega), if_neg (by omega)] at ran
      generalize (if 2 ^ 16 ≤ si + size then (es + 0x1000) % 2 ^ 16 else es) = es' at *
      generalize (si + size) % 2 ^ 16 = si' at *
      obtain ⟨load, rest_ran, success, rest_loaded, rest_kept⟩ := @induction next fuel es' si' leads
        (fun c member => inside c (List.mem_cons_of_mem _ member)) aligned' before'
        (apart.mono (by omega) (by omega)) (by omega) (by omega) mem'
      refine ⟨load, ran.trans rest_ran, success, fun k c at_k offset small => ?_,
        fun address above outside => ?_⟩
      · cases k with
        | zero =>
            obtain rfl := Option.some.inj at_k
            rw [Nat.zero_mul, Nat.add_zero, ← loaded offset small]
            exact rest_kept _ (apart.mono (by omega) (by omega)) (by omega)
        | succ k =>
            rw [show es * 16 + si + (k + 1) * size + offset = es' * 16 + si' + k * size + offset by
              rw [Nat.succ_mul]
              omega]
            exact rest_loaded k c at_k offset small
      · rw [rest_kept address above (by omega), kept address above (by omega)]

end

end ItWorksOS
