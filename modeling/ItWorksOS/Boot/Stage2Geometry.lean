import ItWorksOS.Boot.Stage2Reads

/-!
# Cluster sizes that Stage2 accepts

`fat32_load_file` advances `SI` by the low 16 bits of `bytes_per_cluster` and moves `ES` when the
addition carries. Clusters of up to 32 KiB are loaded one after the other in this way. A cluster of
64 KiB, which `stage2_validate` accepts, advances neither register.
-/

namespace ItWorksOS

/-- The geometries that `stage2_validate` accepts, with a power of two as cluster size. -/
structure Stage2Geometry (vbr : Vbr) : Prop where
  sector_size : vbr.bytesPerSector = 512
  cluster_size : ∃ n ≤ 7, vbr.sectorsPerCluster = 2 ^ n

section

variable (machine : Stage2Machine) (ctx : Stage2Context) (disk : ByteMemory) (cluster : ℕ)
  (rest : List ℕ) (es : ℕ) (mem : ByteMemory)

/-- `fat32_load_file` succeeds, with the clusters of a chain one after the other at `ES:0`. -/
def LoadsContiguously : Prop :=
  ∀ fuel, rest.length < fuel → ∃ load,
    fat32LoadFile machine ctx fuel cluster es 0 mem = some load ∧ load.carry = false ∧
      ∀ k c, (cluster :: rest)[k]? = some c → ∀ offset < ctx.bytesPerCluster,
        load.mem (es * 16 + k * ctx.bytesPerCluster + offset) =
          disk (512 * ctx.clusterLba c + offset)

/-- It makes no difference that the clusters of 64 KiB are all loaded to one place: the last one is
equal to the first one, and the others are in memory already. -/
structure OverwritingUnnoticed : Prop where
  ends : ∀ offset < 2 ^ 16, disk (512 * ctx.clusterLba (rest.getLastD cluster) + offset) =
    disk (512 * ctx.clusterLba cluster + offset)
  later : ∀ k c, rest[k]? = some c → ∀ offset < 2 ^ 16,
    mem (es * 16 + (k + 1) * 2 ^ 16 + offset) = disk (512 * ctx.clusterLba c + offset)

end

section

variable {machine : Stage2Machine} {ctx : Stage2Context} {disk : ByteMemory}
  {cluster total limit es : ℕ} {rest : List ℕ}

/-! ## Clusters of 64 KiB -/

theorem stage2ReadCluster_full (limited : machine.bios.Limited ctx.bootDrive disk total limit)
    (total_le : total ≤ 2 ^ 32) (sectors : ctx.sectorsPerCluster = 128) (transfers : 128 ≤ limit)
    (inside : ctx.Inside total cluster) (below : es * 16 + 2 ^ 16 ≤ 2 ^ 20) (mem : ByteMemory) :
    stage2ReadCluster machine ctx cluster es 0 mem =
      (false, mem.blit (es * 16) (2 ^ 16) fun i => disk (512 * ctx.clusterLba cluster + i)) := by
  have data := inside.data
  rw [sectors] at data
  rw [stage2ReadCluster, fat32ClusterToLba_of_inside total_le (by omega) inside, sectors]
  exact diskReadLba_of_servesWithin limited.serves es 0 mem (by decide) transfers data (by decide)
    (by omega)

/-- A BIOS with the documented limit refuses to read a cluster of 64 KiB. -/
theorem stage2ReadCluster_refused
    (limited : machine.bios.Limited ctx.bootDrive disk total limit)
    (sectors : ctx.sectorsPerCluster = 128) (refuses : limit < 128) (mem : ByteMemory) :
    ∃ mem', stage2ReadCluster machine ctx cluster es 0 mem = (true, mem') := by
  rw [stage2ReadCluster, sectors, diskReadLba, if_pos (limited.refuses _ mem refuses)]
  exact ⟨_, rfl⟩

/-- One iteration of `fat32_load_file` on a cluster of 64 KiB leaves `ES:SI` where it is. -/
theorem fat32LoadFile_full_succ (limited : machine.bios.Limited ctx.bootDrive disk total limit)
    (total_le : total ≤ 2 ^ 32) (sectors : ctx.sectorsPerCluster = 128) (transfers : 128 ≤ limit)
    (bytes : ctx.bytesPerCluster = 2 ^ 16) (inside : ctx.Inside total cluster)
    (below : es * 16 + 2 ^ 16 ≤ 2 ^ 20) (apart : machine.Apart (es * 16) (es * 16 + 2 ^ 16))
    (fuel : ℕ) (mem : ByteMemory) :
    ∃ mem' : ByteMemory,
      (fat32LoadFile machine ctx (fuel + 1) cluster es 0 mem =
        if ctx.fatEntry disk cluster = 0x0FFFFFF7 then some ⟨true, es, 0, mem'⟩
        else if 0x0FFFFFF8 ≤ ctx.fatEntry disk cluster then some ⟨false, es, 0, mem'⟩
        else fat32LoadFile machine ctx fuel (ctx.fatEntry disk cluster) es 0 mem') ∧
      (∀ offset < 2 ^ 16, mem' (es * 16 + offset) =
        disk (512 * ctx.clusterLba cluster + offset)) ∧
      ∀ address, machine.Apart address (address + 1) →
        (address < es * 16 ∨ es * 16 + 2 ^ 16 ≤ address) → mem' address = mem address := by
  unfold Stage2Machine.Apart at *
  refine ⟨(mem.blit (es * 16) (2 ^ 16) fun i => disk (512 * ctx.clusterLba cluster + i)).blit
      machine.bufFat 512 fun i => disk (512 * (ctx.fatStartLba + cluster / 128) + i), ?_,
    fun offset small => ?_, fun address free outside => ?_⟩
  · rw [fat32LoadFile, stage2ReadCluster_full limited total_le sectors transfers inside below]
    simp only [fat32ReadFatEntry_of_inside limited.toServes total_le inside.table, bytes]
    rfl
  · rw [ByteMemory.blit_of_outside (by omega), ByteMemory.blit_of_inside small]
  · rw [ByteMemory.blit_of_outside (by omega), ByteMemory.blit_of_outside (by omega)]

/-- Of a chain of clusters of 64 KiB, the last one remains. -/
theorem fat32LoadFile_full_chain (limited : machine.bios.Limited ctx.bootDrive disk total limit)
    (total_le : total ≤ 2 ^ 32) (sectors : ctx.sectorsPerCluster = 128) (transfers : 128 ≤ limit)
    (bytes : ctx.bytesPerCluster = 2 ^ 16)
    (leads : FatLeads (ctx.fatEntry disk) (cluster :: rest))
    (inside : ∀ c ∈ cluster :: rest, ctx.Inside total c) (below : es * 16 + 2 ^ 16 ≤ 2 ^ 20)
    (apart : machine.Apart (es * 16) (es * 16 + 2 ^ 16)) {fuel : ℕ} (fueled : rest.length < fuel)
    (mem : ByteMemory) :
    ∃ mem', fat32LoadFile machine ctx fuel cluster es 0 mem = some ⟨false, es, 0, mem'⟩ ∧
      (∀ offset < 2 ^ 16, mem' (es * 16 + offset) =
        disk (512 * ctx.clusterLba (rest.getLastD cluster) + offset)) ∧
      ∀ address, machine.Apart address (address + 1) →
        (address < es * 16 ∨ es * 16 + 2 ^ 16 ≤ address) → mem' address = mem address := by
  induction rest generalizing cluster fuel mem with
  | nil =>
      obtain ⟨fuel, rfl⟩ : ∃ left, fuel = left + 1 := ⟨fuel - 1, by omega⟩
      obtain ⟨mem', ran, loaded, kept⟩ := fat32LoadFile_full_succ limited total_le sectors transfers
        bytes (inside cluster (List.mem_singleton_self _)) below apart fuel mem
      have last : 0x0FFFFFF8 ≤ ctx.fatEntry disk cluster := leads
      rw [if_neg (by omega), if_pos last] at ran
      exact ⟨mem', ran, loaded, kept⟩
  | cons next rest induction =>
      obtain ⟨fuel, rfl⟩ : ∃ left, fuel = left + 1 := ⟨fuel - 1, by omega⟩
      rw [List.length_cons] at fueled
      obtain ⟨mem', ran, loaded, kept⟩ := fat32LoadFile_full_succ limited total_le sectors transfers
        bytes (inside cluster (List.mem_cons_self ..)) below apart fuel mem
      obtain ⟨link, next_lt, leads⟩ := leads
      rw [link, if_neg (by omega), if_neg (by omega)] at ran
      obtain ⟨final, rest_ran, rest_loaded, rest_kept⟩ := @induction next leads
        (fun c member => inside c (List.mem_cons_of_mem _ member)) fuel (by omega) mem'
      refine ⟨final, ran.trans rest_ran, ?_, fun address free outside => ?_⟩
      · rw [List.getLastD_cons]
        exact rest_loaded
      · rw [rest_kept address free outside, kept address free outside]

/-! ## All cluster sizes -/

theorem Stage2Geometry.bytesPerCluster {vbr : Vbr} (geometry : Stage2Geometry vbr) (drive : ℕ) :
    (stage2Init drive vbr).bytesPerCluster = 512 * vbr.sectorsPerCluster := by
  have small := vbr.sectorsPerCluster_lt
  simp only [stage2Init]
  rw [geometry.sector_size, Word32.mul_of_lt (by omega)]

/-- Clusters of 64 KiB are loaded contiguously only where nobody notices that they are not. -/
theorem loadsContiguously_full_iff
    (limited : machine.bios.Limited ctx.bootDrive disk total limit) (total_le : total ≤ 2 ^ 32)
    (sectors : ctx.sectorsPerCluster = 128) (bytes : ctx.bytesPerCluster = 2 ^ 16)
    (leads : FatLeads (ctx.fatEntry disk) (cluster :: rest))
    (inside : ∀ c ∈ cluster :: rest, ctx.Inside total c)
    (below : es * 16 + (rest.length + 1) * 2 ^ 16 ≤ 2 ^ 20)
    (apart : machine.Apart (es * 16) (es * 16 + (rest.length + 1) * 2 ^ 16)) (mem : ByteMemory) :
    LoadsContiguously machine ctx disk cluster rest es mem ↔
      128 ≤ limit ∧ OverwritingUnnoticed ctx disk cluster rest es mem := by
  by_cases transfers : 128 ≤ limit
  · have run (fuel : ℕ) (fueled : rest.length < fuel) := fat32LoadFile_full_chain limited total_le
      sectors transfers bytes leads inside (by omega)
      (apart.mono le_rfl (by omega)) fueled mem
    -- Behind the first cluster, the memory is the one before the load.
    have behind {mem' : ByteMemory} (kept : ∀ address, machine.Apart address (address + 1) →
          (address < es * 16 ∨ es * 16 + 2 ^ 16 ≤ address) → mem' address = mem address)
        {k c : ℕ} (at_k : rest[k]? = some c) {offset : ℕ} (small : offset < 2 ^ 16) :
        mem' (es * 16 + (k + 1) * 2 ^ 16 + offset) = mem (es * 16 + (k + 1) * 2 ^ 16 + offset) := by
      have k_lt := (List.getElem?_eq_some_iff.mp at_k).1
      exact kept _ (apart.mono (by omega) (by omega)) (by omega)
    constructor
    · intro contiguous
      obtain ⟨mem', ran, loaded, kept⟩ := run (rest.length + 1) (Nat.lt_succ_self _)
      obtain ⟨load, ran', _, placed⟩ := contiguous (rest.length + 1) (Nat.lt_succ_self _)
      obtain rfl := Option.some.inj (ran.symm.trans ran')
      rw [bytes] at placed
      refine ⟨transfers, fun offset small => ?_, fun k c at_k offset small => ?_⟩
      · rw [← loaded offset small, ← placed 0 cluster rfl offset small, Nat.zero_mul, Nat.add_zero]
      · rw [← behind kept at_k small]
        exact placed (k + 1) c at_k offset small
    · rintro ⟨_, ends, later⟩ fuel fueled
      obtain ⟨mem', ran, loaded, kept⟩ := run fuel fueled
      refine ⟨_, ran, rfl, fun k c at_k offset small => ?_⟩
      rw [bytes] at small ⊢
      cases k with
      | zero =>
          obtain rfl := Option.some.inj at_k
          rw [Nat.zero_mul, Nat.add_zero]
          exact (loaded offset small).trans (ends offset small)
      | succ k => exact (behind kept at_k small).trans (later k c at_k offset small)
  · refine iff_of_false (fun contiguous => ?_) fun both => transfers both.1
    obtain ⟨load, ran, success, _⟩ := contiguous (rest.length + 1) (Nat.lt_succ_self _)
    obtain ⟨mem', refused⟩ := @stage2ReadCluster_refused machine ctx disk cluster total limit es
      limited sectors (Nat.lt_of_not_le transfers) mem
    rw [fat32LoadFile, refused] at ran
    obtain rfl := Option.some.inj ran
    cases success

/-- `fat32_load_file` loads a chain contiguously when its clusters have at most 32 KiB, and else
only from a BIOS that transfers 128 sectors in one call and only where overwriting goes
unnoticed, as with a single cluster. -/
theorem loadsContiguously_iff {vbr : Vbr} (geometry : Stage2Geometry vbr) (drive : ℕ)
    (limited : machine.bios.Limited drive disk total limit) (total_le : total ≤ 2 ^ 32)
    (leads : FatLeads ((stage2Init drive vbr).fatEntry disk) (cluster :: rest))
    (inside : ∀ c ∈ cluster :: rest, (stage2Init drive vbr).Inside total c)
    (below : es * 16 + (rest.length + 1) * (512 * vbr.sectorsPerCluster) ≤ 2 ^ 20)
    (apart : machine.Apart (es * 16)
      (es * 16 + (rest.length + 1) * (512 * vbr.sectorsPerCluster))) (mem : ByteMemory) :
    LoadsContiguously machine (stage2Init drive vbr) disk cluster rest es mem ↔
      vbr.sectorsPerCluster ≤ 64 ∨
        128 ≤ limit ∧ OverwritingUnnoticed (stage2Init drive vbr) disk cluster rest es mem := by
  have bytes := geometry.bytesPerCluster drive
  obtain ⟨n, n_le, sectors⟩ := geometry.cluster_size
  by_cases small : n ≤ 6
  · have sectors_le : vbr.sectorsPerCluster ≤ 64 := by
      rw [sectors]
      exact (Nat.pow_le_pow_right (by decide) small).trans (by decide)
    have sectors_pos : 0 < vbr.sectorsPerCluster := by
      rw [sectors]
      positivity
    have divides : 512 * vbr.sectorsPerCluster ∣ 2 ^ 16 := by
      rw [sectors, show 512 = 2 ^ 9 from rfl, ← pow_add]
      exact Nat.pow_dvd_pow 2 (by omega)
    have proper : 512 * vbr.sectorsPerCluster < 2 ^ 16 := by omega
    have volume : Stage2Disk machine (stage2Init drive vbr) disk total :=
      ⟨limited.toServes, total_le, sectors_pos, sectors_le.trans (by decide)⟩
    rw [← Nat.add_zero (es * 16)] at apart below
    refine iff_of_true (fun fuel fueled => ?_) (.inl sectors_le)
    obtain ⟨load, ran, success, placed, _⟩ := fat32LoadFile_chain volume rfl bytes proper
      divides leads inside (Nat.dvd_zero _) (by decide) apart below fueled mem
    refine ⟨load, ran, success, fun k c at_k offset offset_lt => ?_⟩
    rw [bytes] at offset_lt ⊢
    exact placed k c at_k offset offset_lt
  · obtain rfl : n = 7 := by omega
    have full : vbr.sectorsPerCluster = 128 := sectors
    rw [full] at bytes below apart
    rw [loadsContiguously_full_iff limited total_le full bytes leads inside below apart mem]
    exact ⟨.inr, fun either => either.resolve_left (by omega)⟩

/-! ## A volume with clusters of 64 KiB -/

/-- A partition with two clusters of 64 KiB. -/
def fullClusterVbr : Vbr :=
  { systemVbr with
    sectorsPerCluster := 128
    totalSectors32 := 2336
    sectorsPerCluster_lt := by decide
    totalSectors32_lt := by decide }

/-- A disk with the chain of the clusters 2 and 3, which differ in every byte. -/
def fullClusterDisk : ByteMemory := fun address =>
  if address = 512 * 2080 + 8 then 3
  else if 512 * 2080 + 12 ≤ address ∧ address < 512 * 2080 + 16 then 0xFF
  else if 512 * 4256 ≤ address then 0x42 else 0

/-- A machine whose BIOS reads up to 128 sectors of this disk in one call. -/
def fullClusterMachine : Stage2Machine :=
  ⟨limitedRead fullClusterDisk 4384 128, 0x3000, by decide⟩

theorem fullClusterMachine_limited :
    fullClusterMachine.bios.Limited (stage2Init 0x80 fullClusterVbr).bootDrive fullClusterDisk 4384
      128 :=
  limitedRead_limited fullClusterDisk 4384 0x80 (by decide)

theorem fullClusterMachine_leads :
    FatLeads ((stage2Init 0x80 fullClusterVbr).fatEntry fullClusterDisk) [2, 3] := by
  refine ⟨by decide +kernel, by decide, ?_⟩
  change 0x0FFFFFF8 ≤ (stage2Init 0x80 fullClusterVbr).fatEntry fullClusterDisk 3
  decide +kernel

theorem fullClusterMachine_inside :
    ∀ c ∈ [2, 3], (stage2Init 0x80 fullClusterVbr).Inside 4384 c := by
  simp only [List.forall_mem_cons]
  exact ⟨⟨by decide, by decide, by decide⟩, ⟨by decide, by decide, by decide⟩, by simp⟩

/-- The second cluster takes the place of the first one at the load address of the kernel. -/
theorem fat32LoadFile_overwrites : Stage2Geometry fullClusterVbr ∧
    FatLeads ((stage2Init 0x80 fullClusterVbr).fatEntry fullClusterDisk) [2, 3] ∧
    ∃ load, fat32LoadFile fullClusterMachine (stage2Init 0x80 fullClusterVbr) 2 2 0x1000 0
        (fun _ => 0) = some load ∧
      load.carry = false ∧ load.mem 0x10000 = 0x42 ∧
      fullClusterDisk (512 * (stage2Init 0x80 fullClusterVbr).clusterLba 2) = 0 := by
  obtain ⟨mem', ran, loaded, _⟩ := fat32LoadFile_full_chain
    fullClusterMachine_limited (by decide) rfl le_rfl (by decide) fullClusterMachine_leads
    fullClusterMachine_inside (by decide : 0x1000 * 16 + 2 ^ 16 ≤ 2 ^ 20) (.inl (by decide))
    (by decide : 1 < 2) fun _ => 0
  have first := loaded 0 (by decide)
  refine ⟨⟨rfl, 7, le_rfl, rfl⟩, fullClusterMachine_leads, _, ran, rfl, ?_, by decide +kernel⟩
  rw [Nat.add_zero] at first
  exact first.trans (by decide +kernel)

/-- The first cluster alone is loaded. -/
theorem loadsContiguously_fullCluster :
    LoadsContiguously fullClusterMachine (stage2Init 0x80 fullClusterVbr) fullClusterDisk 3 []
      0x1000 fun _ => 0 :=
  (loadsContiguously_iff (⟨rfl, 7, le_rfl, rfl⟩ : Stage2Geometry fullClusterVbr) 0x80
    fullClusterMachine_limited (by decide) fullClusterMachine_leads.2.2
    (fun c member => fullClusterMachine_inside c (List.mem_cons_of_mem _ member)) (by decide)
    (.inl (by decide)) fun _ => 0).mpr
    (.inr ⟨le_rfl, fun _ _ => rfl, fun _ _ at_k => by cases at_k⟩)

end

end ItWorksOS
