import ItWorksOS.Boot.DiskRead

/-!
# The master boot record

The firmware loads `mbr.asm` to `0x7C00`. It looks for the active partition and loads the first
sector of it. The segments `DS`, `ES` and `SS` are zero, so that an offset in them is an address.
-/

namespace ItWorksOS

/-- What `INT 13h` with `AH = 41h` leaves: the carry flag, `BX` and `CX`. -/
structure ExtensionsReply where
  carry : Bool
  bx : ℕ
  cx : ℕ

/-- `disk_check_lba_extensions`, with the carry flag of its result. -/
def diskCheckLbaExtensions (reply : ExtensionsReply) : Bool :=
  if reply.carry then true
  else if reply.bx ≠ 0xAA55 then true
  else reply.cx &&& 1 = 0

/-- Address of `mbr_partition_table`. -/
def mbrPartitionTable : ℕ := 0x7C00 + 446

/-- `.loop_entries` of `find_active_partition`, for the entries left from `BX` on. -/
def findActiveLoop (mem : ByteMemory) (si : ℕ) : ℕ → ℕ → ℕ
  | 0, _ => 64
  | left + 1, bx =>
      if mem ((si + bx) % 2 ^ 16) = 0x80 then bx else findActiveLoop mem si left (bx + 16)

/-- `find_active_partition`: the offset of the entry in the table, or 64. -/
def findActivePartition (mem : ByteMemory) (si : ℕ) : ℕ := findActiveLoop mem si 4 0

/-- How `mbr_stage` ends: with a message, or at the code of the VBR with `DL` and `SI`. -/
inductive MbrExit where
  | halt (message : String)
  | vbr (dl si : ℕ) (mem : ByteMemory)

/-- `mbr_stage`, for the drive in `DL`. -/
def mbrStage (bios : BiosDisk) (extensions : ℕ → ExtensionsReply) (dl : ℕ) (mem : ByteMemory) :
    MbrExit :=
  let ax := findActivePartition mem mbrPartitionTable
  if ax = 64 then .halt "Boot failed (MBR): no active partition found\r\n"
  else
    let si := mbrPartitionTable + ax
    let eax := mem.read32 (si + 8)
    if diskCheckLbaExtensions (extensions dl) then
      .halt "Boot Failed (MBR): the BIOS does not support BIOS extensions\r\n"
    else
      match diskReadLba bios dl eax 1 0 0x0500 mem with
      | (true, _) => .halt "Boot failed (MBR): failed to load VBR sector\r\n"
      | (false, mem) => .vbr dl si mem

/-- The entry of the table with this number is the first active one. -/
structure FirstActive (table : ℕ → UInt8) (k : ℕ) : Prop where
  inside : k < 4
  active : table (16 * k) = 0x80
  before : ∀ j < k, table (16 * j) ≠ 0x80

section

variable {mem : ByteMemory} {si : ℕ}

theorem findActiveLoop_found {table : ℕ → UInt8} {left bx k : ℕ} (inside : k < left)
    (room : si + bx + 16 * left ≤ 2 ^ 16)
    (held : ∀ j < left, mem (si + bx + 16 * j) = table (16 * j)) (active : table (16 * k) = 0x80)
    (before : ∀ j < k, table (16 * j) ≠ 0x80) :
    findActiveLoop mem si left bx = bx + 16 * k := by
  induction left generalizing table bx k with
  | zero => cases inside
  | succ left induction =>
      have first := held 0 (Nat.succ_pos left)
      rw [Nat.mul_zero, Nat.add_zero] at first
      rw [findActiveLoop, Nat.mod_eq_of_lt (by omega), first]
      cases k with
      | zero =>
          rw [Nat.mul_zero] at active
          rw [if_pos active, Nat.mul_zero, Nat.add_zero]
      | succ k =>
          have inactive := before 0 (Nat.succ_pos k)
          rw [Nat.mul_zero] at inactive
          have step (j : ℕ) : si + (bx + 16) + 16 * j = si + bx + 16 * (j + 1) := by omega
          rw [if_neg inactive, @induction (fun i => table (i + 16)) (bx + 16) k
            (Nat.lt_of_succ_lt_succ inside) (by omega)
            (fun j below => (step j).symm ▸ held (j + 1) (Nat.succ_lt_succ below)) active
            fun j below => before (j + 1) (Nat.succ_lt_succ below)]
          omega

/-- `find_active_partition` finds the first active entry. -/
theorem findActivePartition_found {table : ℕ → UInt8} {k : ℕ} (first : FirstActive table k)
    (room : si + 64 ≤ 2 ^ 16) (held : ∀ i < 64, mem (si + i) = table i) :
    findActivePartition mem si = 16 * k := by
  have inside := first.inside
  rw [findActivePartition, findActiveLoop_found inside (by omega)
    (fun j below => held (16 * j) (by omega)) first.active first.before, Nat.zero_add]

end

end ItWorksOS
