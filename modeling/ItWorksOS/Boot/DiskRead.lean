import ItWorksOS.Foundation.ByteMemory

/-!
# Disk reads of the boot loader

`disk_read_lba` hands a disk address packet to the BIOS. The BIOS is a parameter.
-/

namespace ItWorksOS

/-- The disk address packet. -/
structure DiskAddressPacket where
  sectors : ℕ
  offset : ℕ
  segment : ℕ
  lba : ℕ

/-- What `INT 13h` leaves: the carry flag, the number of sectors in the packet, and the memory. -/
structure DiskReply where
  carry : Bool
  sectors : ℕ
  mem : ByteMemory

/-- `INT 13h` with `AH = 42h`, for the drive in `DL`. -/
abbrev BiosDisk := ℕ → DiskAddressPacket → ByteMemory → DiskReply

/-- `disk_read_lba`, with the carry flag of its result. -/
def diskReadLba (bios : BiosDisk) (drive lba sectors es si : ℕ) (mem : ByteMemory) :
    Bool × ByteMemory :=
  let reply := bios drive ⟨sectors, si, es, lba⟩ mem
  if reply.carry then (true, reply.mem)
  else if sectors ≠ reply.sectors then (true, reply.mem)
  else (false, reply.mem)

/-- The drive holds `total` sectors of a disk: the extended read service transfers up to 127 sectors
of them to a buffer that ends inside its segment and below 1 MiB. -/
def BiosDisk.Serves (bios : BiosDisk) (drive : ℕ) (disk : ByteMemory) (total : ℕ) : Prop :=
  ∀ packet mem, 0 < packet.sectors → packet.sectors ≤ 127 → packet.lba + packet.sectors ≤ total →
    packet.offset + 512 * packet.sectors ≤ 2 ^ 16 →
    packet.segment * 16 + packet.offset + 512 * packet.sectors ≤ 2 ^ 20 →
    bios drive packet mem = ⟨false, packet.sectors,
      mem.blit (packet.segment * 16 + packet.offset) (512 * packet.sectors)
        fun i => disk (512 * packet.lba + i)⟩

/-- The same service on a machine that transfers up to `limit` sectors in one call. -/
def BiosDisk.ServesWithin (bios : BiosDisk) (drive : ℕ) (disk : ByteMemory) (total limit : ℕ) :
    Prop :=
  ∀ packet mem, 0 < packet.sectors → packet.sectors ≤ limit → packet.lba + packet.sectors ≤ total →
    packet.offset + 512 * packet.sectors ≤ 2 ^ 16 →
    packet.segment * 16 + packet.offset + 512 * packet.sectors ≤ 2 ^ 20 →
    bios drive packet mem = ⟨false, packet.sectors,
      mem.blit (packet.segment * 16 + packet.offset) (512 * packet.sectors)
        fun i => disk (512 * packet.lba + i)⟩

/-- The extended read service transfers packets up to a limit, which is at least the one that it
documents, and refuses longer ones. -/
structure BiosDisk.Limited (bios : BiosDisk) (drive : ℕ) (disk : ByteMemory) (total limit : ℕ) :
    Prop where
  documented : 127 ≤ limit
  serves : bios.ServesWithin drive disk total limit
  refuses : ∀ packet mem, limit < packet.sectors → (bios drive packet mem).carry = true

theorem BiosDisk.Limited.toServes {bios : BiosDisk} {drive total limit : ℕ} {disk : ByteMemory}
    (limited : bios.Limited drive disk total limit) : bios.Serves drive disk total :=
  fun packet mem positive few => limited.serves packet mem positive (few.trans limited.documented)

theorem BiosDisk.Serves.mono {bios : BiosDisk} {drive total total' : ℕ} {disk : ByteMemory}
    (serves : bios.Serves drive disk total) (fewer : total' ≤ total) :
    bios.Serves drive disk total' :=
  fun packet mem positive few inside => serves packet mem positive few (inside.trans fewer)

/-- A BIOS with a single drive that has the given number of sectors. -/
def extendedRead (disk : ByteMemory) (total : ℕ) : BiosDisk := fun _ packet mem =>
  if packet.lba + packet.sectors ≤ total then
    ⟨false, packet.sectors, mem.blit (packet.segment * 16 + packet.offset) (512 * packet.sectors)
      fun i => disk (512 * packet.lba + i)⟩
  else ⟨true, 0, mem⟩

theorem extendedRead_serves (disk : ByteMemory) (total drive : ℕ) :
    (extendedRead disk total).Serves drive disk total :=
  fun _ _ _ _ inside _ _ => if_pos inside

/-- A BIOS with a single drive that refuses packets of more sectors than a limit. -/
def limitedRead (disk : ByteMemory) (total limit : ℕ) : BiosDisk := fun drive packet mem =>
  if limit < packet.sectors then ⟨true, 0, mem⟩ else extendedRead disk total drive packet mem

theorem limitedRead_limited (disk : ByteMemory) (total drive : ℕ) {limit : ℕ}
    (documented : 127 ≤ limit) :
    (limitedRead disk total limit).Limited drive disk total limit where
  documented := documented
  serves := fun packet mem _ few inside _ _ => by
    rw [limitedRead, if_neg (Nat.not_lt.mpr few), extendedRead, if_pos inside]
  refuses := fun packet mem many => by
    rw [limitedRead, if_pos many]

theorem diskReadLba_of_servesWithin {bios : BiosDisk} {drive total limit : ℕ} {disk : ByteMemory}
    (serves : bios.ServesWithin drive disk total limit) {lba sectors : ℕ} (es si : ℕ)
    (mem : ByteMemory) (positive : 0 < sectors) (few : sectors ≤ limit)
    (inside : lba + sectors ≤ total) (offset : si + 512 * sectors ≤ 2 ^ 16)
    (below : es * 16 + si + 512 * sectors ≤ 2 ^ 20) :
    diskReadLba bios drive lba sectors es si mem =
      (false, mem.blit (es * 16 + si) (512 * sectors) fun i => disk (512 * lba + i)) := by
  simp only [diskReadLba, serves ⟨sectors, si, es, lba⟩ mem positive few inside offset below]
  simp

theorem diskReadLba_of_serves {bios : BiosDisk} {drive total : ℕ} {disk : ByteMemory}
    (serves : bios.Serves drive disk total) {lba sectors : ℕ} (es si : ℕ) (mem : ByteMemory)
    (positive : 0 < sectors) (few : sectors ≤ 127) (inside : lba + sectors ≤ total)
    (offset : si + 512 * sectors ≤ 2 ^ 16) (below : es * 16 + si + 512 * sectors ≤ 2 ^ 20) :
    diskReadLba bios drive lba sectors es si mem =
      (false, mem.blit (es * 16 + si) (512 * sectors) fun i => disk (512 * lba + i)) :=
  diskReadLba_of_servesWithin serves es si mem positive few inside offset below

end ItWorksOS
