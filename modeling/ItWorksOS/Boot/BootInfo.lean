import ItWorksOS.Boot.MemoryMap
import ItWorksOS.Klib.Endian

/-!
# The boot information in memory

Stage2 lays out `boot_info` in assembly, and the kernel reads it through a packed structure.
-/

namespace ItWorksOS

/-- `struct boot_info` at an address. -/
def BootInfo.read (mem : ByteMemory) (address : ℕ) : BootInfo where
  memoryMapCount := (readLe16 mem address).toNat
  memoryMapPhys := (readLe32 mem (address + 2)).toNat + 2 ^ 32 * (readLe32 mem (address + 6)).toNat
  video := (List.range 16).map fun i => mem (address + 10 + i)
  systemImage := (readLe32 mem (address + 26)).toNat + 2 ^ 32 * (readLe32 mem (address + 30)).toNat
  systemImageSize := (readLe32 mem (address + 34)).toNat

/-- `sizeof(struct boot_info)`. -/
def bootInfoSize : ℕ := 38

/-- The bytes that lie at the labels of `boot_info`, for values of 32 bits. -/
structure BootInfo.Stored (info : BootInfo) (mem : ByteMemory) (address : ℕ) : Prop where
  count : Holds mem address (le16 (UInt16.ofNat info.memoryMapCount))
  map : Holds mem (address + 2) (le32 (UInt32.ofNat info.memoryMapPhys) ++ le32 0)
  video : Holds mem (address + 10) info.video
  image : Holds mem (address + 26) (le32 (UInt32.ofNat info.systemImage) ++ le32 0)
  size : Holds mem (address + 34) (le32 (UInt32.ofNat info.systemImageSize))

/-- The values have the widths of their fields. -/
structure BootInfo.Narrow (info : BootInfo) : Prop where
  count : info.memoryMapCount < 2 ^ 16
  map : info.memoryMapPhys < 2 ^ 32
  video : info.video.length = 16
  image : info.systemImage < 2 ^ 32
  size : info.systemImageSize < 2 ^ 32

section

variable {mem mem' : ByteMemory} {address address' : ℕ}

theorem readLe64_of_holds {value : ℕ} (small : value < 2 ^ 32)
    (held : Holds mem address (le32 (UInt32.ofNat value) ++ le32 0)) :
    (readLe32 mem address).toNat + 2 ^ 32 * (readLe32 mem (address + 4)).toNat = value := by
  obtain ⟨low, high⟩ := holds_append.mp held
  rw [holds_le32_iff] at low
  have high_eq : readLe32 mem (address + 4) = 0 := holds_le32_iff.mp high
  rw [low, high_eq, UInt32.toNat_ofNat', Nat.mod_eq_of_lt small]
  rfl

/-- The kernel reads what Stage2 has stored. -/
theorem BootInfo.read_of_stored {info : BootInfo} (narrow : info.Narrow)
    (stored : info.Stored mem address) : BootInfo.read mem address = info := by
  obtain ⟨count, map, video, image, size⟩ := info
  have count_eq : (readLe16 mem address).toNat = count := by
    rw [holds_le16_iff.mp stored.count, UInt16.toNat_ofNat', Nat.mod_eq_of_lt narrow.count]
  have map_eq := readLe64_of_holds narrow.map stored.map
  have image_eq := readLe64_of_holds narrow.image stored.image
  have size_eq : (readLe32 mem (address + 34)).toNat = size := by
    rw [holds_le32_iff.mp stored.size, UInt32.toNat_ofNat', Nat.mod_eq_of_lt narrow.size]
  have video_eq : (List.range 16).map (fun i => mem (address + 10 + i)) = video := by
    have length : video.length = 16 := narrow.video
    refine List.ext_getElem (by rw [List.length_map, List.length_range, length])
      fun i _ inside => ?_
    rw [List.getElem_map, List.getElem_range]
    exact stored.video i inside
  simp only [BootInfo.read, BootInfo.mk.injEq]
  exact ⟨count_eq, map_eq, video_eq, image_eq, size_eq⟩

/-- The boot information depends on its bytes only. -/
theorem BootInfo.read_congr
    (same : ∀ offset < bootInfoSize, mem' (address' + offset) = mem (address + offset)) :
    BootInfo.read mem' address' = BootInfo.read mem address := by
  unfold bootInfoSize at same
  have two : readLe16 mem' address' = readLe16 mem address :=
    readLe16_congr fun offset small => same offset (by omega)
  have four {field : ℕ} (inside : field + 4 ≤ 38) :
      readLe32 mem' (address' + field) = readLe32 mem (address + field) := by
    refine readLe32_congr fun offset small => ?_
    rw [Nat.add_assoc, Nat.add_assoc]
    exact same _ (by omega)
  have video : (List.range 16).map (fun i => mem' (address' + 10 + i)) =
      (List.range 16).map fun i => mem (address + 10 + i) := by
    refine List.map_congr_left fun i member => ?_
    have := List.mem_range.mp member
    rw [Nat.add_assoc, Nat.add_assoc]
    exact same _ (by omega)
  simp only [BootInfo.read, two, video, @four 2 (by decide), @four 6 (by decide),
    @four 26 (by decide), @four 30 (by decide), @four 34 (by decide)]

end

end ItWorksOS
