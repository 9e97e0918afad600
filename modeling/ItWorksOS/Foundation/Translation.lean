import ItWorksOS.Foundation.PagedMemory

/-!
# Accesses through a translation

Addresses are translated through tables that lie in the memory which they give access to, so each
access uses the tables as the accesses before it left them. Where a window of addresses is mapped
directly, accesses that spare the tables are accesses to the memory itself.
-/

/-- The address in memory for an address, if there is any. -/
abbrev Translation := ByteMemory → ℕ → Option ℕ

namespace Translation

variable (translate : Translation)

/-- Read bytes at consecutive addresses. -/
def read (memory : ByteMemory) (address : ℕ) : ℕ → Option (List UInt8)
  | 0 => some []
  | count + 1 =>
      (translate memory address).bind fun source =>
        (read memory (address + 1) count).map (memory source :: ·)

/-- Store one byte at consecutive addresses, in ascending order. -/
def fill (value : UInt8) (address : ℕ) : ℕ → ByteMemory → Option ByteMemory
  | 0, memory => some memory
  | count + 1, memory =>
      (fill value address count memory).bind fun memory =>
        (translate memory (address + count)).map fun target => memory.write8 target value

/-- Copy bytes between consecutive addresses, in ascending order. -/
def copy (dst src : ℕ) : ℕ → ByteMemory → Option ByteMemory
  | 0, memory => some memory
  | count + 1, memory =>
      (copy dst src count memory).bind fun memory =>
        (translate memory (src + count)).bind fun source =>
          (translate memory (dst + count)).map fun target =>
            memory.write8 target (memory source)

/-- Read a word that lies in one page. -/
def read32 (memory : ByteMemory) (address : ℕ) : Option ℕ :=
  (translate memory address).map memory.read32

/-- Store a word that lies in one page. -/
def write32 (memory : ByteMemory) (address value : ℕ) : Option ByteMemory :=
  (translate memory address).map fun target => memory.write32 target value

/-- While the bytes of the tables are as they are, the first `size` bytes of memory lie at
`base`. -/
def Direct (tables : Set ℕ) (base size : ℕ) (memory : ByteMemory) : Prop :=
  ∀ memory', (∀ address ∈ tables, memory' address = memory address) →
    ∀ offset < size, translate memory' (base + offset) = some offset

variable {translate} {tables : Set ℕ} {base size : ℕ} {memory memory' : ByteMemory}

theorem Direct.of_same (direct : Direct translate tables base size memory)
    (same : ∀ address ∈ tables, memory' address = memory address) :
    Direct translate tables base size memory' :=
  fun _ kept => direct _ fun address member => (kept address member).trans (same address member)

/-- The translation as the tables are. -/
theorem Direct.here (direct : Direct translate tables base size memory) {offset : ℕ}
    (inside : offset < size) : translate memory (base + offset) = some offset :=
  direct memory (fun _ _ => rfl) offset inside

theorem Direct.read (direct : Direct translate tables base size memory) {start count : ℕ}
    (inside : start + count ≤ size) :
    translate.read memory (base + start) count =
      some ((List.range count).map fun index => memory (start + index)) := by
  induction count generalizing start with
  | zero => rfl
  | succ count induction =>
      have rest := @induction (start + 1) (by omega)
      have shifted : (List.range count).map (fun index => memory (start + 1 + index)) =
          ((List.range count).map Nat.succ).map fun index => memory (start + index) := by
        rw [List.map_map]
        refine List.map_congr_left fun index _ => congrArg memory ?_
        change start + 1 + index = start + (index + 1)
        omega
      rw [Translation.read, direct.here (by omega), Option.bind_some, Nat.add_assoc, rest,
        Option.map_some, List.range_succ_eq_map, List.map_cons, shifted, Nat.add_zero]

theorem Direct.read32 (direct : Direct translate tables base size memory) {start : ℕ}
    (inside : start < size) :
    translate.read32 memory (base + start) = some (memory.read32 start) := by
  rw [Translation.read32, direct.here inside, Option.map_some]

theorem Direct.write32 (direct : Direct translate tables base size memory) {start : ℕ} (value : ℕ)
    (inside : start < size) :
    translate.write32 memory (base + start) value = some (memory.write32 start value) := by
  rw [Translation.write32, direct.here inside, Option.map_some]

/-- Bytes that are stored outside the tables are stored in the memory itself. -/
theorem Direct.fill (direct : Direct translate tables base size memory) (value : UInt8)
    {start count : ℕ} (inside : start + count ≤ size)
    (spared : ∀ address ∈ tables, address < start ∨ start + count ≤ address) :
    translate.fill value (base + start) count memory = some (memory.fill start value count) := by
  induction count with
  | zero => rfl
  | succ count induction =>
      have before : ∀ address ∈ tables, memory.fill start value count address = memory address := by
        intro address member
        have := spared address member
        rw [ByteMemory.fill_apply, if_neg (by omega)]
      rw [Translation.fill, induction (by omega) fun address member => by
        have := spared address member
        omega]
      rw [Option.bind_some, Nat.add_assoc, (direct.of_same before).here (by omega)]
      rfl

/-- Bytes that are copied to a place outside the tables are copied in the memory itself. -/
theorem Direct.copy (direct : Direct translate tables base size memory) {dst src count : ℕ}
    (source : src + count ≤ size) (target : dst + count ≤ size)
    (spared : ∀ address ∈ tables, address < dst ∨ dst + count ≤ address)
    (apart : src + count ≤ dst ∨ dst + count ≤ src) :
    ∃ after, translate.copy (base + dst) (base + src) count memory = some after ∧
      (∀ index < count, after (dst + index) = memory (src + index)) ∧
      ∀ address, address < dst ∨ dst + count ≤ address → after address = memory address := by
  induction count with
  | zero => exact ⟨memory, rfl, fun index small => absurd small (Nat.not_lt_zero _), fun _ _ => rfl⟩
  | succ count induction =>
      obtain ⟨before, ran, copied, kept⟩ := induction (by omega) (by omega)
        (fun address member => by
          have := spared address member
          omega) (by omega)
      have direct' : Direct translate tables base size before :=
          direct.of_same fun address member =>
        kept address (by
          have := spared address member
          omega)
      refine ⟨before.write8 (dst + count) (before (src + count)), ?_, fun index small => ?_,
        fun address outside => ?_⟩
      · rw [Translation.copy, ran, Option.bind_some, Nat.add_assoc, direct'.here (by omega),
          Option.bind_some, Nat.add_assoc, direct'.here (by omega), Option.map_some]
      · rw [ByteMemory.write8]
        by_cases last : index = count
        · subst last
          rw [Function.update_self]
          exact kept _ (by omega)
        · rw [Function.update_of_ne (by omega)]
          exact copied index (by omega)
      · rw [ByteMemory.write8, Function.update_of_ne (by omega)]
        exact kept address (by omega)

/-- Stores go on where the ones before have stopped. -/
theorem fill_add (translate : Translation) (value : UInt8) (address first second : ℕ)
    (memory : ByteMemory) :
    translate.fill value address (first + second) memory =
      (translate.fill value address first memory).bind
        (translate.fill value (address + first) second) := by
  induction second with
  | zero =>
      rw [Nat.add_zero]
      exact (Option.bind_fun_some _).symm
  | succ second induction =>
      rw [Nat.add_succ, Translation.fill, induction, Option.bind_assoc]
      refine Option.bind_congr fun before _ => ?_
      rw [Translation.fill, Nat.add_assoc]

/-- Without a translation nothing is stored. -/
theorem fill_eq_none {value : UInt8} {address count : ℕ}
    (missing : translate memory address = none) :
    translate.fill value address (count + 1) memory = none := by
  rw [Nat.add_comm, fill_add, Translation.fill, Translation.fill, Option.bind_some, Nat.add_zero,
    missing, Option.map_none, Option.bind_none]

end Translation
