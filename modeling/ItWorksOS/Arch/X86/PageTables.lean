import ItWorksOS.Arch.X86.Mm

/-!
# Structure of the page tables

Page directories and page tables are frames of physical memory. A state is well formed when every
such frame belongs to one directory slot, is marked in the PMM, and all directories share the
kernel tables. The view of an address space is the entry that its tables hold for each address.
-/

namespace ItWorksOS

/-! ## Entries -/

/-- Bit 0 of a directory or table entry. -/
def EntryPresent (word : ℕ) : Prop := word % 2 = 1

instance (word : ℕ) : Decidable (EntryPresent word) := inferInstanceAs (Decidable (word % 2 = 1))

theorem and_present (word : ℕ) : word &&& x86Present = 0 ↔ ¬ EntryPresent word := by
  rw [Nat.and_one_is_mod, EntryPresent]
  omega

theorem and_pageMask (word : ℕ) : word &&& x86PageMask = word % 2 ^ 32 / 4096 * 4096 := by
  have field := PackedWord.and_field word 20 12
  rw [show (2 ^ 20 - 1) * 2 ^ 12 = x86PageMask from rfl] at field
  rw [field]
  omega

theorem and_pdePageSize (word : ℕ) : word &&& x86PdePageSize = 0 ↔ word / 128 % 2 = 0 :=
  PackedWord.and_bit_eq_zero word 7

theorem or_entryFlags (frame : ℕ) {flags : ℕ} (small : flags < 4096) :
    frame * 4096 ||| flags = frame * 4096 + flags := by
  have joined := PackedWord.or_flags frame (show flags < 2 ^ 12 from small)
  exact joined

theorem x86VmFlagsToPte_eq (flags : ℕ) :
    x86VmFlagsToPte flags = 1 + 2 * (flags / 2 % 2) + 4 * (flags / 8 % 2) := by
  have write_bit := PackedWord.and_bit_eq_zero flags 1
  have user_bit := PackedWord.and_bit_eq_zero flags 3
  unfold x86VmFlagsToPte
  by_cases write : flags &&& vmWrite = 0 <;> by_cases user : flags &&& vmUser = 0
  all_goals
    simp only [write, user, ne_eq, not_true_eq_false, not_false_eq_true, if_true, if_false]
    simp only [vmWrite, vmUser] at write user
    simp only [Nat.reducePow, write, user, true_iff, false_iff] at write_bit user_bit
    simp only [x86Present, x86Writable, x86User, Nat.reduceOr]
    omega

theorem x86VmFlagsToPde_cases (flags : ℕ) :
    x86VmFlagsToPde flags = 3 ∨ x86VmFlagsToPde flags = 7 := by
  unfold x86VmFlagsToPde
  split
  · exact Or.inr rfl
  · exact Or.inl rfl

theorem pdeIndex_eq (va : ℕ) : pdeIndex va = va / 2 ^ 22 := Nat.shiftRight_eq_div_pow _ _

theorem pteIndex_eq (va : ℕ) : pteIndex va = va / 4096 % 1024 := by
  rw [pteIndex, Nat.shiftRight_eq_div_pow, show (0x3FF : ℕ) = 2 ^ 10 - 1 from rfl,
    Nat.and_two_pow_sub_one_eq_mod]

/-! ## Slots and ownership -/

/-- The directory or table frame of an address space. -/
inductive TableSlot where
  /-- The page directory in a frame. -/
  | directory (dir : ℕ)
  /-- The page table that an entry of a directory refers to. -/
  | table (dir index : ℕ)
  deriving DecidableEq

/-- The frame behind a slot. -/
def TableSlot.frame (machine : Machine) : TableSlot → ℕ
  | .directory dir => dir
  | .table dir index => machine.mem.word dir index / 4096

/-- The entry of an address space for an address, or zero when it has no page table. -/
def pteWord (machine : Machine) (dir va : ℕ) : ℕ :=
  let pde := machine.mem.word dir (va / 2 ^ 22)
  if EntryPresent pde then machine.mem.word (pde / 4096) (va / 4096 % 1024) else 0

section Ownership

variable (kernelDir : ℕ) (dirs : List ℕ)

/-- Slots in use: all directories, the user tables of the address spaces and the kernel tables of
the kernel directory. -/
def Owned (machine : Machine) : TableSlot → Prop
  | .directory dir => dir ∈ kernelDir :: dirs
  | .table dir index => EntryPresent (machine.mem.word dir index) ∧
      (dir ∈ dirs ∧ index < 768 ∨ dir = kernelDir ∧ 768 ≤ index ∧ index < 1024)

/-- Well-formed page tables of the kernel and of the live address spaces. -/
structure PageTables (machine : Machine) : Prop where
  nodup : (kernelDir :: dirs).Nodup
  total_lt : machine.pmm.totalFrames < 2 ^ 32
  placed : ∀ slot, Owned kernelDir dirs machine slot → slot.frame machine < 196608 ∧
    slot.frame machine < machine.pmm.totalFrames ∧ machine.pmm.Marked (slot.frame machine)
  injective : ∀ left right, Owned kernelDir dirs machine left →
    Owned kernelDir dirs machine right → left.frame machine = right.frame machine → left = right
  small : ∀ dir ∈ kernelDir :: dirs, ∀ index < 1024, EntryPresent (machine.mem.word dir index) →
    machine.mem.word dir index / 128 % 2 = 0
  kernelOnly : ∀ index < 768, ¬ EntryPresent (machine.mem.word kernelDir index)
  shared : ∀ dir ∈ dirs, ∀ index, 768 ≤ index → index < 1024 →
    machine.mem.word dir index = machine.mem.word kernelDir index

/-- All kernel entries of the kernel directory refer to page tables. -/
def KernelReady (machine : Machine) : Prop :=
  ∀ index, 768 ≤ index → index < 1024 → EntryPresent (machine.mem.word kernelDir index)

/-- A marked frame that is no directory or page table. -/
def Residue (machine : Machine) (frame : ℕ) : Prop :=
  machine.pmm.Marked frame ∧ ∀ slot, Owned kernelDir dirs machine slot → slot.frame machine ≠ frame

end Ownership

namespace PageTables

variable {kernelDir dir dir' index index' va : ℕ} {dirs : List ℕ} {machine machine' : Machine}

theorem dir_owned (member : dir ∈ kernelDir :: dirs) :
    Owned kernelDir dirs machine (.directory dir) := member

/-- The slot that owns the table of an entry: kernel tables belong to the kernel directory. -/
def canonical (kernelDir dir index : ℕ) : TableSlot :=
  .table (if index < 768 then dir else kernelDir) index

/-- A present entry refers to the table of an owned slot. -/
theorem canonical_owned (tables : PageTables kernelDir dirs machine)
    (member : dir ∈ kernelDir :: dirs) (index_lt : index < 1024)
    (present : EntryPresent (machine.mem.word dir index)) :
    Owned kernelDir dirs machine (canonical kernelDir dir index) ∧
      (canonical kernelDir dir index).frame machine = machine.mem.word dir index / 4096 := by
  by_cases user : index < 768
  · have dir_mem : dir ∈ dirs := by
      rcases List.mem_cons.mp member with rfl | dir_mem
      · exact absurd present (tables.kernelOnly index user)
      · exact dir_mem
    rw [canonical, if_pos user]
    exact ⟨⟨present, Or.inl ⟨dir_mem, user⟩⟩, rfl⟩
  · have same : machine.mem.word dir index = machine.mem.word kernelDir index := by
      rcases List.mem_cons.mp member with rfl | dir_mem
      · rfl
      · exact tables.shared dir dir_mem index (by omega) index_lt
    rw [canonical, if_neg user]
    refine ⟨⟨same ▸ present, Or.inr ⟨rfl, by omega, index_lt⟩⟩, ?_⟩
    rw [TableSlot.frame, same]

/-- A page table is no directory. -/
theorem table_ne_dir (tables : PageTables kernelDir dirs machine)
    (member : dir ∈ kernelDir :: dirs) (index_lt : index < 1024)
    (present : EntryPresent (machine.mem.word dir index))
    (member' : dir' ∈ kernelDir :: dirs) : machine.mem.word dir index / 4096 ≠ dir' := by
  intro same
  obtain ⟨owned, frame_eq⟩ := tables.canonical_owned member index_lt present
  have slots := tables.injective _ (.directory dir') owned member' (frame_eq.trans same)
  simp [canonical] at slots

/-- Two present entries refer to one table only for one address range of one space, or for the
shared kernel half. -/
theorem table_eq_iff (tables : PageTables kernelDir dirs machine)
    (member : dir ∈ kernelDir :: dirs) (member' : dir' ∈ kernelDir :: dirs)
    (index_lt : index < 1024) (index_lt' : index' < 1024)
    (present : EntryPresent (machine.mem.word dir index))
    (present' : EntryPresent (machine.mem.word dir' index')) :
    machine.mem.word dir' index' / 4096 = machine.mem.word dir index / 4096 ↔
      index' = index ∧ (dir' = dir ∨ 768 ≤ index) := by
  obtain ⟨owned, frame_eq⟩ := tables.canonical_owned member index_lt present
  obtain ⟨owned', frame_eq'⟩ := tables.canonical_owned member' index_lt' present'
  constructor
  · intro same
    have slots := tables.injective _ _ owned' owned (frame_eq'.trans (same.trans frame_eq.symm))
    simp only [canonical, TableSlot.table.injEq] at slots
    obtain ⟨owner_eq, rfl⟩ := slots
    refine ⟨rfl, ?_⟩
    by_cases user : index' < 768
    · simp only [user, if_true] at owner_eq
      exact Or.inl owner_eq
    · exact Or.inr (by omega)
  · rintro ⟨rfl, rfl | kernel⟩
    · rfl
    · have slots : canonical kernelDir dir' index' = canonical kernelDir dir index' := by
        simp [canonical, Nat.not_lt.mpr kernel]
      rw [← frame_eq, ← frame_eq', slots]

/-- Words of the directories decide which slots are owned and where they are. -/
private theorem owned_congr
    (words : ∀ dir ∈ kernelDir :: dirs, ∀ index < 1024,
      machine'.mem.word dir index = machine.mem.word dir index) (slot : TableSlot) :
    (Owned kernelDir dirs machine' slot ↔ Owned kernelDir dirs machine slot) ∧
      (Owned kernelDir dirs machine slot → slot.frame machine' = slot.frame machine) := by
  cases slot with
  | directory dir => exact ⟨Iff.rfl, fun _ => rfl⟩
  | table dir index =>
      have word_eq (place : dir ∈ dirs ∧ index < 768 ∨
          dir = kernelDir ∧ 768 ≤ index ∧ index < 1024) :
          machine'.mem.word dir index = machine.mem.word dir index := by
        rcases place with ⟨dir_mem, user⟩ | ⟨rfl, _, index_lt⟩
        · exact words dir (by simp [dir_mem]) index (by omega)
        · exact words dir (by simp) index index_lt
      constructor
      · simp only [Owned]
        constructor
        · rintro ⟨present, place⟩
          exact ⟨word_eq place ▸ present, place⟩
        · rintro ⟨present, place⟩
          exact ⟨(word_eq place).symm ▸ present, place⟩
      · rintro ⟨_, place⟩
        simp only [TableSlot.frame, word_eq place]

/-- The structure only depends on the words of the directories and on the marks of owned
frames. -/
theorem congr (tables : PageTables kernelDir dirs machine)
    (words : ∀ dir ∈ kernelDir :: dirs, ∀ index < 1024,
      machine'.mem.word dir index = machine.mem.word dir index)
    (total : machine'.pmm.totalFrames = machine.pmm.totalFrames)
    (marked : ∀ slot, Owned kernelDir dirs machine slot →
      machine'.pmm.Marked (slot.frame machine)) : PageTables kernelDir dirs machine' := by
  have owned (slot : TableSlot) := owned_congr words slot
  refine ⟨tables.nodup, total ▸ tables.total_lt, ?_, ?_, ?_, ?_, ?_⟩
  · intro slot slot_owned
    have before := (owned slot).1.mp slot_owned
    rw [(owned slot).2 before, total]
    exact ⟨(tables.placed slot before).1, (tables.placed slot before).2.1, marked slot before⟩
  · intro left right left_owned right_owned same
    have left_before := (owned left).1.mp left_owned
    have right_before := (owned right).1.mp right_owned
    rw [(owned left).2 left_before, (owned right).2 right_before] at same
    exact tables.injective left right left_before right_before same
  · intro dir member index index_lt present
    rw [words dir member index index_lt] at present ⊢
    exact tables.small dir member index index_lt present
  · intro index user present
    rw [words kernelDir (by simp) index (by omega)] at present
    exact tables.kernelOnly index user present
  · intro dir member index kernel index_lt
    rw [words dir (by simp [member]) index index_lt, words kernelDir (by simp) index index_lt]
    exact tables.shared dir member index kernel index_lt

/-- Frames outside the tables are the same when the directories are. -/
theorem residue_congr
    (words : ∀ dir ∈ kernelDir :: dirs, ∀ index < 1024,
      machine'.mem.word dir index = machine.mem.word dir index) (frame : ℕ)
    (marked : machine'.pmm.Marked frame ↔ machine.pmm.Marked frame) :
    Residue kernelDir dirs machine' frame ↔ Residue kernelDir dirs machine frame := by
  have owned (slot : TableSlot) := owned_congr words slot
  simp only [Residue, marked]
  refine and_congr_right fun _ => ⟨fun free slot slot_owned => ?_, fun free slot slot_owned => ?_⟩
  · rw [← (owned slot).2 slot_owned]
    exact free slot ((owned slot).1.mpr slot_owned)
  · have before := (owned slot).1.mp slot_owned
    rw [(owned slot).2 before]
    exact free slot before

end PageTables

/-! ## Rewriting entries -/

/-- An operation on a directory: the tables stay well formed, nothing else is touched, and the
entries of the selected pages are replaced. Pages are pairs of a directory and an address, and only
user entries of the directory itself may receive a table. -/
structure Rewritten (kernelDir : ℕ) (dirs : List ℕ) (dir : ℕ) (machine machine' : Machine)
    (changed : Set (ℕ × ℕ)) (word : ℕ → ℕ) : Prop where
  tables : PageTables kernelDir dirs machine'
  ready : KernelReady kernelDir machine'
  total : machine'.pmm.totalFrames = machine.pmm.totalFrames
  residue : ∀ frame, Residue kernelDir dirs machine' frame ↔ Residue kernelDir dirs machine frame
  bytes : ∀ frame, Residue kernelDir dirs machine frame →
    ByteMemory.AgreeOn machine.mem machine'.mem frame
  entries : ∀ dir' ∈ kernelDir :: dirs, ∀ index < 1024, (dir' = dir → 768 ≤ index) →
    machine'.mem.word dir' index = machine.mem.word dir' index
  replaced : ∀ dir ∈ kernelDir :: dirs, ∀ va < 2 ^ 32, (dir, va) ∈ changed →
    pteWord machine' dir va = word va
  kept : ∀ dir ∈ kernelDir :: dirs, ∀ va < 2 ^ 32, (dir, va) ∉ changed →
    pteWord machine' dir va = pteWord machine dir va

/-- The addresses that share a page table entry with an address of a directory: the page itself, in
every directory when it lies in the kernel half. -/
def pageOf (dir va : ℕ) : Set (ℕ × ℕ) :=
  {page | page.2 / 4096 = va / 4096 ∧ (page.1 = dir ∨ kernelVirtOffset ≤ va)}

namespace Rewritten

variable {kernelDir dir : ℕ} {dirs : List ℕ} {machine machine' machine'' : Machine}
  {changed changed' : Set (ℕ × ℕ)} {word word' : ℕ → ℕ}

theorem refl (tables : PageTables kernelDir dirs machine) (ready : KernelReady kernelDir machine) :
    Rewritten kernelDir dirs dir machine machine ∅ word :=
  ⟨tables, ready, rfl, fun _ => Iff.rfl, fun _ _ _ _ => rfl, fun _ _ _ _ _ => rfl, by simp,
    fun _ _ _ _ _ => rfl⟩

/-- Two rewrites in a row, where the later one wins. -/
theorem trans (first : Rewritten kernelDir dirs dir machine machine' changed word)
    (second : Rewritten kernelDir dirs dir machine' machine'' changed' word')
    (agree : ∀ page ∈ changed', word' page.2 = word page.2) :
    Rewritten kernelDir dirs dir machine machine'' (changed ∪ changed') word := by
  refine ⟨second.tables, second.ready, second.total.trans first.total,
    fun frame => (second.residue frame).trans (first.residue frame), ?_, ?_, ?_, ?_⟩
  · intro frame residue
    exact (first.bytes frame residue).trans
      (second.bytes frame ((first.residue frame).mpr residue))
  · intro dir' member index index_lt shielded
    rw [second.entries dir' member index index_lt shielded,
      first.entries dir' member index index_lt shielded]
  · intro dir member va va_lt page_mem
    by_cases later : (dir, va) ∈ changed'
    · rw [second.replaced dir member va va_lt later]
      exact agree _ later
    · rw [second.kept dir member va va_lt later]
      exact first.replaced dir member va va_lt (page_mem.resolve_right later)
  · intro dir member va va_lt page_not_mem
    simp only [Set.mem_union, not_or] at page_not_mem
    rw [second.kept dir member va va_lt page_not_mem.2,
      first.kept dir member va va_lt page_not_mem.1]

/-- Only the selected pages and their words matter. -/
theorem mono (rewritten : Rewritten kernelDir dirs dir machine machine' changed word)
    (pages : ∀ dir ∈ kernelDir :: dirs, ∀ va < 2 ^ 32, (dir, va) ∈ changed ↔ (dir, va) ∈ changed')
    (words : ∀ dir ∈ kernelDir :: dirs, ∀ va < 2 ^ 32, (dir, va) ∈ changed → word va = word' va) :
    Rewritten kernelDir dirs dir machine machine' changed' word' := by
  refine ⟨rewritten.tables, rewritten.ready, rewritten.total, rewritten.residue, rewritten.bytes,
    rewritten.entries, ?_, ?_⟩
  · intro dir member va va_lt page_mem
    have selected := (pages dir member va va_lt).mpr page_mem
    rw [rewritten.replaced dir member va va_lt selected, words dir member va va_lt selected]
  · intro dir member va va_lt page_not_mem
    exact rewritten.kept dir member va va_lt fun selected =>
      page_not_mem ((pages dir member va va_lt).mp selected)

end Rewritten

/-- The part of a rewrite that does not depend on the pages: the tables stay well formed and frames
that are no tables keep their marks and bytes. -/
structure TablesKept (kernelDir : ℕ) (dirs : List ℕ) (machine machine' : Machine) : Prop where
  tables : PageTables kernelDir dirs machine'
  ready : KernelReady kernelDir machine'
  total : machine'.pmm.totalFrames = machine.pmm.totalFrames
  residue : ∀ frame, Residue kernelDir dirs machine' frame ↔ Residue kernelDir dirs machine frame
  bytes : ∀ frame, Residue kernelDir dirs machine frame →
    ByteMemory.AgreeOn machine.mem machine'.mem frame

section Kept

variable {kernelDir dir : ℕ} {dirs : List ℕ} {machine machine' machine'' : Machine}
  {changed : Set (ℕ × ℕ)} {word : ℕ → ℕ}

theorem Rewritten.tablesKept
    (rewritten : Rewritten kernelDir dirs dir machine machine' changed word) :
    TablesKept kernelDir dirs machine machine' :=
  ⟨rewritten.tables, rewritten.ready, rewritten.total, rewritten.residue, rewritten.bytes⟩

theorem TablesKept.refl (tables : PageTables kernelDir dirs machine)
    (ready : KernelReady kernelDir machine) : TablesKept kernelDir dirs machine machine :=
  ⟨tables, ready, rfl, fun _ => Iff.rfl, fun _ _ _ _ => rfl⟩

theorem TablesKept.trans (first : TablesKept kernelDir dirs machine machine')
    (second : TablesKept kernelDir dirs machine' machine'') :
    TablesKept kernelDir dirs machine machine'' :=
  ⟨second.tables, second.ready, second.total.trans first.total,
    fun frame => (second.residue frame).trans (first.residue frame),
    fun frame residue => (first.bytes frame residue).trans
      (second.bytes frame ((first.residue frame).mpr residue))⟩

end Kept

/-- Directory entries that refer to tables in use are the same on two machines. -/
def SameTables (kernelDir : ℕ) (dirs : List ℕ) (machine machine' : Machine) : Prop :=
  (∀ dir ∈ dirs, ∀ index < 768, machine'.mem.word dir index = machine.mem.word dir index) ∧
    ∀ index, 768 ≤ index → index < 1024 →
      machine'.mem.word kernelDir index = machine.mem.word kernelDir index

theorem SameTables.refl (kernelDir : ℕ) (dirs : List ℕ) (machine : Machine) :
    SameTables kernelDir dirs machine machine := ⟨fun _ _ _ _ => rfl, fun _ _ _ => rfl⟩

theorem SameTables.trans {kernelDir : ℕ} {dirs : List ℕ} {machine machine' machine'' : Machine}
    (first : SameTables kernelDir dirs machine machine')
    (second : SameTables kernelDir dirs machine' machine'') :
    SameTables kernelDir dirs machine machine'' := by
  refine ⟨fun dir member index user => ?_, fun index kernel index_lt => ?_⟩
  · rw [second.1 dir member index user, first.1 dir member index user]
  · rw [second.2 index kernel index_lt, first.2 index kernel index_lt]

section Same

variable {kernelDir dir : ℕ} {dirs others : List ℕ} {machine machine' : Machine}
  {changed : Set (ℕ × ℕ)} {word : ℕ → ℕ}

/-- An operation on one directory leaves the tables of the others. -/
theorem Rewritten.sameTables
    (rewritten : Rewritten kernelDir dirs dir machine machine' changed word)
    (sub : ∀ other ∈ others, other ∈ dirs) (spared : dir ∉ others) :
    SameTables kernelDir others machine machine' := by
  constructor
  · intro other member index user
    refine rewritten.entries other (List.mem_cons_of_mem _ (sub other member)) index (by omega) ?_
    rintro rfl
    exact absurd member spared
  · intro index kernel index_lt
    exact rewritten.entries kernelDir (List.mem_cons_self ..) index index_lt fun _ => kernel

/-- A frame is marked when it is a table in use or marked for another reason. -/
theorem PageTables.marked_iff (tables : PageTables kernelDir dirs machine) (frame : ℕ) :
    machine.pmm.Marked frame ↔ Residue kernelDir dirs machine frame ∨
      ∃ slot, Owned kernelDir dirs machine slot ∧ slot.frame machine = frame := by
  constructor
  · intro marked
    by_cases used : ∃ slot, Owned kernelDir dirs machine slot ∧ slot.frame machine = frame
    · exact Or.inr used
    · exact Or.inl ⟨marked, fun slot owned same => used ⟨slot, owned, same⟩⟩
  · rintro (⟨marked, _⟩ | ⟨slot, owned, rfl⟩)
    · exact marked
    · exact (tables.placed slot owned).2.2

/-- The frames in use depend on the entries in use only. -/
theorem SameTables.owned_iff (same : SameTables kernelDir dirs machine machine') (frame : ℕ) :
    (∃ slot, Owned kernelDir dirs machine' slot ∧ slot.frame machine' = frame) ↔
      ∃ slot, Owned kernelDir dirs machine slot ∧ slot.frame machine = frame := by
  refine exists_congr fun slot => ?_
  cases slot with
  | directory dir => exact Iff.rfl
  | table dir index =>
      have word_eq
          (place : dir ∈ dirs ∧ index < 768 ∨ dir = kernelDir ∧ 768 ≤ index ∧ index < 1024) :
          machine'.mem.word dir index = machine.mem.word dir index := by
        rcases place with ⟨member, user⟩ | ⟨rfl, kernel, index_lt⟩
        · exact same.1 dir member index user
        · exact same.2 index kernel index_lt
      simp only [Owned, TableSlot.frame]
      constructor
      · rintro ⟨⟨present, place⟩, frame_eq⟩
        rw [word_eq place] at present frame_eq
        exact ⟨⟨present, place⟩, frame_eq⟩
      · rintro ⟨⟨present, place⟩, frame_eq⟩
        rw [← word_eq place] at present frame_eq
        exact ⟨⟨present, place⟩, frame_eq⟩

/-- With the same tables in use, the marks differ only outside the tables. -/
theorem SameTables.marked_iff (same : SameTables kernelDir dirs machine machine')
    (tables : PageTables kernelDir dirs machine) (tables' : PageTables kernelDir dirs machine')
    (residue : ∀ frame, Residue kernelDir dirs machine' frame ↔
      Residue kernelDir dirs machine frame)
    (frame : ℕ) : machine'.pmm.Marked frame ↔ machine.pmm.Marked frame := by
  rw [tables.marked_iff, tables'.marked_iff, residue, same.owned_iff]

end Same

section Writes

variable {kernelDir dir index va value frame flags : ℕ} {dirs : List ℕ} {machine : Machine}

/-- Overwriting a page table entry changes no directory. -/
theorem word_setPte (tables : PageTables kernelDir dirs machine)
    (member : dir ∈ kernelDir :: dirs) (va_lt : va < 2 ^ 32)
    (present : EntryPresent (machine.mem.word dir (va / 2 ^ 22))) (value_lt : value < 2 ^ 32)
    {dir' index' : ℕ} (member' : dir' ∈ kernelDir :: dirs) (index_lt' : index' < 1024) :
    (machine.mem.setWord (machine.mem.word dir (va / 2 ^ 22) / 4096) (va / 4096 % 1024)
      value).word dir' index' = machine.mem.word dir' index' := by
  rw [ByteMemory.word_setWord (Nat.mod_lt _ (by decide)) index_lt' value_lt, if_neg]
  rintro ⟨same, _⟩
  exact tables.table_ne_dir member (by omega) present member' same.symm

/-- Overwriting a page table entry changes one page. -/
theorem rewritten_setPte (tables : PageTables kernelDir dirs machine)
    (ready : KernelReady kernelDir machine) (member : dir ∈ kernelDir :: dirs)
    (va_lt : va < 2 ^ 32) (present : EntryPresent (machine.mem.word dir (va / 2 ^ 22)))
    (value_lt : value < 2 ^ 32) :
    Rewritten kernelDir dirs dir machine
      { machine with
        mem := machine.mem.setWord (machine.mem.word dir (va / 2 ^ 22) / 4096) (va / 4096 % 1024)
          value }
      (pageOf dir va) fun _ => value := by
  have index_lt : va / 2 ^ 22 < 1024 := by omega
  have slot_lt : va / 4096 % 1024 < 1024 := Nat.mod_lt _ (by decide)
  have words : ∀ dir' ∈ kernelDir :: dirs, ∀ index' < 1024,
      (machine.mem.setWord (machine.mem.word dir (va / 2 ^ 22) / 4096) (va / 4096 % 1024)
        value).word dir' index' = machine.mem.word dir' index' :=
    fun dir' member' index' index_lt' =>
      word_setPte tables member va_lt present value_lt member' index_lt'
  -- An entry is overwritten exactly when its table and its index are the selected ones.
  have entry (dir' : ℕ) (member' : dir' ∈ kernelDir :: dirs) (va' : ℕ) (va_lt' : va' < 2 ^ 32) :
      pteWord { machine with
        mem := machine.mem.setWord (machine.mem.word dir (va / 2 ^ 22) / 4096)
          (va / 4096 % 1024) value } dir' va' =
        if EntryPresent (machine.mem.word dir' (va' / 2 ^ 22)) ∧
          (va' / 2 ^ 22 = va / 2 ^ 22 ∧ (dir' = dir ∨ 768 ≤ va / 2 ^ 22)) ∧
          va' / 4096 % 1024 = va / 4096 % 1024 then value else pteWord machine dir' va' := by
    have index_lt' : va' / 2 ^ 22 < 1024 := by omega
    simp only [pteWord, words dir' member' _ index_lt']
    by_cases present' : EntryPresent (machine.mem.word dir' (va' / 2 ^ 22))
    · rw [if_pos present', if_pos present', ByteMemory.word_setWord slot_lt
        (Nat.mod_lt _ (by decide)) value_lt]
      simp only [tables.table_eq_iff member member' index_lt index_lt' present present', present',
        true_and]
    · simp only [present', false_and, if_false]
  have page_iff (dir' va' : ℕ) : (dir', va') ∈ pageOf dir va ↔
      (va' / 2 ^ 22 = va / 2 ^ 22 ∧ (dir' = dir ∨ 768 ≤ va / 2 ^ 22)) ∧
        va' / 4096 % 1024 = va / 4096 % 1024 := by
    simp only [pageOf, Set.mem_ofPred_eq, kernelVirtOffset]
    omega
  refine ⟨?_, ?_, rfl, ?_, ?_, ?_, ?_, ?_⟩
  · exact tables.congr words rfl fun slot owned => (tables.placed slot owned).2.2
  · intro index kernel index_lt'
    rw [words kernelDir (by simp) index index_lt']
    exact ready index kernel index_lt'
  · intro frame
    refine PageTables.residue_congr ?_ frame Iff.rfl
    exact words
  · intro frame residue
    obtain ⟨owned, frame_eq⟩ := tables.canonical_owned member index_lt present
    exact ByteMemory.setWord_agreeOn slot_lt
      fun same => residue.2 _ owned (frame_eq.trans same.symm)
  · exact fun dir' member' index' index_lt' _ => words dir' member' index' index_lt'
  · intro dir' member' va' va_lt' page_mem
    have selected := (page_iff dir' va').mp page_mem
    have present' : EntryPresent (machine.mem.word dir' (va' / 2 ^ 22)) := by
      rw [selected.1.1]
      rcases selected.1.2 with rfl | kernel
      · exact present
      · rcases List.mem_cons.mp member' with rfl | dir_mem
        · exact ready _ kernel index_lt
        · rw [tables.shared dir' dir_mem _ kernel index_lt]
          exact ready _ kernel index_lt
    rw [entry dir' member' va' va_lt', if_pos ⟨present', selected⟩]
  · intro dir' member' va' va_lt' page_not_mem
    rw [entry dir' member' va' va_lt', if_neg]
    exact fun selected => page_not_mem ((page_iff dir' va').mpr selected.2)

/-- A fresh frame becomes the empty page table of a directory entry. -/
def installTable (machine : Machine) (dir index frame flags : ℕ) : Machine where
  mem := (memset machine.mem (frame * 4096) 0 x86PageSize).setWord dir index (frame * 4096 + flags)
  pmm := pmmMark machine.pmm frame 1

/-- Entries that may receive a table: user entries of an address space, and kernel entries while
there is no address space yet. -/
def Installable (kernelDir : ℕ) (dirs : List ℕ) (dir index : ℕ) : Prop :=
  dir ∈ dirs ∧ index < 768 ∨ dir = kernelDir ∧ dirs = [] ∧ 768 ≤ index ∧ index < 1024

theorem Installable.bounds (place : Installable kernelDir dirs dir index) :
    dir ∈ kernelDir :: dirs ∧ index < 1024 := by
  rcases place with ⟨dir_mem, user⟩ | ⟨rfl, _, _, index_lt⟩
  · exact ⟨by simp [dir_mem], by omega⟩
  · exact ⟨by simp, index_lt⟩

/-- A frame that a LowMem allocation of one page may return. -/
structure FreshFrame (machine : Machine) (frame : ℕ) : Prop where
  lowmem : frame < 196608
  below : frame < machine.pmm.totalFrames
  free : ¬ machine.pmm.Marked frame

theorem FreshFrame.ne_frame (fresh : FreshFrame machine frame)
    (tables : PageTables kernelDir dirs machine) {slot : TableSlot}
    (owned : Owned kernelDir dirs machine slot) : slot.frame machine ≠ frame := by
  rintro rfl
  exact fresh.free (tables.placed slot owned).2.2

section Install

variable (tables : PageTables kernelDir dirs machine) (fresh : FreshFrame machine frame)
  (place : Installable kernelDir dirs dir index)
  (absent : ¬ EntryPresent (machine.mem.word dir index)) (flags_eq : flags = 3 ∨ flags = 7)
include tables fresh place flags_eq

/-- Installing a table changes one directory entry. -/
theorem word_installTable {dir' index' : ℕ} (member' : dir' ∈ kernelDir :: dirs)
    (index_lt' : index' < 1024) :
    (installTable machine dir index frame flags).mem.word dir' index' =
      if dir' = dir ∧ index' = index then frame * 4096 + flags
      else machine.mem.word dir' index' := by
  obtain ⟨_, index_lt⟩ := place.bounds
  have lowmem := fresh.lowmem
  have apart : dir' ≠ frame := fresh.ne_frame tables (PageTables.dir_owned member')
  rw [installTable, ByteMemory.word_setWord index_lt index_lt' (by omega)]
  split
  · rfl
  · exact (ByteMemory.fill_agreeOn 0 apart).word_eq index_lt'

private theorem install_owned {slot : TableSlot} :
    Owned kernelDir dirs (installTable machine dir index frame flags) slot ↔
      Owned kernelDir dirs machine slot ∨ slot = .table dir index := by
  obtain ⟨dir_mem, index_lt⟩ := place.bounds
  cases slot with
  | directory dir' => simp [Owned]
  | table dir' index' =>
      simp only [Owned, TableSlot.table.injEq]
      constructor
      · rintro ⟨present, placed⟩
        by_cases same : dir' = dir ∧ index' = index
        · exact Or.inr same
        · rw [word_installTable tables fresh place flags_eq
            (by rcases placed with ⟨dir_mem, _⟩ | ⟨rfl, _⟩ <;> simp [*]) (by omega),
            if_neg same] at present
          exact Or.inl ⟨present, placed⟩
      · rintro (⟨present, placed⟩ | ⟨rfl, rfl⟩)
        · rw [word_installTable tables fresh place flags_eq
            (by rcases placed with ⟨dir_mem, _⟩ | ⟨rfl, _⟩ <;> simp [*]) (by omega)]
          refine ⟨?_, placed⟩
          split
          · unfold EntryPresent
            omega
          · exact present
        · rw [word_installTable tables fresh place flags_eq dir_mem index_lt, if_pos ⟨rfl, rfl⟩]
          refine ⟨by unfold EntryPresent; omega, ?_⟩
          rcases place with placed | ⟨rfl, _, kernel⟩
          · exact Or.inl placed
          · exact Or.inr ⟨rfl, kernel⟩

include absent

private theorem install_frame {slot : TableSlot} (owned : Owned kernelDir dirs machine slot) :
    slot.frame (installTable machine dir index frame flags) = slot.frame machine := by
  cases slot with
  | directory dir' => rfl
  | table dir' index' =>
      obtain ⟨present, placed⟩ := owned
      simp only [TableSlot.frame]
      rw [word_installTable tables fresh place flags_eq
        (by rcases placed with ⟨dir_mem, _⟩ | ⟨rfl, _⟩ <;> simp [*]) (by omega), if_neg]
      rintro ⟨rfl, rfl⟩
      exact absent present

omit absent in
private theorem install_new_frame :
    (TableSlot.table dir index).frame (installTable machine dir index frame flags) = frame := by
  obtain ⟨dir_mem, index_lt⟩ := place.bounds
  simp only [TableSlot.frame]
  rw [word_installTable tables fresh place flags_eq dir_mem index_lt, if_pos ⟨rfl, rfl⟩]
  omega

/-- Installing a table keeps the structure. -/
theorem pageTables_installTable :
    PageTables kernelDir dirs (installTable machine dir index frame flags) := by
  have words {dir' index' : ℕ} :=
    @word_installTable kernelDir dir index frame flags dirs machine tables
    fresh place flags_eq dir' index'
  have old_frame {slot : TableSlot} := @install_frame kernelDir dir index frame flags dirs machine
    tables fresh place absent flags_eq slot
  have new_frame := install_new_frame tables fresh place flags_eq
  have kernel_fresh : kernelDir ∉ dirs := (List.nodup_cons.mp tables.nodup).1
  refine ⟨tables.nodup, tables.total_lt, ?_, ?_, ?_, ?_, ?_⟩
  · intro slot owned
    rcases (install_owned tables fresh place flags_eq).mp owned with before | rfl
    · obtain ⟨lowmem, below, marked⟩ := tables.placed slot before
      rw [old_frame before]
      exact ⟨lowmem, below, (marked_pmmMark _ _ _ _).mpr (Or.inr marked)⟩
    · rw [new_frame]
      exact ⟨fresh.lowmem, fresh.below, (marked_pmmMark _ _ _ _).mpr (Or.inl (by omega))⟩
  · intro left right left_owned right_owned same
    rcases (install_owned tables fresh place flags_eq).mp left_owned with left_before | rfl <;>
      rcases (install_owned tables fresh place flags_eq).mp right_owned with right_before | rfl
    · rw [old_frame left_before, old_frame right_before] at same
      exact tables.injective left right left_before right_before same
    · rw [old_frame left_before, new_frame] at same
      exact absurd same (fresh.ne_frame tables left_before)
    · rw [old_frame right_before, new_frame] at same
      exact absurd same.symm (fresh.ne_frame tables right_before)
    · rfl
  · intro dir' member' index' index_lt' present
    rw [words member' index_lt'] at present ⊢
    split
    · omega
    · rename_i differ
      rw [if_neg differ] at present
      exact tables.small dir' member' index' index_lt' present
  · intro index' user present
    rw [words (by simp) (by omega), if_neg] at present
    · exact tables.kernelOnly index' user present
    · rintro ⟨rfl, rfl⟩
      rcases place with ⟨dir_mem, _⟩ | ⟨_, _, kernel, _⟩
      · exact kernel_fresh dir_mem
      · omega
  · intro dir' member' index' kernel index_lt'
    rw [words (by simp [member']) index_lt', words (by simp) index_lt', if_neg, if_neg]
    · exact tables.shared dir' member' index' kernel index_lt'
    · rintro ⟨rfl, rfl⟩
      rcases place with ⟨dir_mem, _⟩ | ⟨_, rfl, _, _⟩
      · exact kernel_fresh dir_mem
      · simp at member'
    · rintro ⟨rfl, rfl⟩
      rcases place with ⟨_, user⟩ | ⟨_, rfl, _, _⟩
      · omega
      · simp at member'

/-- Installing a table turns one free frame into a table and leaves all other frames alone. -/
theorem residue_installTable (other : ℕ) :
    (Residue kernelDir dirs (installTable machine dir index frame flags) other ↔
        Residue kernelDir dirs machine other) ∧
      (Residue kernelDir dirs machine other →
        ByteMemory.AgreeOn machine.mem (installTable machine dir index frame flags).mem other) := by
  have old_frame {slot : TableSlot} := @install_frame kernelDir dir index frame flags dirs machine
    tables fresh place absent flags_eq slot
  have new_frame := install_new_frame tables fresh place flags_eq
  obtain ⟨dir_mem, index_lt⟩ := place.bounds
  constructor
  · constructor
    · rintro ⟨marked, unowned⟩
      have not_new : frame ≠ other := by
        rw [← new_frame]
        exact unowned _ ((install_owned tables fresh place flags_eq).mpr (Or.inr rfl))
      refine ⟨?_, fun slot owned => ?_⟩
      · rcases (marked_pmmMark _ _ _ _).mp marked with new | old
        · omega
        · exact old
      · rw [← old_frame owned]
        exact unowned slot ((install_owned tables fresh place flags_eq).mpr (Or.inl owned))
    · rintro ⟨marked, unowned⟩
      refine ⟨(marked_pmmMark _ _ _ _).mpr (Or.inr marked), fun slot owned => ?_⟩
      rcases (install_owned tables fresh place flags_eq).mp owned with before | rfl
      · rw [old_frame before]
        exact unowned slot before
      · rw [new_frame]
        rintro rfl
        exact fresh.free marked
  · rintro ⟨marked, unowned⟩
    have not_new : other ≠ frame := by
      rintro rfl
      exact fresh.free marked
    have not_dir : other ≠ dir := (unowned _ (PageTables.dir_owned dir_mem)).symm
    exact (ByteMemory.fill_agreeOn 0 not_new).trans (ByteMemory.setWord_agreeOn index_lt not_dir)

/-- An empty table reads like a missing one. -/
theorem pteWord_installTable {dir' va : ℕ} (member' : dir' ∈ kernelDir :: dirs)
    (va_lt : va < 2 ^ 32) :
    pteWord (installTable machine dir index frame flags) dir' va = pteWord machine dir' va := by
  obtain ⟨dir_mem, index_lt⟩ := place.bounds
  have index_lt' : va / 2 ^ 22 < 1024 := by omega
  have slot_lt : va / 4096 % 1024 < 1024 := Nat.mod_lt _ (by decide)
  have word_eq := word_installTable tables fresh place flags_eq member' index_lt'
  simp only [pteWord]
  by_cases same : dir' = dir ∧ va / 2 ^ 22 = index
  · rw [if_pos same] at word_eq
    obtain ⟨rfl, rfl⟩ := same
    have number : (frame * 4096 + flags) / 4096 = frame := by omega
    have apart : frame ≠ dir' := (fresh.ne_frame tables (PageTables.dir_owned dir_mem)).symm
    have present : EntryPresent (frame * 4096 + flags) := by
      unfold EntryPresent
      omega
    rw [word_eq, if_pos present, if_neg absent, number, installTable,
      (ByteMemory.setWord_agreeOn index_lt apart).word_eq slot_lt]
    exact ByteMemory.word_fill_zero _ _ slot_lt
  · rw [if_neg same] at word_eq
    rw [word_eq]
    by_cases present : EntryPresent (machine.mem.word dir' (va / 2 ^ 22))
    · obtain ⟨owned, frame_eq⟩ := tables.canonical_owned member' index_lt' present
      have not_dir := tables.table_ne_dir member' index_lt' present dir_mem
      have not_new : machine.mem.word dir' (va / 2 ^ 22) / 4096 ≠ frame :=
        frame_eq ▸ fresh.ne_frame tables owned
      rw [if_pos present, if_pos present]
      exact ((ByteMemory.fill_agreeOn 0 not_new).trans
        (ByteMemory.setWord_agreeOn index_lt not_dir)).word_eq slot_lt
    · rw [if_neg present, if_neg present]

/-- Installing a user table changes no entry. -/
theorem rewritten_installTable (ready : KernelReady kernelDir machine) (word : ℕ → ℕ) :
    Rewritten kernelDir dirs dir machine (installTable machine dir index frame flags) ∅ word := by
  have residue := residue_installTable tables fresh place absent flags_eq
  refine ⟨pageTables_installTable tables fresh place absent flags_eq, ?_, rfl,
    fun other => (residue other).1, fun other => (residue other).2, ?_, by simp, ?_⟩
  · intro index' kernel index_lt'
    rw [word_installTable tables fresh place flags_eq (by simp) index_lt']
    split
    · unfold EntryPresent
      omega
    · exact ready index' kernel index_lt'
  · intro dir' member' index' index_lt' shielded
    rw [word_installTable tables fresh place flags_eq member' index_lt', if_neg]
    rintro ⟨same, rfl⟩
    have kernel := shielded same
    rcases place with ⟨_, user⟩ | ⟨rfl, _, _, _⟩
    · omega
    · exact absent (ready index' kernel index_lt')
  · intro dir' member' va va_lt _
    exact pteWord_installTable tables fresh place absent flags_eq member' va_lt

end Install

end Writes

end ItWorksOS
