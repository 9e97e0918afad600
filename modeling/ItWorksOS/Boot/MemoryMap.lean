import ItWorksOS.Klib.Memory
import ItWorksOS.Mm.Layout

/-!
# The memory map hand-over

Stage 2 collects the memory map of the BIOS in a buffer of 64 entries behind which `boot_info`
lies. The kernel copies the entries into an array of its own.
-/

namespace ItWorksOS

/-- Size of an entry. -/
abbrev e820EntrySize : ℕ := 24

/-- Number of entries of `e820_buffer`. -/
abbrev e820MaxEntries : ℕ := 64

/-- `BOOT_MEMORY_MAP_MAX`. -/
abbrev bootMemoryMapMax : ℕ := 64

/-- `SMAP`. -/
abbrev e820Smap : ℕ := 0x534D4150

/-- Memory with the addresses that were written, latest first. -/
structure TracedMemory where
  bytes : ByteMemory
  written : List ℕ

/-- Store bytes at the addresses of an index sequence. -/
def TracedMemory.store (address : ℕ → ℕ) : ℕ → List UInt8 → TracedMemory → TracedMemory
  | _, [], mem => mem
  | j, b :: bytes, mem =>
      TracedMemory.store address (j + 1) bytes
        { bytes := mem.bytes.write8 (address j) b, written := address j :: mem.written }

/-- `memcpy`. -/
def TracedMemory.copy (mem : TracedMemory) (dst src n : ℕ) : TracedMemory where
  bytes := memcpy mem.bytes dst src n
  written := (List.range n).map (dst + ·) ++ mem.written

/-- What one call of the BIOS leaves: the carry flag, `EAX`, `EBX`, `CX` and the bytes it stored, at
most as many as the caller announced. -/
structure E820Reply where
  carry : Bool
  eax : ℕ
  ebx : ℕ
  cx : ℕ
  entry : List UInt8
  fits : entry.length ≤ e820EntrySize

/-- The reply ends the list, or the call failed. -/
def E820Reply.Last (reply : E820Reply) : Prop :=
  reply.carry = true ∨ reply.eax ≠ e820Smap ∨ reply.ebx = 0

instance (reply : E820Reply) : Decidable reply.Last :=
  inferInstanceAs (Decidable (_ ∨ _))

/-- What `e820_get_memory_map` returns: the carry flag, `CX` and `DI`. -/
structure E820Result where
  carry : Bool
  cx : ℕ
  di : ℕ
  mem : TracedMemory

/-- The loop over the replies, as long as there are any. -/
def e820NextEntry (es : ℕ) : List E820Reply → ℕ → ℕ → TracedMemory → Option E820Result
  | [], _, _, _ => none
  | reply :: replies, di, bp, mem =>
      let mem := mem.store (fun j => es * 16 + (di + j) % 2 ^ 16) 20 [1, 0, 0, 0]
      let mem := mem.store (fun j => es * 16 + (di + j) % 2 ^ 16) 0 reply.entry
      if reply.carry then
        if bp ≠ 0 then some { carry := false, cx := bp, di, mem }
        -- `.error` leaves `CX` as the BIOS returned it
        else some { carry := true, cx := reply.cx, di, mem }
      else if reply.eax ≠ e820Smap then some { carry := true, cx := reply.cx, di, mem }
      else
        let bp := (bp + 1) % 2 ^ 16
        let di := (di + e820EntrySize) % 2 ^ 16
        if reply.ebx = 0 then some { carry := false, cx := bp, di, mem }
        else e820NextEntry es replies di bp mem

/-- Collect the memory map at `ES:DI`. -/
def e820GetMemoryMap (es di : ℕ) (replies : List E820Reply) (mem : TracedMemory) :
    Option E820Result :=
  e820NextEntry es replies di 0 mem

/-- The boot information that stage 2 passes to the kernel. -/
structure BootInfo where
  memoryMapCount : ℕ
  memoryMapPhys : ℕ
  video : List UInt8
  systemImage : ℕ
  systemImageSize : ℕ

/-- The boot information of the kernel. -/
structure BootState where
  memoryMapCount : ℕ
  memoryMap : ℕ
  video : List UInt8
  systemImage : ℕ
  systemImageSize : ℕ

/-- Record the memory map. -/
def stage2BootInfoInit (buffer count : ℕ) (info : BootInfo) : BootInfo :=
  { info with memoryMapCount := count, memoryMapPhys := buffer }

/-- Copy the memory map to the array `entries`, and take over the rest. -/
def bootInit (entries : ℕ) (info : BootInfo) (mem : TracedMemory) : BootState × TracedMemory :=
  ({ memoryMapCount := info.memoryMapCount
     memoryMap := entries
     video := info.video
     systemImage := physToVirt info.systemImage
     systemImageSize := info.systemImageSize },
    mem.copy entries (physToVirt info.memoryMapPhys) (e820EntrySize * info.memoryMapCount))

/-- Stage 2 writes only its buffer, and what it hands over fits the array of the kernel. -/
structure HandOver (buffer : ℕ) (out : E820Result) : Prop where
  buffered : ∀ address ∈ out.mem.written,
    buffer ≤ address ∧ address < buffer + e820MaxEntries * e820EntrySize
  copied : out.carry = false → ∀ (info : BootInfo) (entries : ℕ) (kernel : ByteMemory),
    (bootInit entries (stage2BootInfoInit buffer out.cx info) ⟨kernel, []⟩).1.memoryMapCount ≤
        bootMemoryMapMax ∧
      ∀ address ∈ (bootInit entries (stage2BootInfoInit buffer out.cx info)
          ⟨kernel, []⟩).2.written,
        entries ≤ address ∧ address < entries + bootMemoryMapMax * e820EntrySize

section HandOver

variable {mem : TracedMemory} {buffer di bp done : ℕ} {replies : List E820Reply}
  {out : E820Result}

theorem mem_written_store {address : ℕ → ℕ} {j : ℕ} {bytes : List UInt8} {target : ℕ} :
    target ∈ (mem.store address j bytes).written ↔
      target ∈ mem.written ∨ ∃ i < bytes.length, target = address (j + i) := by
  induction bytes generalizing j mem with
  | nil => simp [TracedMemory.store]
  | cons b bytes induction =>
      rw [TracedMemory.store, induction, List.mem_cons]
      constructor
      · rintro ((first | old) | ⟨i, i_lt, later⟩)
        · exact .inr ⟨0, Nat.zero_lt_succ _, first⟩
        · exact .inl old
        · refine .inr ⟨i + 1, Nat.succ_lt_succ i_lt, ?_⟩
          rw [later, Nat.add_assoc, Nat.add_comm 1 i]
      · rintro (old | ⟨i, i_lt, at_i⟩)
        · exact .inl (.inr old)
        · cases i with
          | zero => exact .inl (.inl at_i)
          | succ i =>
              refine .inr ⟨i, Nat.lt_of_succ_lt_succ i_lt, ?_⟩
              rw [at_i, Nat.add_assoc, Nat.add_comm 1 i]

/-- One call writes inside the entry at `DI`. -/
theorem e820_call_written {reply : E820Reply} {target : ℕ} (fits : di + e820EntrySize ≤ 2 ^ 16)
    (member : target ∈ ((mem.store (fun j => 0 * 16 + (di + j) % 2 ^ 16) 20 [1, 0, 0, 0]).store
      (fun j => 0 * 16 + (di + j) % 2 ^ 16) 0 reply.entry).written) :
    target ∈ mem.written ∨ di ≤ target ∧ target < di + e820EntrySize := by
  have entry_le := reply.fits
  unfold e820EntrySize at fits entry_le ⊢
  rw [mem_written_store, mem_written_store] at member
  rcases member with (old | ⟨i, i_lt, rfl⟩) | ⟨i, i_lt, rfl⟩
  · exact .inl old
  · simp only [List.length_cons, List.length_nil] at i_lt
    omega
  · omega

/-- If the list ends within the 64 calls, every entry is stored in the buffer. -/
theorem e820NextEntry_within {last : ℕ} {reply : E820Reply}
    (layout : buffer + e820MaxEntries * e820EntrySize + 24 ≤ 2 ^ 16)
    (written : ∀ address ∈ mem.written,
      buffer ≤ address ∧ address < buffer + e820MaxEntries * e820EntrySize)
    (at_last : replies[last]? = some reply) (ends : reply.Last)
    (last_lt : done + last < e820MaxEntries) :
    ∃ out, e820NextEntry 0 replies (buffer + e820EntrySize * done) done mem = some out ∧
      (out.carry = false → out.cx ≤ e820MaxEntries) ∧ ∀ address ∈ out.mem.written,
        buffer ≤ address ∧ address < buffer + e820MaxEntries * e820EntrySize := by
  induction replies generalizing done mem last with
  | nil => cases at_last
  | cons first replies induction =>
      unfold e820MaxEntries e820EntrySize at *
      have inside : ∀ address ∈ ((mem.store (fun j => 0 * 16 + (buffer + 24 * done + j) % 2 ^ 16)
          20 [1, 0, 0, 0]).store (fun j => 0 * 16 + (buffer + 24 * done + j) % 2 ^ 16) 0
            first.entry).written, buffer ≤ address ∧ address < buffer + 64 * 24 := by
        intro address member
        rcases e820_call_written (by unfold e820EntrySize; omega) member with old | new
        · exact written address old
        · unfold e820EntrySize at new
          omega
      have done_eq : (done + 1) % 2 ^ 16 = done + 1 := Nat.mod_eq_of_lt (by omega)
      have count_le : done ≤ 64 := by omega
      have next_le : (done + 1) % 2 ^ 16 ≤ 64 := by omega
      rw [e820NextEntry]
      split_ifs with carry some_entry bad_eax last_ebx
      · exact ⟨_, rfl, fun _ => count_le, inside⟩
      · exact ⟨_, rfl, nofun, inside⟩
      · exact ⟨_, rfl, nofun, inside⟩
      · exact ⟨_, rfl, fun _ => next_le, inside⟩
      · have later : last ≠ 0 := by
          rintro rfl
          cases at_last
          exact ends.elim carry fun rest => rest.elim bad_eax last_ebx
        obtain ⟨next, rfl⟩ := Nat.exists_eq_succ_of_ne_zero later
        have di_eq : (buffer + 24 * done + 24) % 2 ^ 16 = buffer + 24 * (done + 1) := by omega
        simp only [done_eq, di_eq]
        exact induction inside at_last (by omega)

theorem e820NextEntry_written_subset {es : ℕ}
    (ran : e820NextEntry es replies di bp mem = some out) : mem.written ⊆ out.mem.written := by
  induction replies generalizing di bp mem with
  | nil => cases ran
  | cons first replies induction =>
      have grown : mem.written ⊆ ((mem.store (fun j => es * 16 + (di + j) % 2 ^ 16) 20
          [1, 0, 0, 0]).store (fun j => es * 16 + (di + j) % 2 ^ 16) 0 first.entry).written :=
        fun address member => mem_written_store.mpr (.inl (mem_written_store.mpr (.inl member)))
      rw [e820NextEntry] at ran
      split_ifs at ran with carry some_entry bad_eax last_ebx
      · exact Option.some.inj ran ▸ grown
      · exact Option.some.inj ran ▸ grown
      · exact Option.some.inj ran ▸ grown
      · exact Option.some.inj ran ▸ grown
      · exact List.Subset.trans grown (induction ran)

/-- If the list goes on for more than 64 calls, the attribute of entry 64 is written behind the
buffer. -/
theorem e820NextEntry_beyond (done : ℕ)
    (layout : buffer + e820MaxEntries * e820EntrySize + 24 ≤ 2 ^ 16)
    (ran : e820NextEntry 0 replies (buffer + e820EntrySize * done) done mem = some out)
    (done_le : done ≤ e820MaxEntries)
    (going_on : ∀ i reply, done + i < e820MaxEntries → replies[i]? = some reply → ¬ reply.Last) :
    buffer + e820MaxEntries * e820EntrySize + 20 ∈ out.mem.written := by
  induction replies generalizing done mem with
  | nil => cases ran
  | cons first replies induction =>
      unfold e820MaxEntries e820EntrySize at *
      rcases Nat.lt_or_eq_of_le done_le with before | rfl
      · have next := going_on 0 first before rfl
        have done_eq : (done + 1) % 2 ^ 16 = done + 1 := Nat.mod_eq_of_lt (by omega)
        have di_eq : (buffer + 24 * done + 24) % 2 ^ 16 = buffer + 24 * (done + 1) := by omega
        rw [E820Reply.Last, not_or, not_or] at next
        rw [e820NextEntry, if_neg next.1, if_neg next.2.1] at ran
        simp only [if_neg next.2.2, done_eq, di_eq] at ran
        refine induction _ ran (by omega) fun i reply i_lt at_i => ?_
        exact going_on (i + 1) reply (by omega) at_i
      · have stored : buffer + 64 * 24 + 20 ∈ ((mem.store
            (fun j => 0 * 16 + (buffer + 24 * 64 + j) % 2 ^ 16) 20 [1, 0, 0, 0]).store
            (fun j => 0 * 16 + (buffer + 24 * 64 + j) % 2 ^ 16) 0 first.entry).written := by
          refine mem_written_store.mpr (.inl (mem_written_store.mpr (.inr ⟨0, by decide, ?_⟩)))
          omega
        rw [e820NextEntry] at ran
        split_ifs at ran with carry some_entry bad_eax last_ebx
        · exact Option.some.inj ran ▸ stored
        · exact Option.some.inj ran ▸ stored
        · exact Option.some.inj ran ▸ stored
        · exact Option.some.inj ran ▸ stored
        · exact e820NextEntry_written_subset ran stored

/-- A list of at most 64 calls is handed over in bounds. -/
theorem handOver_of_within {last : ℕ} {reply : E820Reply} {bytes : ByteMemory}
    (layout : buffer + e820MaxEntries * e820EntrySize + 24 ≤ 2 ^ 16)
    (ran : e820GetMemoryMap 0 buffer replies ⟨bytes, []⟩ = some out)
    (last_lt : last < e820MaxEntries) (at_last : replies[last]? = some reply)
    (ends : reply.Last) : HandOver buffer out := by
  have none_written : ∀ address ∈ (TracedMemory.mk bytes []).written,
      buffer ≤ address ∧ address < buffer + e820MaxEntries * e820EntrySize :=
    List.forall_mem_nil _
  obtain ⟨out', ran', count_le, buffered⟩ :=
    e820NextEntry_within layout none_written at_last ends ((Nat.zero_add last).trans_lt last_lt)
  obtain rfl := Option.some.inj (ran'.symm.trans ran)
  refine ⟨buffered, fun success info entries kernel => ?_⟩
  have count_le := count_le success
  refine ⟨count_le, fun address member => ?_⟩
  simp only [bootInit, stage2BootInfoInit, TracedMemory.copy, List.append_nil, List.mem_map,
    List.mem_range] at member
  obtain ⟨i, i_lt, rfl⟩ := member
  unfold e820EntrySize e820MaxEntries bootMemoryMapMax at *
  omega

/-- A list of more than 64 calls is not. -/
theorem not_handOver_of_beyond {bytes : ByteMemory}
    (layout : buffer + e820MaxEntries * e820EntrySize + 24 ≤ 2 ^ 16)
    (ran : e820GetMemoryMap 0 buffer replies ⟨bytes, []⟩ = some out)
    (going_on : ∀ i reply, i < e820MaxEntries → replies[i]? = some reply → ¬ reply.Last) :
    ¬ HandOver buffer out := by
  intro handOver
  have stored := e820NextEntry_beyond 0 layout ran (Nat.zero_le _)
    fun i reply i_lt => going_on i reply (by omega)
  have inside := (handOver.buffered _ stored).2
  omega

/-- For every sequence of replies, stage 2 writes only its buffer and the kernel copies at most its
array exactly when the BIOS ends the list within 64 calls. -/
theorem e820_handOver_iff {bytes : ByteMemory}
    (layout : buffer + e820MaxEntries * e820EntrySize + 24 ≤ 2 ^ 16)
    (ran : e820GetMemoryMap 0 buffer replies ⟨bytes, []⟩ = some out) :
    HandOver buffer out ↔
      ∃ i < e820MaxEntries, ∃ reply, replies[i]? = some reply ∧ reply.Last := by
  constructor
  · intro handOver
    by_contra going_on
    refine not_handOver_of_beyond layout ran (fun i reply i_lt at_i ends => ?_) handOver
    exact going_on ⟨i, i_lt, reply, at_i, ends⟩
  · rintro ⟨last, last_lt, reply, at_last, ends⟩
    exact handOver_of_within layout ran last_lt at_last ends

/-- An entry of usable memory, the last one or not. -/
def usableReply (ebx : ℕ) : E820Reply where
  carry := false
  eax := e820Smap
  ebx := ebx
  cx := 20
  entry := [0, 0, 0, 0, 0, 0, 0, 0, 0, 0, 1, 0, 0, 0, 0, 0, 1, 0, 0, 0]
  fits := by decide

theorem e820_handOver_one : ∃ out,
    e820GetMemoryMap 0 0x1000 [usableReply 0] ⟨fun _ => 0, []⟩ = some out ∧
      out.carry = false ∧ out.cx = 1 ∧ HandOver 0x1000 out := by
  obtain ⟨out, ran, carry, count_eq⟩ : ∃ out,
      e820GetMemoryMap 0 0x1000 [usableReply 0] ⟨fun _ => 0, []⟩ = some out ∧
        out.carry = false ∧ out.cx = 1 := ⟨_, rfl, rfl, rfl⟩
  exact ⟨out, ran, carry, count_eq, (e820_handOver_iff (by decide) ran).mpr
    ⟨0, by decide, usableReply 0, rfl, by decide⟩⟩

end HandOver

/-- A map of 65 entries is accepted, and stage 2 writes behind its buffer. -/
theorem e820_overflows_buffer : ∃ out,
    e820GetMemoryMap 0 0x1000 (List.replicate 64 (usableReply 1) ++ [usableReply 0])
        ⟨fun _ => 0, []⟩ = some out ∧
      out.carry = false ∧ out.cx = 65 ∧ ¬ HandOver 0x1000 out := by
  have ran (count done di : ℕ) (mem : TracedMemory) (small : done + count < 2 ^ 16 - 1) :
      ∃ out, e820NextEntry 0 (List.replicate count (usableReply 1) ++ [usableReply 0]) di done mem =
        some out ∧ out.carry = false ∧ out.cx = done + count + 1 := by
    induction count generalizing done di mem with
    | zero => exact ⟨_, rfl, rfl, Nat.mod_eq_of_lt (by omega)⟩
    | succ count induction =>
        have next : (done + 1) % 2 ^ 16 = done + 1 := Nat.mod_eq_of_lt (by omega)
        rw [List.replicate_succ, List.cons_append, e820NextEntry]
        simp only [usableReply, Bool.false_eq_true, if_false, ne_eq, not_true_eq_false,
          one_ne_zero, next]
        obtain ⟨out, ran, carry, count_eq⟩ := induction (done + 1) _ _ (by omega)
        exact ⟨out, ran, carry, by omega⟩
  obtain ⟨out, ran, carry, count_eq⟩ := ran 64 0 0x1000 ⟨fun _ => 0, []⟩ (by decide)
  refine ⟨out, ran, carry, count_eq, not_handOver_of_beyond (by decide) ran
    fun i reply i_lt at_i => ?_⟩
  rw [List.getElem?_append_left (by rw [List.length_replicate]; exact i_lt),
    List.getElem?_replicate, if_pos i_lt] at at_i
  cases at_i
  decide

end ItWorksOS
