import ItWorksOS.Boot.MemoryMap
import ItWorksOS.Klib.Endian

/-!
# The entries of the memory map

A BIOS stores entries of 20 bytes, or of 24 with the attributes. Stage2 stores default attributes
before each call.
-/

namespace ItWorksOS

/-- What lies in a slot of the buffer after a call that stored an entry. -/
def e820Slot (entry : List UInt8) : List UInt8 :=
  entry ++ ([1, 0, 0, 0] : List UInt8).drop (entry.length - 20)

theorem e820Slot_length {entry : List UInt8} (long : 20 ≤ entry.length)
    (fits : entry.length ≤ e820EntrySize) : (e820Slot entry).length = e820EntrySize := by
  unfold e820EntrySize at *
  rw [e820Slot, List.length_append, List.length_drop,
    show ([1, 0, 0, 0] : List UInt8).length = 4 from rfl]
  omega

/-- The replies of a BIOS that describes the memory with these entries: the last one has `EBX` zero,
or a call with the carry flag follows it. -/
inductive Describes : List (List UInt8) → List E820Reply → Prop
  | stop {reply : E820Reply} (replies : List E820Reply) (carry : reply.carry = true) :
      Describes [] (reply :: replies)
  | last {reply : E820Reply} (replies : List E820Reply) (success : reply.carry = false)
      (eax : reply.eax = e820Smap) (ebx : reply.ebx = 0) :
      Describes [reply.entry] (reply :: replies)
  | next {reply : E820Reply} {replies : List E820Reply} {entries : List (List UInt8)}
      (success : reply.carry = false) (eax : reply.eax = e820Smap) (ebx : reply.ebx ≠ 0)
      (rest : Describes entries replies) : Describes (reply.entry :: entries) (reply :: replies)

theorem Describes.fits {entries : List (List UInt8)} {replies : List E820Reply}
    (describes : Describes entries replies) : ∀ entry ∈ entries, entry.length ≤ e820EntrySize := by
  induction describes with
  | stop => exact List.forall_mem_nil _
  | @last reply => exact List.forall_mem_singleton.mpr reply.fits
  | @next reply _ _ _ _ _ _ induction => exact List.forall_mem_cons.mpr ⟨reply.fits, induction⟩

section

variable {mem : TracedMemory} {buffer di done : ℕ} {entries : List (List UInt8)}
  {replies : List E820Reply}

/-- Stores in the first 64 KiB without wrapping. -/
theorem store_bytes {j : ℕ} {bytes : List UInt8} (room : di + j + bytes.length ≤ 2 ^ 16) :
    (mem.store (fun j => 0 * 16 + (di + j) % 2 ^ 16) j bytes).bytes =
      mem.bytes.blit (di + j) bytes.length fun i => bytes.getD i 0 := by
  induction bytes generalizing j mem with
  | nil =>
      funext target
      exact (ByteMemory.blit_of_outside (by rw [List.length_nil]; omega)).symm
  | cons b bytes induction =>
      rw [List.length_cons] at room
      rw [TracedMemory.store, induction (by omega), Nat.zero_mul, Nat.zero_add,
        Nat.mod_eq_of_lt (by omega)]
      funext target
      simp only [ByteMemory.blit, ByteMemory.write8, List.length_cons]
      by_cases first : target = di + j
      · subst first
        rw [if_neg (by omega), Function.update_self, if_pos (by omega), Nat.sub_self,
          List.getD_cons_zero]
      · by_cases later : di + (j + 1) ≤ target ∧ target < di + (j + 1) + bytes.length
        · rw [if_pos later, if_pos (by omega), show target - (di + j) = target - (di + (j + 1)) + 1
            by omega, List.getD_cons_succ]
        · rw [if_neg later, Function.update_of_ne first, if_neg (by omega)]

/-- The memory after the two stores of a call. -/
def e820Call (di : ℕ) (entry : List UInt8) (mem : TracedMemory) : TracedMemory :=
  (mem.store (fun j => 0 * 16 + (di + j) % 2 ^ 16) 20 [1, 0, 0, 0]).store
    (fun j => 0 * 16 + (di + j) % 2 ^ 16) 0 entry

theorem e820Call_bytes {entry : List UInt8} (fits : entry.length ≤ e820EntrySize)
    (room : di + e820EntrySize ≤ 2 ^ 16) :
    (e820Call di entry mem).bytes =
      (mem.bytes.blit (di + 20) 4 fun i => [1, 0, 0, 0].getD i 0).blit di entry.length
        fun i => entry.getD i 0 := by
  unfold e820EntrySize at *
  have four : ([1, 0, 0, 0] : List UInt8).length = 4 := rfl
  rw [e820Call, store_bytes (by omega), store_bytes (by rw [four]; omega), four, Nat.add_zero di]

/-- A call changes only its slot. -/
theorem e820Call_kept {entry : List UInt8} (fits : entry.length ≤ e820EntrySize)
    (room : di + e820EntrySize ≤ 2 ^ 16) {address : ℕ}
    (outside : address < di ∨ di + e820EntrySize ≤ address) :
    (e820Call di entry mem).bytes address = mem.bytes address := by
  rw [e820Call_bytes fits room]
  unfold e820EntrySize at *
  rw [ByteMemory.blit_of_outside (by omega), ByteMemory.blit_of_outside (by omega)]

/-- A call leaves its entry in the slot. -/
theorem e820Call_slot {entry : List UInt8} (long : 20 ≤ entry.length)
    (fits : entry.length ≤ e820EntrySize) (room : di + e820EntrySize ≤ 2 ^ 16) :
    Holds (e820Call di entry mem).bytes di (e820Slot entry) := by
  have four : ([1, 0, 0, 0] : List UInt8).length = 4 := rfl
  intro index index_lt
  rw [e820Call_bytes fits room]
  unfold e820EntrySize at *
  rw [e820Slot, List.length_append, List.length_drop, four] at index_lt
  simp only [e820Slot]
  by_cases inside : index < entry.length
  · rw [ByteMemory.blit_of_inside inside, List.getElem_append_left inside,
      List.getD_eq_getElem?_getD, List.getElem?_eq_getElem inside, Option.getD_some]
  · have at_attr : di + index = di + 20 + (index - 20) := by omega
    have attr_lt : index - 20 < ([1, 0, 0, 0] : List UInt8).length := by
      rw [four]
      omega
    rw [ByteMemory.blit_of_outside (by omega), at_attr, ByteMemory.blit_of_inside (by omega),
      List.getElem_append_right (Nat.le_of_not_lt inside), List.getElem_drop,
      List.getD_eq_getElem?_getD, List.getElem?_eq_getElem attr_lt, Option.getD_some]
    congr 1
    omega

/-- The entries of the BIOS end up one after the other in the buffer. -/
theorem e820NextEntry_entries (describes : Describes entries replies)
    (long : ∀ entry ∈ entries, 20 ≤ entry.length)
    (layout : buffer + e820MaxEntries * e820EntrySize + e820EntrySize ≤ 2 ^ 16)
    (few : done + entries.length ≤ e820MaxEntries) (found : 0 < done + entries.length) :
    ∃ out, e820NextEntry 0 replies (buffer + e820EntrySize * done) done mem = some out ∧
      out.carry = false ∧ out.cx = done + entries.length ∧
      (∀ i entry, entries[i]? = some entry →
        Holds out.mem.bytes (buffer + e820EntrySize * (done + i)) (e820Slot entry)) ∧
      ∀ address, (address < buffer + e820EntrySize * done ∨
          buffer + e820MaxEntries * e820EntrySize + e820EntrySize ≤ address) →
        out.mem.bytes address = mem.bytes address := by
  induction describes generalizing done mem with
  | @stop reply replies carry =>
      have fits := reply.fits
      rw [List.length_nil, Nat.add_zero] at few found ⊢
      have kept {address : ℕ} := @e820Call_kept mem (buffer + e820EntrySize * done) reply.entry fits
        (by unfold e820MaxEntries e820EntrySize at *; omega) address
      unfold e820MaxEntries e820EntrySize at *
      refine ⟨_, by rw [e820NextEntry, if_pos carry, if_pos (Nat.pos_iff_ne_zero.mp found)], rfl,
        rfl, fun i entry at_i => ?_, fun address outside => @kept address (by omega)⟩
      cases at_i
  | @last reply replies success eax ebx =>
      have fits := reply.fits
      have slot := @e820Call_slot mem (buffer + e820EntrySize * done) reply.entry
        (long reply.entry (List.mem_singleton_self _)) fits
        (by unfold e820MaxEntries e820EntrySize at *; omega)
      have kept {address : ℕ} := @e820Call_kept mem (buffer + e820EntrySize * done) reply.entry fits
        (by unfold e820MaxEntries e820EntrySize at *; omega) address
      rw [List.length_singleton] at few ⊢
      unfold e820MaxEntries e820EntrySize at *
      have ran : e820NextEntry 0 (reply :: replies) (buffer + 24 * done) done mem =
          some ⟨false, done + 1, (buffer + 24 * done + 24) % 2 ^ 16,
            e820Call (buffer + 24 * done) reply.entry mem⟩ := by
        rw [e820NextEntry, if_neg (by rw [success]; decide), if_neg (not_not_intro eax)]
        simp only [if_pos ebx, Nat.mod_eq_of_lt (show done + 1 < 2 ^ 16 by omega)]
        rfl
      refine ⟨_, ran, rfl, rfl, fun i entry at_i => ?_,
        fun address outside => @kept address (by omega)⟩
      cases i with
      | zero =>
          obtain rfl := Option.some.inj at_i
          exact slot
      | succ i => cases at_i
  | @next reply replies entries success eax ebx rest induction =>
      have fits := reply.fits
      rw [List.forall_mem_cons] at long
      have slot := @e820Call_slot mem (buffer + e820EntrySize * done) reply.entry long.1 fits
        (by unfold e820MaxEntries e820EntrySize at *; rw [List.length_cons] at few; omega)
      have kept {address : ℕ} := @e820Call_kept mem (buffer + e820EntrySize * done) reply.entry fits
        (by unfold e820MaxEntries e820EntrySize at *; rw [List.length_cons] at few; omega) address
      rw [List.length_cons] at few found ⊢
      obtain ⟨out, ran, carry, cx, held, later⟩ := @induction
        (e820Call (buffer + e820EntrySize * done) reply.entry mem) (done + 1) long.2 (by omega)
        (by omega)
      unfold e820MaxEntries e820EntrySize at *
      have step : e820NextEntry 0 (reply :: replies) (buffer + 24 * done) done mem =
          e820NextEntry 0 replies (buffer + 24 * (done + 1)) (done + 1)
            (e820Call (buffer + 24 * done) reply.entry mem) := by
        rw [e820NextEntry, if_neg (by rw [success]; decide), if_neg (not_not_intro eax)]
        simp only [if_neg ebx, Nat.mod_eq_of_lt (show done + 1 < 2 ^ 16 by omega),
          show (buffer + 24 * done + 24) % 2 ^ 16 = buffer + 24 * (done + 1) by omega]
        rfl
      refine ⟨out, step.trans ran, carry, by omega, fun i entry at_i => ?_,
        fun address outside => (later address (by omega)).trans (@kept address (by omega))⟩
      cases i with
      | zero =>
          obtain rfl := Option.some.inj at_i
          have length : (e820Slot reply.entry).length = 24 := e820Slot_length long.1 fits
          intro index index_lt
          rw [Nat.add_zero, later _ (by omega)]
          exact slot index index_lt
      | succ i =>
          rw [show done + (i + 1) = done + 1 + i by omega]
          exact held i entry at_i

end

end ItWorksOS
