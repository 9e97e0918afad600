import ItWorksOS.Foundation.CircularBuffer
import ItWorksOS.Foundation.Word32
import Mathlib.Data.Nat.Bitwise

/-!
# Ring buffers

Head and tail are 32-bit counters that grow without resetting and are masked on each access. The
capacity divides `2 ^ 32`, so a buffer is a bounded queue also when the counters wrap.
-/

namespace ItWorksOS

/-- A ring buffer. -/
structure Ringbuf where
  buf : ℕ → UInt8
  cap : ℕ
  head : ℕ
  tail : ℕ

/-- The slot of a counter value. -/
def ringbufIndex (rb : Ringbuf) (counter : ℕ) : ℕ := counter &&& Word32.sub rb.cap 1

/-- An empty buffer over the storage. -/
def ringbufInit (storage : ℕ → UInt8) (cap : ℕ) : Ringbuf :=
  { buf := storage, cap := cap, head := 0, tail := 0 }

/-- `head == tail`. -/
def ringbufIsEmpty (rb : Ringbuf) : Bool := rb.head == rb.tail

/-- The number of stored bytes. -/
def ringbufLen (rb : Ringbuf) : ℕ := Word32.sub rb.head rb.tail

/-- All slots are in use. -/
def ringbufIsFull (rb : Ringbuf) : Bool := Word32.sub rb.head rb.tail == rb.cap

/-- The number of free slots. -/
def ringbufAvailable (rb : Ringbuf) : ℕ := Word32.sub rb.cap (Word32.sub rb.head rb.tail)

/-- Write a byte, over the oldest one if the buffer is full. -/
def ringbufOverwrite (rb : Ringbuf) (data : UInt8) : Ringbuf :=
  let rb := if ringbufIsFull rb then { rb with tail := Word32.add rb.tail 1 } else rb
  { rb with
    buf := Function.update rb.buf (ringbufIndex rb rb.head) data
    head := Word32.add rb.head 1 }

/-- Write a byte if a slot is free. -/
def ringbufPush (rb : Ringbuf) (data : UInt8) : Bool × Ringbuf :=
  if ringbufIsFull rb then (false, rb) else (true, ringbufOverwrite rb data)

/-- Remove the oldest byte and store it in the output. -/
def ringbufPop (rb : Ringbuf) (data : UInt8) : Bool × UInt8 × Ringbuf :=
  if ringbufIsEmpty rb then (false, data, rb)
  else (true, rb.buf (ringbufIndex rb rb.tail), { rb with tail := Word32.add rb.tail 1 })

/-- Store the byte at an index from the tail in the output. -/
def ringbufPeek (rb : Ringbuf) (index : ℕ) (data : UInt8) : Bool × UInt8 :=
  if ringbufLen rb ≤ index then (false, data)
  else (true, rb.buf (ringbufIndex rb (Word32.add rb.tail index)))

/-- A call, with the output byte as it was before. -/
inductive RingbufCall
  | overwrite (data : UInt8)
  | push (data : UInt8)
  | pop (data : UInt8)
  | peek (index : ℕ) (data : UInt8)

/-- What a call returns, with the output byte. -/
inductive RingbufReply
  | done
  | pushed (written : Bool)
  | read (found : Bool) (data : UInt8)
  deriving DecidableEq

/-- One call. -/
def ringbufCall (rb : Ringbuf) : RingbufCall → RingbufReply × Ringbuf
  | .overwrite data => (.done, ringbufOverwrite rb data)
  | .push data => let (written, rb) := ringbufPush rb data; (.pushed written, rb)
  | .pop data => let (found, data, rb) := ringbufPop rb data; (.read found data, rb)
  | .peek index data => let (found, data) := ringbufPeek rb index data; (.read found data, rb)

/-- A sequence of calls, with their replies. -/
def ringbufCalls (rb : Ringbuf) : List RingbufCall → List RingbufReply × Ringbuf
  | [] => ([], rb)
  | call :: calls =>
      let (reply, rb) := ringbufCall rb call
      let (replies, rb) := ringbufCalls rb calls
      (reply :: replies, rb)

/-! ## The abstract queue -/

/-- One call on a queue of at most `cap` bytes. -/
def queueCall (cap : ℕ) (queue : List UInt8) : RingbufCall → RingbufReply × List UInt8
  | .overwrite data => (.done, (if queue.length = cap then queue.drop 1 else queue) ++ [data])
  | .push data =>
      if queue.length < cap then (.pushed true, queue ++ [data]) else (.pushed false, queue)
  | .pop data =>
      match queue with
      | [] => (.read false data, [])
      | oldest :: queue => (.read true oldest, queue)
  | .peek index data =>
      match queue[index]? with
      | none => (.read false data, queue)
      | some item => (.read true item, queue)

/-- A sequence of calls on a queue, with their replies. -/
def queueCalls (cap : ℕ) (queue : List UInt8) : List RingbufCall → List RingbufReply × List UInt8
  | [] => ([], queue)
  | call :: calls =>
      let (reply, queue) := queueCall cap queue call
      let (replies, queue) := queueCalls cap queue calls
      (reply :: replies, queue)

/-- The buffer holds the queue. -/
structure Ringbuf.Holds (rb : Ringbuf) (queue : List UInt8) : Prop where
  power : ∃ k ≤ 31, rb.cap = 2 ^ k
  tail_lt : rb.tail < 2 ^ 32
  head_eq : rb.head = (rb.tail + queue.length) % 2 ^ 32
  bounded : queue.length ≤ rb.cap
  cells : CircularBuffer.Holds rb.cap rb.buf rb.tail queue

/-! ## Counters -/

section Counters

variable {rb : Ringbuf} {queue : List UInt8}

theorem Ringbuf.Holds.cap_pos (holds : rb.Holds queue) : 0 < rb.cap := by
  obtain ⟨k, -, cap_eq⟩ := holds.power
  rw [cap_eq]
  exact Nat.two_pow_pos k

theorem Ringbuf.Holds.cap_le (holds : rb.Holds queue) : rb.cap ≤ 2 ^ 31 := by
  obtain ⟨k, bounded, cap_eq⟩ := holds.power
  rw [cap_eq]
  exact Nat.pow_le_pow_right (by decide) bounded

/-- Masking a counter reduces it modulo the capacity. -/
theorem ringbufIndex_eq (power : ∃ k ≤ 31, rb.cap = 2 ^ k) (counter : ℕ) :
    ringbufIndex rb counter = counter % rb.cap := by
  obtain ⟨k, bounded, cap_eq⟩ := power
  have cap_pos : 0 < 2 ^ k := Nat.two_pow_pos k
  have cap_le : 2 ^ k ≤ 2 ^ 31 := Nat.pow_le_pow_right (by decide) bounded
  have mask : Word32.sub (2 ^ k) 1 = 2 ^ k - 1 := Word32.sub_of_le (by omega) (by omega)
  rw [ringbufIndex, cap_eq, mask, Nat.and_two_pow_sub_one_eq_mod]

/-- Wrapping a counter keeps its slot. -/
theorem mod_word_modEq (power : ∃ k ≤ 31, rb.cap = 2 ^ k) (counter : ℕ) :
    counter % 2 ^ 32 ≡ counter [MOD rb.cap] := by
  obtain ⟨k, bounded, cap_eq⟩ := power
  rw [cap_eq]
  exact (Nat.mod_modEq counter (2 ^ 32)).of_dvd (pow_dvd_pow 2 (by omega))

theorem Ringbuf.Holds.len_eq (holds : rb.Holds queue) :
    Word32.sub rb.head rb.tail = queue.length := by
  have tail_lt := holds.tail_lt
  have small := holds.bounded.trans holds.cap_le
  rw [Word32.sub, holds.head_eq]
  omega

theorem Ringbuf.Holds.isFull_iff (holds : rb.Holds queue) :
    ringbufIsFull rb = true ↔ queue.length = rb.cap := by
  rw [ringbufIsFull, holds.len_eq, beq_iff_eq]

theorem Ringbuf.Holds.isEmpty_iff (holds : rb.Holds queue) :
    ringbufIsEmpty rb = true ↔ queue = [] := by
  have tail_lt := holds.tail_lt
  have small := holds.bounded.trans holds.cap_le
  rw [ringbufIsEmpty, beq_iff_eq, holds.head_eq, ← List.length_eq_zero_iff]
  omega

theorem Ringbuf.Holds.available_eq (holds : rb.Holds queue) :
    ringbufAvailable rb = rb.cap - queue.length := by
  have small := holds.cap_le
  have bounded := holds.bounded
  rw [ringbufAvailable, holds.len_eq, Word32.sub_of_le bounded (by omega)]

end Counters

/-! ## Calls -/

section Calls

variable {rb : Ringbuf} {queue : List UInt8}

theorem ringbufInit_holds (storage : ℕ → UInt8) {cap : ℕ} (power : ∃ k ≤ 31, cap = 2 ^ k) :
    (ringbufInit storage cap).Holds [] where
  power := power
  tail_lt := Nat.two_pow_pos 32
  head_eq := rfl
  bounded := Nat.zero_le cap
  cells := .nil

theorem Ringbuf.Holds.drop_one (holds : rb.Holds queue) (nonempty : queue ≠ []) :
    { rb with tail := Word32.add rb.tail 1 }.Holds (queue.drop 1) := by
  have positive : 0 < queue.length := List.length_pos_of_ne_nil nonempty
  have head_eq := holds.head_eq
  have bounded := holds.bounded
  refine ⟨holds.power, Nat.mod_lt _ (by decide), ?_, ?_,
    holds.cells.drop_one.start_congr (mod_word_modEq holds.power _)⟩
  · simp only [List.length_drop, Word32.add]
    omega
  · simp only [List.length_drop]
    omega

theorem Ringbuf.Holds.append (holds : rb.Holds queue) (room : queue.length < rb.cap)
    (data : UInt8) :
    { rb with
      buf := Function.update rb.buf (ringbufIndex rb rb.head) data
      head := Word32.add rb.head 1 }.Holds (queue ++ [data]) := by
  have slot : ringbufIndex rb rb.head = (rb.tail + queue.length) % rb.cap := by
    rw [ringbufIndex_eq holds.power, holds.head_eq]
    exact mod_word_modEq holds.power _
  refine ⟨holds.power, holds.tail_lt, ?_, ?_, ?_⟩
  · simp only [List.length_append, List.length_singleton, holds.head_eq, Word32.add]
    omega
  · simp only [List.length_append, List.length_singleton]
    omega
  · simp only [slot]
    exact holds.cells.append room data

theorem ringbufOverwrite_holds (holds : rb.Holds queue) (data : UInt8) :
    (ringbufOverwrite rb data).Holds
      ((if queue.length = rb.cap then queue.drop 1 else queue) ++ [data]) := by
  have cap_pos := holds.cap_pos
  rw [ringbufOverwrite]
  by_cases full : queue.length = rb.cap
  · rw [if_pos full, if_pos (holds.isFull_iff.mpr full)]
    have nonempty : queue ≠ [] := List.ne_nil_of_length_pos (by omega)
    refine (holds.drop_one nonempty).append ?_ data
    simp only [List.length_drop]
    omega
  · rw [if_neg full, if_neg (mt holds.isFull_iff.mp full)]
    exact holds.append (lt_of_le_of_ne holds.bounded full) data

theorem Ringbuf.Holds.cell_eq (holds : rb.Holds queue) {index : ℕ} {item : UInt8}
    (at_index : queue[index]? = some item) :
    rb.buf (ringbufIndex rb (Word32.add rb.tail index)) = item := by
  rw [ringbufIndex_eq holds.power, show Word32.add rb.tail index % rb.cap =
    (rb.tail + index) % rb.cap from mod_word_modEq holds.power _]
  exact holds.cells index item at_index

theorem ringbufOverwrite_cap (rb : Ringbuf) (data : UInt8) :
    (ringbufOverwrite rb data).cap = rb.cap := by
  rw [ringbufOverwrite]
  split_ifs <;> rfl

theorem ringbufPop_nil (holds : rb.Holds []) (data : UInt8) :
    ringbufPop rb data = (false, data, rb) := by
  rw [ringbufPop, if_pos (holds.isEmpty_iff.mpr rfl)]

theorem ringbufPop_cons {oldest : UInt8} (holds : rb.Holds (oldest :: queue)) (data : UInt8) :
    ringbufPop rb data = (true, oldest, { rb with tail := Word32.add rb.tail 1 }) := by
  have oldest_eq := holds.cell_eq (List.getElem?_cons_zero ..)
  rw [Word32.add_of_lt holds.tail_lt, Nat.add_zero] at oldest_eq
  rw [ringbufPop, if_neg (mt holds.isEmpty_iff.mp (List.cons_ne_nil _ _)), oldest_eq]

theorem ringbufPeek_eq (holds : rb.Holds queue) (index : ℕ) (data : UInt8) :
    ringbufPeek rb index data = (queue[index]?.isSome, queue[index]?.getD data) := by
  rw [ringbufPeek, ringbufLen, holds.len_eq]
  cases at_index : queue[index]? with
  | none => rw [if_pos (List.getElem?_eq_none_iff.mp at_index), Option.isSome_none,
      Option.getD_none]
  | some item =>
      obtain ⟨inside, -⟩ := List.getElem?_eq_some_iff.mp at_index
      rw [if_neg (Nat.not_le.mpr inside), holds.cell_eq at_index, Option.isSome_some,
        Option.getD_some]

/-- A call replies as the queue does, and the buffer holds the new queue. -/
theorem ringbufCall_holds (holds : rb.Holds queue) (call : RingbufCall) :
    (ringbufCall rb call).1 = (queueCall rb.cap queue call).1 ∧
      (ringbufCall rb call).2.Holds (queueCall rb.cap queue call).2 ∧
      (ringbufCall rb call).2.cap = rb.cap := by
  cases call with
  | overwrite data =>
      exact ⟨rfl, ringbufOverwrite_holds holds data, ringbufOverwrite_cap rb data⟩
  | push data =>
      by_cases full : queue.length = rb.cap
      · simp only [ringbufCall, ringbufPush, queueCall, holds.isFull_iff.mpr full, full, lt_irrefl,
          if_true, if_false]
        exact ⟨trivial, holds, trivial⟩
      · have room : queue.length < rb.cap := lt_of_le_of_ne holds.bounded full
        have overwritten := ringbufOverwrite_holds holds data
        rw [if_neg full] at overwritten
        simp only [ringbufCall, ringbufPush, queueCall, mt holds.isFull_iff.mp full, room, if_true,
          Bool.false_eq_true, if_false]
        exact ⟨trivial, overwritten, ringbufOverwrite_cap rb data⟩
  | pop data =>
      cases queue with
      | nil =>
          simp only [ringbufCall, ringbufPop_nil holds, queueCall]
          exact ⟨trivial, holds, trivial⟩
      | cons oldest queue =>
          simp only [ringbufCall, ringbufPop_cons holds, queueCall]
          exact ⟨trivial, holds.drop_one (List.cons_ne_nil _ _), trivial⟩
  | peek index data =>
      simp only [ringbufCall, ringbufPeek_eq holds, queueCall]
      cases queue[index]? with
      | none => exact ⟨rfl, holds, trivial⟩
      | some item => exact ⟨rfl, holds, trivial⟩

/-- A sequence of calls of any length replies as the queue does. -/
theorem ringbufCalls_holds (holds : rb.Holds queue) (calls : List RingbufCall) :
    (ringbufCalls rb calls).1 = (queueCalls rb.cap queue calls).1 ∧
      (ringbufCalls rb calls).2.Holds (queueCalls rb.cap queue calls).2 ∧
      (ringbufCalls rb calls).2.cap = rb.cap := by
  induction calls generalizing rb queue with
  | nil => exact ⟨rfl, holds, rfl⟩
  | cons call calls induction =>
      obtain ⟨reply_eq, holds', cap_eq⟩ := ringbufCall_holds holds call
      obtain ⟨replies_eq, holds'', cap_eq'⟩ := induction holds'
      rw [cap_eq] at replies_eq holds'' cap_eq'
      exact ⟨congrArg₂ List.cons reply_eq replies_eq, holds'', cap_eq'⟩

end Calls

end ItWorksOS
