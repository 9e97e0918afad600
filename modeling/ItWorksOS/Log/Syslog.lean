import ItWorksOS.Klib.Ringbuf
import ItWorksOS.Klib.String

/-!
# The system log

The log keeps the last 4096 bytes in a ring buffer. Readers copy from its start without consuming
anything.
-/

namespace ItWorksOS

/-- Capacity of the log. -/
abbrev syslogBufferSize : ℕ := 4096

/-- The log buffer, and whether it was initialised. -/
structure Syslog where
  rb : Ringbuf
  ready : Bool

/-- Start with an empty log. -/
def syslogInit (storage : ℕ → UInt8) : Syslog :=
  { rb := ringbufInit storage syslogBufferSize, ready := true }

/-- Append a character. -/
def syslogPutc (log : Syslog) (c : UInt8) : Syslog :=
  if log.ready then { log with rb := ringbufOverwrite log.rb c } else log

/-- Append the characters before the first null character. -/
def syslogWrite (log : Syslog) : List UInt8 → Syslog
  | [] => log
  | c :: str => if c = 0 then log else syslogWrite (syslogPutc log c) str

/-- The number of stored bytes. -/
def syslogLen (log : Syslog) : ℕ := if log.ready then ringbufLen log.rb else 0

/-- The copy loop of `syslog_read`. -/
def syslogCopy (log : Syslog) (dst : ℕ → UInt8) : ℕ → ℕ → ℕ → UInt8
  | _, 0 => dst
  | i, len + 1 =>
      let dst := match ringbufPeek log.rb i 0 with
        | (true, c) => Function.update dst i c
        | (false, _) => dst
      syslogCopy log dst (i + 1) len

/-- Copy the log into a destination of `size` bytes, with a null character at the end. -/
def syslogRead (log : Syslog) (dst : ℕ → UInt8) (size : ℕ) : ℕ × (ℕ → UInt8) :=
  if !log.ready || size == 0 then (0, dst)
  else
    let len := ringbufLen log.rb
    let len := if size ≤ len then size - 1 else len
    let dst := syslogCopy log dst 0 len
    (len, Function.update dst len 0)

/-- The log is ready and holds the last bytes that were logged. -/
structure Syslog.Holds (log : Syslog) (logged : List UInt8) : Prop where
  ready : log.ready = true
  cap : log.rb.cap = syslogBufferSize
  holds : log.rb.Holds (CircularBuffer.window syslogBufferSize logged)

section Syslog

variable {log : Syslog} {logged : List UInt8}

theorem syslogInit_holds (storage : ℕ → UInt8) : (syslogInit storage).Holds [] :=
  ⟨rfl, rfl, ringbufInit_holds storage ⟨12, by decide, rfl⟩⟩

theorem syslogPutc_holds (holds : log.Holds logged) (c : UInt8) :
    (syslogPutc log c).Holds (logged ++ [c]) := by
  have overwritten := ringbufOverwrite_holds holds.holds c
  rw [holds.cap, ← CircularBuffer.window_append (by decide)] at overwritten
  rw [syslogPutc, if_pos holds.ready]
  exact ⟨holds.ready, (ringbufOverwrite_cap log.rb c).trans holds.cap, overwritten⟩

/-- A write puts the characters of the string one by one. -/
theorem syslogWrite_eq (log : Syslog) (str : List UInt8) :
    syslogWrite log str = (cstring str).foldl syslogPutc log := by
  induction str generalizing log with
  | nil => rfl
  | cons c str induction =>
      rw [syslogWrite, cstring_cons]
      split_ifs
      · rw [List.foldl_nil]
      · rw [induction, List.foldl_cons]

theorem syslogPutc_foldl_holds (holds : log.Holds logged) (bytes : List UInt8) :
    (bytes.foldl syslogPutc log).Holds (logged ++ bytes) := by
  induction bytes generalizing log logged with
  | nil => simpa only [List.foldl_nil, List.append_nil] using holds
  | cons c bytes induction =>
      have put := induction (syslogPutc_holds holds c)
      simpa only [List.foldl_cons, List.append_assoc, List.singleton_append] using put

theorem syslogWrite_holds (holds : log.Holds logged) (str : List UInt8) :
    (syslogWrite log str).Holds (logged ++ cstring str) := by
  rw [syslogWrite_eq]
  exact syslogPutc_foldl_holds holds (cstring str)

theorem syslogWrites_holds (holds : log.Holds logged) (strs : List (List UInt8)) :
    (strs.foldl syslogWrite log).Holds (logged ++ strs.flatMap cstring) := by
  induction strs generalizing log logged with
  | nil => simpa only [List.foldl_nil, List.flatMap_nil, List.append_nil] using holds
  | cons str strs induction =>
      have written := induction (syslogWrite_holds holds str)
      simpa only [List.foldl_cons, List.flatMap_cons, List.append_assoc] using written

theorem syslogCopy_apply {queue : List UInt8} (holds : log.rb.Holds queue) (dst : ℕ → UInt8)
    (i len : ℕ) (bounded : i + len ≤ queue.length) (address : ℕ) :
    syslogCopy log dst i len address =
      if i ≤ address ∧ address < i + len then queue.getD address 0 else dst address := by
  induction len generalizing dst i with
  | zero => rw [syslogCopy, if_neg (by omega)]
  | succ len induction =>
      have inside : i < queue.length := by omega
      rw [syslogCopy]
      simp only [ringbufPeek_eq holds, List.getElem?_eq_getElem inside, Option.isSome_some,
        Option.getD_some]
      rw [induction _ (i + 1) (by omega)]
      rcases Nat.lt_trichotomy address i with before | rfl | after
      · rw [if_neg (by omega), if_neg (by omega), Function.update_of_ne before.ne]
      · rw [if_neg (by omega), if_pos (by omega), Function.update_self,
          List.getD_eq_getElem _ _ inside]
      · refine if_congr (by omega) rfl ?_
        rw [Function.update_of_ne after.ne']

/-- Reading copies the first bytes of the window, with a null character behind them. -/
theorem syslogRead_eq (holds : log.Holds logged) (dst : ℕ → UInt8) {size : ℕ}
    (positive : 0 < size) :
    syslogRead log dst size =
      (min (size - 1) (min syslogBufferSize logged.length), fun address =>
        if address < min (size - 1) (min syslogBufferSize logged.length) then
          (CircularBuffer.window syslogBufferSize logged).getD address 0
        else if address = min (size - 1) (min syslogBufferSize logged.length) then 0
        else dst address) := by
  have window_length := CircularBuffer.length_window syslogBufferSize logged
  rw [syslogRead, if_neg (by simp [holds.ready]; omega)]
  simp only [ringbufLen, holds.holds.len_eq, window_length]
  have len_eq : (if size ≤ min syslogBufferSize logged.length then size - 1
      else min syslogBufferSize logged.length) =
      min (size - 1) (min syslogBufferSize logged.length) := by
    split_ifs <;> omega
  rw [len_eq]
  refine Prod.ext rfl (funext fun address => ?_)
  simp only [Function.update_apply]
  rw [syslogCopy_apply holds.holds dst 0 _ (by omega)]
  rcases Nat.lt_trichotomy address (min (size - 1) (min syslogBufferSize logged.length)) with
    inside | same | outside
  · rw [if_neg inside.ne, if_pos (by omega), if_pos inside]
  · rw [if_pos same, if_neg (by omega), if_pos same]
  · rw [if_neg outside.ne', if_neg (by omega), if_neg (by omega), if_neg outside.ne']

end Syslog

/-- For every capacity that is a power of two and every sequence of calls, a ring buffer replies as
a bounded queue and its size queries report that queue; after any writes, reading the log returns
the first bytes of the last 4096 logged ones. -/
theorem ringbuf_queue {cap : ℕ} (power : ∃ k ≤ 31, cap = 2 ^ k) (storage : ℕ → UInt8) :
    (∀ calls : List RingbufCall,
      let run := ringbufCalls (ringbufInit storage cap) calls
      let queue := (queueCalls cap [] calls).2
      run.1 = (queueCalls cap [] calls).1 ∧ queue.length ≤ cap ∧
        ringbufLen run.2 = queue.length ∧ (ringbufIsEmpty run.2 = true ↔ queue = []) ∧
        (ringbufIsFull run.2 = true ↔ queue.length = cap) ∧
        ringbufAvailable run.2 = cap - queue.length) ∧
    ∀ (strs : List (List UInt8)) (dst : ℕ → UInt8) (size : ℕ),
      let log := strs.foldl syslogWrite (syslogInit storage)
      let logged := strs.flatMap cstring
      syslogLen log = min 4096 logged.length ∧
        (size = 0 → syslogRead log dst size = (0, dst)) ∧
        (0 < size → syslogRead log dst size =
          (min (size - 1) (min 4096 logged.length), fun address =>
            if address < min (size - 1) (min 4096 logged.length) then
              (logged.drop (logged.length - 4096)).getD address 0
            else if address = min (size - 1) (min 4096 logged.length) then 0
            else dst address)) := by
  refine ⟨fun calls => ?_, fun strs dst size => ?_⟩
  · obtain ⟨replies, holds, cap_eq⟩ := ringbufCalls_holds (ringbufInit_holds storage power) calls
    have bounded := holds.bounded
    have full := holds.isFull_iff
    have available := holds.available_eq
    rw [cap_eq] at bounded full available
    exact ⟨replies, bounded, holds.len_eq, holds.isEmpty_iff, full, available⟩
  · have holds := syslogWrites_holds (syslogInit_holds storage) strs
    rw [List.nil_append] at holds
    refine ⟨?_, fun none => ?_, fun positive => syslogRead_eq holds dst positive⟩
    · rw [syslogLen, if_pos holds.ready, ringbufLen, holds.holds.len_eq,
        CircularBuffer.length_window]
    · rw [none, syslogRead, if_pos (by simp)]

theorem ringbuf_queue_two :
    (ringbufCalls (ringbufInit (fun _ => 0) 2)
      [.push 7, .push 8, .overwrite 9, .push 1, .peek 1 0, .pop 0]).1 =
        [.pushed true, .pushed true, .done, .pushed false, .read true 9, .read true 8] :=
  ((ringbuf_queue ⟨1, by decide, rfl⟩ fun _ => 0).1 _).1

end ItWorksOS
