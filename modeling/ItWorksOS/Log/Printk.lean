import ItWorksOS.Klib.Printf
import ItWorksOS.Log.Syslog

/-!
# Kernel messages

A message is formatted into a local buffer of 1024 characters. The log reads it up to the null
character, the active console gets the length that `vsnprintf` returned.
-/

namespace ItWorksOS

/-- Size of the local buffer. -/
abbrev printkBufferSize : ℕ := 1024

/-- The log, and the cells that the active console was given. -/
structure PrintkState where
  log : Syslog
  console : Option (List (Option UInt8))

/-- Pass `len` cells from the buffer on to the active console. -/
def consoleWrite (console : Option (List (Option UInt8))) (buf : ℕ → Option UInt8) (len : ℕ) :
    Option (List (Option UInt8)) :=
  console.map (· ++ (List.range len).map buf)

/-- The bytes from an index on, as far as they were written. -/
def writtenBytes (buf : ℕ → Option UInt8) : ℕ → ℕ → List UInt8
  | _, 0 => []
  | i, size + 1 =>
      match buf i with
      | none => []
      | some c => c :: writtenBytes buf (i + 1) size

/-- Send a message to the log and to the console. -/
def vprintk (strings : UInt32 → List UInt8) (state : PrintkState) (fmt : List UInt8)
    (args : VaList) : ℕ × PrintkState :=
  let buffer := vsnprintf strings printkBufferSize fmt args
  (buffer.total,
    { log := syslogWrite state.log (writtenBytes buffer.buf 0 printkBufferSize)
      console := consoleWrite state.console buffer.buf buffer.total })

/-- The call appended one byte sequence to the log and passed the same bytes to the console, all of
them written into the local buffer. -/
def SameText (before after : PrintkState) : Prop :=
  ∃ (bytes : List UInt8) (received : List (Option UInt8)), before.console = some received ∧
    after.log = bytes.foldl syslogPutc before.log ∧
    after.console = some (received ++ bytes.map some)

theorem writtenBytes_eq {buf : ℕ → Option UInt8} {bytes : List UInt8} {start size : ℕ}
    (cells : ∀ i, buf (start + i) = bytes[i]?) (fits : bytes.length ≤ size) :
    writtenBytes buf start size = bytes := by
  induction bytes generalizing start size with
  | nil =>
      cases size with
      | zero => rfl
      | succ size =>
          have first := cells 0
          rw [Nat.add_zero] at first
          simp only [writtenBytes, first, List.getElem?_nil]
  | cons c bytes induction =>
      cases size with
      | zero => cases fits
      | succ size =>
          have first := cells 0
          rw [Nat.add_zero] at first
          simp only [writtenBytes, first, List.getElem?_cons_zero]
          rw [induction (fun i => ?_) (Nat.le_of_succ_le_succ fits)]
          have next := cells (i + 1)
          rw [List.getElem?_cons_succ] at next
          rw [← next, Nat.add_assoc, Nat.add_comm 1 i]

/-- The log gets the text up to its end, to a null character or to the end of the buffer; the
console gets as many cells as the whole text has characters. -/
theorem vprintk_eq (strings : UInt32 → List UInt8) (state : PrintkState) (fmt : List UInt8)
    (args : VaList) :
    vprintk strings state fmt args =
      ((formatText strings fmt args).length % 2 ^ 32,
        { log := (cstring ((formatText strings fmt args).take 1023)).foldl syslogPutc state.log
          console := state.console.map (· ++
            (List.range ((formatText strings fmt args).length % 2 ^ 32)).map
              fun i => ((formatText strings fmt args).take 1023 ++ [0])[i]?) }) := by
  obtain ⟨cells, total⟩ := vsnprintf_eq strings (show 0 < printkBufferSize by decide) fmt args
  simp only [show printkBufferSize - 1 = 1023 from rfl] at cells
  have written : writtenBytes (vsnprintf strings printkBufferSize fmt args).buf 0
      printkBufferSize = (formatText strings fmt args).take 1023 ++ [0] := by
    refine writtenBytes_eq (fun i => ?_) ?_
    · rw [Nat.zero_add, cells]
    · rw [List.length_append, List.length_take, List.length_singleton]
      exact Nat.succ_le_succ (Nat.min_le_left _ _)
  simp only [vprintk, total, consoleWrite, written, syslogWrite_eq, cstring_append_null]
  rw [funext cells]

theorem syslogPutc_foldl_head {log : Syslog} (ready : log.ready = true) (bytes : List UInt8) :
    (bytes.foldl syslogPutc log).rb.head ≡ log.rb.head + bytes.length [MOD 2 ^ 32] := by
  induction bytes generalizing log with
  | nil => rfl
  | cons c bytes induction =>
      have put : (syslogPutc log c).ready = true ∧
          (syslogPutc log c).rb.head = (log.rb.head + 1) % 2 ^ 32 := by
        rw [syslogPutc, if_pos ready]
        refine ⟨ready, ?_⟩
        simp only [ringbufOverwrite]
        split_ifs <;> rfl
      refine (induction put.1).trans ?_
      rw [put.2, List.length_cons, Nat.add_comm bytes.length 1, ← Nat.add_assoc]
      exact (Nat.mod_modEq _ _).add_right _

/-- Log and console get the same text exactly when the length passed to the console is the number
of characters that the log gets. -/
theorem sameText_iff_length {strings : UInt32 → List UInt8} {state : PrintkState}
    {fmt : List UInt8} {args : VaList} {received : List (Option UInt8)}
    (ready : state.log.ready = true) (active : state.console = some received) :
    SameText state (vprintk strings state fmt args).2 ↔
      (formatText strings fmt args).length % 2 ^ 32 =
        (cstring ((formatText strings fmt args).take 1023)).length := by
  rw [vprintk_eq]
  generalize formatText strings fmt args = text
  have logged_le : (cstring (text.take 1023)).length ≤ 1023 :=
    (cstring_isPrefix _).length_le.trans (List.length_take_le _ _)
  constructor
  · rintro ⟨bytes, received', active', log_eq, console_eq⟩
    simp only [active, Option.map_some, Option.some.injEq] at active' console_eq
    subst active'
    have passed := congrArg List.length (List.append_cancel_left console_eq)
    rw [List.length_map, List.length_map, List.length_range] at passed
    have heads := congrArg (fun log => log.rb.head) log_eq
    have left := syslogPutc_foldl_head ready (cstring (text.take 1023))
    have right := syslogPutc_foldl_head ready bytes
    simp only at heads
    rw [heads] at left
    have congruent := (left.symm.trans right).add_left_cancel'
    have small : bytes.length < 2 ^ 32 := by
      rw [← passed]
      exact Nat.mod_lt _ (by decide)
    rw [passed]
    exact (congruent.eq_of_lt_of_lt (by omega) small).symm
  · intro same
    refine ⟨cstring (text.take 1023), received, active, rfl, ?_⟩
    simp only [active, Option.map_some, Option.some.injEq]
    congr 1
    refine List.ext_getElem (by rw [List.length_map, List.length_range, List.length_map, same])
      fun i left right => ?_
    rw [List.length_map] at right
    have prefix_eq := (cstring_isPrefix (text.take 1023)).getElem right
    have inside : i < (text.take 1023).length :=
      right.trans_le (cstring_isPrefix (text.take 1023)).length_le
    rw [List.getElem_map, List.getElem_map, List.getElem_range,
      List.getElem?_append_left inside, List.getElem?_eq_getElem inside, prefix_eq]

/-- A text below 4 GiB goes to both sinks exactly when it fits the local buffer and has no null
character. -/
theorem fits_iff {text : List UInt8} (small : text.length < 2 ^ 32) :
    text.length % 2 ^ 32 = (cstring (text.take 1023)).length ↔
      text.length ≤ 1023 ∧ (0 : UInt8) ∉ text := by
  have prefix_le := (cstring_isPrefix (text.take 1023)).length_le
  have take_length : (text.take 1023).length = min 1023 text.length := List.length_take
  rw [Nat.mod_eq_of_lt small]
  constructor
  · intro same
    have fits : text.length ≤ 1023 := by omega
    rw [List.take_of_length_le fits] at same
    exact ⟨fits, (length_cstring_eq_iff text).mp same.symm⟩
  · rintro ⟨fits, absent⟩
    rw [List.take_of_length_le fits]
    exact ((length_cstring_eq_iff text).mpr absent).symm

/-- With the log and a console registered, a message goes to both unchanged exactly when the length
of its text is the number of characters in front of the first null character and of the end of the
local buffer. Below 4 GiB: when it has at most 1023 characters, none of them null. -/
theorem vprintk_same_text_iff (strings : UInt32 → List UInt8) (fmt : List UInt8) (args : VaList)
    {state : PrintkState} (ready : state.log.ready = true) (active : state.console.isSome) :
    (SameText state (vprintk strings state fmt args).2 ↔
      (formatText strings fmt args).length % 2 ^ 32 =
        (cstring ((formatText strings fmt args).take 1023)).length) ∧
    ((formatText strings fmt args).length < 2 ^ 32 →
      (SameText state (vprintk strings state fmt args).2 ↔
        (formatText strings fmt args).length ≤ 1023 ∧
          (0 : UInt8) ∉ formatText strings fmt args)) := by
  obtain ⟨received, active⟩ := Option.isSome_iff_exists.mp active
  have same : SameText state (vprintk strings state fmt args).2 ↔ _ :=
    sameText_iff_length ready active
  exact ⟨same, fun small => same.trans (fits_iff small)⟩

/-- The characters of a message from the boot code. -/
theorem vprintk_same_text_iff_boot :
    SameText ⟨syslogInit fun _ => 0, some []⟩
      (vprintk (fun _ => []) ⟨syslogInit fun _ => 0, some []⟩
        (['%', 'd', '\n'].map charCode) fun _ => 12).2 := by
  refine ((vprintk_same_text_iff (fun _ => []) (['%', 'd', '\n'].map charCode) (fun _ => 12) rfl
    rfl).2 ?_).mpr ?_ <;> decide

/-- A message of 1100 characters: the console is given cells behind the local buffer. -/
theorem vprintk_reads_past_buffer :
    ¬ SameText ⟨syslogInit fun _ => 0, some []⟩
        (vprintk (fun _ => []) ⟨syslogInit fun _ => 0, some []⟩ (List.replicate 1100 (charCode 'a'))
          fun _ => 0).2 ∧
      ∃ passed, (vprintk (fun _ => []) ⟨syslogInit fun _ => 0, some []⟩
          (List.replicate 1100 (charCode 'a')) fun _ => 0).2.console = some passed ∧
        none ∈ passed := by
  have text (count : ℕ) : formatText (fun _ => []) (List.replicate count (charCode 'a'))
      (fun _ => 0) = List.replicate count (charCode 'a') := by
    induction count with
    | zero => rfl
    | succ count induction =>
        rw [List.replicate_succ, formatText.eq_def]
        simp only [induction]
        rw [if_neg (by decide), if_pos (by decide)]
  constructor
  · rw [sameText_iff_length rfl rfl, text, List.length_replicate]
    have := (cstring_isPrefix ((List.replicate 1100 (charCode 'a')).take 1023)).length_le
    rw [List.length_take] at this
    omega
  · rw [vprintk_eq, text, List.length_replicate]
    refine ⟨_, rfl, List.mem_append_right _
      (List.mem_map.mpr ⟨1099, List.mem_range.mpr (by decide), ?_⟩)⟩
    refine List.getElem?_eq_none ?_
    rw [List.length_append, List.length_take, List.length_singleton]
    omega

end ItWorksOS
