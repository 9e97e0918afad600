import ItWorksOS.Tools.Mkimage.Tree

/-!
# Directory entry names of `tools/mkimage`

`fat32_create_entry` turns a node name into 11 bytes, with two buffers of that length on the stack.
-/

namespace ItWorksOS

/-- `FAT_NAME_LEN`. -/
def fatNameLen : ℕ := 11

/-- `memcpy` into a byte array at an offset. -/
def overlay (buffer : List UInt8) (offset : ℕ) (bytes : List UInt8) : List UInt8 :=
  buffer.take offset ++ bytes ++ buffer.drop (offset + bytes.length)

/-- `toupper` in the C locale. -/
def toupper (byte : UInt8) : UInt8 := if 97 ≤ byte ∧ byte ≤ 122 then byte - 32 else byte

/-- The name bytes of `fat32_create_entry`. There is no result when `strcpy` or `memcpy` would write
past the 11-byte buffers. -/
def fatName (name : CString) : Option (List UInt8) :=
  if fatNameLen ≤ name.length then none
  else
    match name.span (· ≠ 46) with
    | (base, []) => some ((overlay (List.replicate fatNameLen 32) 0 base).map toupper)
    | (base, _ :: extension) =>
        if fatNameLen < 8 + extension.length then none
        else
          some ((overlay (overlay (List.replicate fatNameLen 32) 0 base) 8 extension).map toupper)

/-- The writes of `strcpy` and `memcpy` to the arrays `name` and `tmp`: first index and number of
bytes. The `strcpy` writes the terminating NUL as well. -/
def fatNameWrites (name : CString) : List (ℕ × ℕ) :=
  (0, name.length + 1) ::
    match name.span (· ≠ 46) with
    | (base, []) => [(0, base.length)]
    | (base, _ :: extension) => [(0, base.length), (8, extension.length)]

/-- All writes stay inside the arrays. -/
def FatNameInBounds (name : CString) : Prop :=
  ∀ write ∈ fatNameWrites name, write.1 + write.2 ≤ fatNameLen

instance (name : CString) : Decidable (FatNameInBounds name) :=
  inferInstanceAs (Decidable (∀ write ∈ fatNameWrites name, write.1 + write.2 ≤ fatNameLen))

/-- The name bytes are defined exactly when nothing is written past the arrays. -/
theorem fatName_isSome_iff (name : CString) : (fatName name).isSome ↔ FatNameInBounds name := by
  have base_le : (name.takeWhile (· ≠ 46)).length ≤ name.length :=
    (List.takeWhile_prefix _).length_le
  rw [fatName, FatNameInBounds, fatNameWrites, List.span_eq_takeWhile_dropWhile, fatNameLen]
  split_ifs with long
  · simp only [Option.isSome_none, Bool.false_eq_true, List.forall_mem_cons, false_iff, not_and]
    omega
  · cases name.dropWhile (· ≠ 46) with
    | nil =>
        simp only [Option.isSome_some, List.forall_mem_cons, true_iff]
        exact ⟨by omega, by omega, List.forall_mem_nil _⟩
    | cons dot extension =>
        simp only [List.forall_mem_cons]
        split_ifs with wide
        · simp only [Option.isSome_none, Bool.false_eq_true, false_iff]
          omega
        · simp only [Option.isSome_some, true_iff]
          exact ⟨by omega, by omega, by omega, List.forall_mem_nil _⟩

theorem FatNameInBounds.length_lt {name : CString} (bounds : FatNameInBounds name) :
    name.length < fatNameLen := by
  have copied := bounds _ (List.mem_cons_self ..)
  simp only at copied
  omega

/-! ## The name bytes -/

theorem length_overlay {buffer bytes : List UInt8} {offset : ℕ}
    (fits : offset + bytes.length ≤ buffer.length) :
    (overlay buffer offset bytes).length = buffer.length := by
  rw [overlay, List.length_append, List.length_append, List.length_take, List.length_drop]
  omega

theorem overlay_cons (byte : UInt8) (buffer : List UInt8) (offset : ℕ) (bytes : List UInt8) :
    overlay (byte :: buffer) (offset + 1) bytes = byte :: overlay buffer offset bytes := by
  rw [overlay, overlay, List.take_succ_cons, Nat.add_right_comm, List.drop_succ_cons]
  rfl

/-- First byte of the name bytes: the first byte of the name, unless its base is empty. -/
def fatNameFirst : CString → UInt8
  | [] => 32
  | byte :: _ => if byte = 46 then 32 else toupper byte

/-- The name bytes fill the field of the entry. -/
theorem fatName_cons {name : CString} {bytes : List UInt8} (named : fatName name = some bytes) :
    ∃ rest, bytes = fatNameFirst name :: rest ∧ bytes.length = fatNameLen := by
  have short := ((fatName_isSome_iff name).mp (by rw [named]; rfl)).length_lt
  have base_le : (name.takeWhile (· ≠ 46)).length ≤ name.length :=
    (List.takeWhile_prefix _).length_le
  have based : (overlay (List.replicate fatNameLen 32) 0 (name.takeWhile (· ≠ 46))).length =
      fatNameLen := by
    rw [length_overlay (by rw [List.length_replicate]; omega), List.length_replicate]
  obtain ⟨byte, tail, based_eq, first⟩ : ∃ byte tail,
      overlay (List.replicate fatNameLen 32) 0 (name.takeWhile (· ≠ 46)) = byte :: tail ∧
        toupper byte = fatNameFirst name := by
    cases name with
    | nil => exact ⟨32, _, rfl, rfl⟩
    | cons byte name =>
        rw [List.takeWhile_cons, fatNameFirst]
        by_cases dot : byte = 46
        · rw [if_neg (by simp [dot]), if_pos dot]
          exact ⟨32, _, rfl, rfl⟩
        · rw [if_pos (by simp [dot]), if_neg dot]
          exact ⟨byte, _, rfl, rfl⟩
  rw [fatName, if_neg (by omega), List.span_eq_takeWhile_dropWhile] at named
  cases rest : name.dropWhile (· ≠ 46) with
  | nil =>
      simp only [rest, Option.some.injEq] at named
      rw [← named, List.length_map, based, based_eq, List.map_cons, first]
      exact ⟨_, rfl, rfl⟩
  | cons dot extension =>
      simp only [rest] at named
      split_ifs at named with wide
      rw [Option.some.injEq] at named
      rw [← named, List.length_map, length_overlay (by rw [based]; omega), based, based_eq,
        overlay_cons, List.map_cons, first]
      exact ⟨_, rfl, rfl⟩

end ItWorksOS
