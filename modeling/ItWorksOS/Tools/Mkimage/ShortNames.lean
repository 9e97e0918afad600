import Mathlib.Data.List.TakeWhile
import ItWorksOS.Tools.Mkimage.Chains

/-!
# 8.3 names and directory entries

Where nothing overflows, the name bytes of a directory entry are the 8.3 form of the node name, and
the 8.3 form determines the name up to case. The bytes of a directory can be read back entry by
entry.
-/

namespace ItWorksOS

/-! ## The 8.3 form -/

/-- A letter, a digit, `-` or `_`. -/
def ShortNameChar (byte : UInt8) : Prop :=
  (48 ≤ byte.toNat ∧ byte.toNat ≤ 57) ∨ (65 ≤ byte.toNat ∧ byte.toNat ≤ 90) ∨
    (97 ≤ byte.toNat ∧ byte.toNat ≤ 122) ∨ byte.toNat = 45 ∨ byte.toNat = 95

/-- The bytes before the dot. -/
def shortNameBase (name : CString) : List UInt8 := name.takeWhile (· ≠ 46)

/-- The bytes after the dot. -/
def shortNameExtension (name : CString) : List UInt8 := (name.dropWhile (· ≠ 46)).drop 1

/-- A base of one to eight characters with an optional extension of one to three, and at most ten
characters in total. -/
structure ShortName (name : CString) : Prop where
  base_pos : 0 < (shortNameBase name).length
  base_le : (shortNameBase name).length ≤ 8
  extension_pos : 46 ∈ name → 0 < (shortNameExtension name).length
  extension_le : (shortNameExtension name).length ≤ 3
  chars : ∀ byte ∈ shortNameBase name ++ shortNameExtension name, ShortNameChar byte
  length_le : name.length ≤ 10

/-- Fill up with spaces. -/
def padded (width : ℕ) (bytes : List UInt8) : List UInt8 :=
  bytes ++ List.replicate (width - bytes.length) 32

/-- The 8.3 form of a name, in upper case. -/
def shortNameBytes (name : CString) : List UInt8 :=
  padded 8 ((shortNameBase name).map toupper) ++ padded 3 ((shortNameExtension name).map toupper)

theorem padded_length {width : ℕ} {bytes : List UInt8} (fits : bytes.length ≤ width) :
    (padded width bytes).length = width := by
  rw [padded, List.length_append, List.length_replicate]
  omega

theorem toupper_toNat (byte : UInt8) : (toupper byte).toNat =
    if 97 ≤ byte.toNat ∧ byte.toNat ≤ 122 then byte.toNat - 32 else byte.toNat := by
  rw [toupper]
  simp only [UInt8.le_iff_toNat_le]
  have bounds : (97 : UInt8).toNat = 97 ∧ (122 : UInt8).toNat = 122 := ⟨rfl, rfl⟩
  rw [bounds.1, bounds.2]
  split_ifs with lower
  · rw [UInt8.toNat_sub_of_le _ _ (UInt8.le_iff_toNat_le.mpr (by
      rw [show (32 : UInt8).toNat = 32 from rfl]
      omega))]
    rfl
  · rfl

theorem ShortNameChar.toupper {byte : UInt8} (char : ShortNameChar byte) :
    ShortNameChar (toupper byte) := by
  unfold ShortNameChar at *
  rw [toupper_toNat]
  split_ifs <;> omega

theorem ShortNameChar.ne {byte : UInt8} (char : ShortNameChar byte) {other : UInt8}
    (excluded : other = 0 ∨ other = 32 ∨ other = 46 ∨ other = 0xE5) : byte ≠ other := by
  rintro rfl
  rcases excluded with rfl | rfl | rfl | rfl <;> revert char <;> unfold ShortNameChar <;> decide

theorem toupper_toNat_space : toupper 32 = 32 := by decide

section ShortName

variable {name other : CString}

theorem ShortName.base_char (short : ShortName name) {byte : UInt8}
    (member : byte ∈ shortNameBase name) : ShortNameChar byte :=
  short.chars byte (List.mem_append_left _ member)

theorem ShortName.extension_char (short : ShortName name) {byte : UInt8}
    (member : byte ∈ shortNameExtension name) : ShortNameChar byte :=
  short.chars byte (List.mem_append_right _ member)

theorem shortName_split (name : CString) :
    name = shortNameBase name ++ name.dropWhile (· ≠ 46) :=
  List.takeWhile_append_dropWhile.symm

/-- A name without a dot is its base. -/
theorem shortName_dropWhile (name : CString) :
    (46 ∉ name ∧ name.dropWhile (· ≠ 46) = []) ∨
      46 ∈ name ∧ name.dropWhile (· ≠ 46) = 46 :: shortNameExtension name := by
  rw [shortNameExtension]
  cases rest : name.dropWhile (· ≠ 46) with
  | nil =>
      refine .inl ⟨fun member => ?_, rfl⟩
      rw [List.dropWhile_eq_nil_iff] at rest
      exact absurd rfl (of_decide_eq_true (rest 46 member))
  | cons dot extension =>
      have stopped := List.head_dropWhile_not (fun byte : UInt8 => decide (byte ≠ 46))
        (l := name) (by rw [rest]; exact List.cons_ne_nil _ _)
      simp only [rest, List.head_cons, decide_eq_false_iff_not, not_not] at stopped
      subst stopped
      refine .inr ⟨?_, rfl⟩
      rw [shortName_split name, rest]
      exact List.mem_append_right _ (List.mem_cons_self ..)

theorem overlay_zero {width : ℕ} {bytes : List UInt8} :
    overlay (List.replicate width 32) 0 bytes = padded width bytes := by
  rw [overlay, padded, List.take_zero, List.nil_append, Nat.zero_add, List.drop_replicate]

theorem padded_eleven {base : List UInt8} (base_le : base.length ≤ 8) :
    padded 11 base = padded 8 base ++ List.replicate 3 32 := by
  rw [padded, padded, List.append_assoc, List.replicate_append_replicate]
  congr 2
  omega

theorem overlay_padded {base : List UInt8} (extension : List UInt8) (base_le : base.length ≤ 8) :
    overlay (padded 11 base) 8 extension = padded 8 base ++ padded 3 extension := by
  have length : (padded 8 base).length = 8 := padded_length base_le
  rw [overlay, padded_eleven base_le, List.take_left' length, List.append_assoc,
    List.drop_append, List.drop_eq_nil_of_le (by omega), List.nil_append, length,
    Nat.add_sub_cancel_left, List.drop_replicate, ← padded.eq_1]

theorem map_toupper_padded (width : ℕ) (bytes : List UInt8) :
    (padded width bytes).map toupper = padded width (bytes.map toupper) := by
  rw [padded, padded, List.map_append, List.map_replicate, toupper_toNat_space, List.length_map]

/-- The name bytes of an entry are the 8.3 form. -/
theorem fatName_of_lengths (base_le : (shortNameBase name).length ≤ 8)
    (extension_le : (shortNameExtension name).length ≤ 3) (length_le : name.length ≤ 10) :
    fatName name = some (shortNameBytes name) := by
  rw [fatName, if_neg (by unfold fatNameLen; omega), List.span_eq_takeWhile_dropWhile,
    ← shortNameBase.eq_1, shortNameBytes, ← map_toupper_padded, ← map_toupper_padded,
    ← List.map_append]
  rcases shortName_dropWhile name with ⟨-, rest⟩ | ⟨-, rest⟩
  · have none : shortNameExtension name = [] := by
      rw [shortNameExtension, rest, List.drop_nil]
    rw [rest, none]
    simp only
    rw [overlay_zero, fatNameLen, padded_eleven base_le]
    rfl
  · rw [rest]
    simp only
    rw [if_neg (by unfold fatNameLen; omega), overlay_zero, fatNameLen, overlay_padded _ base_le]

theorem ShortName.fatName_eq (short : ShortName name) :
    fatName name = some (shortNameBytes name) :=
  fatName_of_lengths short.base_le short.extension_le short.length_le

theorem padded_inj {width : ℕ} {left right : List UInt8} (left_char : ∀ byte ∈ left, byte ≠ 32)
    (right_char : ∀ byte ∈ right, byte ≠ 32) (same : padded width left = padded width right) :
    left = right := by
  have stripped {bytes : List UInt8} (char : ∀ byte ∈ bytes, byte ≠ 32) :
      (padded width bytes).takeWhile (· ≠ 32) = bytes := by
    rw [padded, List.takeWhile_append_of_pos fun byte member => decide_eq_true (char byte member),
      List.takeWhile_replicate, if_neg (by decide), List.append_nil]
  rw [← stripped left_char, same, stripped right_char]

/-- Names with the same 8.3 form are equal up to case. -/
theorem ShortName.map_toupper_eq (short : ShortName name) (short' : ShortName other)
    (same : shortNameBytes name = shortNameBytes other) :
    name.map toupper = other.map toupper := by
  have not_space {bytes : List UInt8} (chars : ∀ byte ∈ bytes, ShortNameChar byte) :
      ∀ byte ∈ bytes.map toupper, byte ≠ 32 := by
    rw [List.forall_mem_map]
    exact fun byte member => (chars byte member).toupper.ne (.inr (.inl rfl))
  have length {name : CString} (short : ShortName name) :
      (padded 8 ((shortNameBase name).map toupper)).length = 8 :=
    padded_length (by rw [List.length_map]; exact short.base_le)
  obtain ⟨bases, extensions⟩ := List.append_inj same ((length short).trans (length short').symm)
  have base_eq := padded_inj (not_space fun _ => short.base_char)
    (not_space fun _ => short'.base_char) bases
  have extension_eq := padded_inj (not_space fun _ => short.extension_char)
    (not_space fun _ => short'.extension_char) extensions
  have extension_length := congrArg List.length extension_eq
  rw [List.length_map, List.length_map] at extension_length
  rw [shortName_split name, shortName_split other, List.map_append, List.map_append, base_eq]
  rcases shortName_dropWhile name with ⟨no_dot, rest⟩ | ⟨dot, rest⟩ <;>
    rcases shortName_dropWhile other with ⟨no_dot', rest'⟩ | ⟨dot', rest'⟩
  · rw [rest, rest']
  · have := short'.extension_pos dot'
    rw [← extension_length, shortNameExtension, rest] at this
    cases this
  · have := short.extension_pos dot
    rw [extension_length, shortNameExtension, rest'] at this
    cases this
  · rw [rest, rest', List.map_cons, List.map_cons, extension_eq]

theorem ShortName.bytes_length (short : ShortName name) : (shortNameBytes name).length = 11 := by
  rw [shortNameBytes, List.length_append,
    padded_length (by rw [List.length_map]; exact short.base_le),
    padded_length (by rw [List.length_map]; exact short.extension_le)]

/-- The 8.3 form starts with a character. -/
theorem ShortName.bytes_head (short : ShortName name) :
    ∃ byte rest, shortNameBytes name = byte :: rest ∧ ShortNameChar byte := by
  obtain ⟨byte, rest, base_eq⟩ := List.exists_cons_of_length_pos short.base_pos
  refine ⟨toupper byte, _, by rw [shortNameBytes, base_eq]; rfl, ?_⟩
  exact (short.base_char (base_eq ▸ List.mem_cons_self ..)).toupper

end ShortName

/-! ## The name of an entry -/

/-- One to eight ASCII characters, optionally followed by a dot and one to three more. -/
structure EightDotThree (name : CString) : Prop where
  base_pos : 0 < (shortNameBase name).length
  base_le : (shortNameBase name).length ≤ 8
  extension_pos : 46 ∈ name → 0 < (shortNameExtension name).length
  extension_le : (shortNameExtension name).length ≤ 3
  chars : ∀ byte ∈ shortNameBase name ++ shortNameExtension name,
    byte ≠ 0 ∧ byte ≠ 46 ∧ byte.toNat < 128

/-- `fat32_create_entry` stores the 8.3 form of a name and stays inside its arrays exactly when the
name, which still has its dot, fits the array `name` with a terminating NUL. -/
theorem fat32CreateEntry_name_iff {node : FsNode} (form : EightDotThree node.name) :
    ((fat32CreateEntry node).map FatDirEntry.name = some (shortNameBytes node.name) ∧
        FatNameInBounds node.name) ↔
      node.name.length ≤ 10 := by
  constructor
  · rintro ⟨-, bounds⟩
    have copied := bounds _ (List.mem_cons_self ..)
    unfold fatNameLen at copied
    omega
  · intro length_le
    have named := fatName_of_lengths form.base_le form.extension_le length_le
    refine ⟨?_, (fatName_isSome_iff node.name).mp (by rw [named]; rfl)⟩
    cases node <;> simp only [FsNode.name] at named <;> rw [fat32CreateEntry, named] <;> rfl

/-- The name `kernel.bin`. -/
theorem fat32CreateEntry_name_kernel :
    (fat32CreateEntry (.file [107, 101, 114, 110, 101, 108, 46, 98, 105, 110] 3 [] 0)).map
      FatDirEntry.name = some [75, 69, 82, 78, 69, 76, 32, 32, 66, 73, 78] := by
  have form : EightDotThree
      (FsNode.file [107, 101, 114, 110, 101, 108, 46, 98, 105, 110] 3 [] 0).name :=
    ⟨by decide, by decide, by decide, by decide,
      by simp [FsNode.name, shortNameBase, shortNameExtension]⟩
  have stored := ((fat32CreateEntry_name_iff form).mpr (by decide)).1
  rw [stored]
  decide

/-- The `strcpy` of the name `ABCDEFGH.TXT` writes two bytes past the array. -/
theorem fat32CreateEntry_overflows :
    ∃ node : FsNode, EightDotThree node.name ∧
      ¬ ((fat32CreateEntry node).map FatDirEntry.name = some (shortNameBytes node.name) ∧
        FatNameInBounds node.name) :=
  ⟨.file [65, 66, 67, 68, 69, 70, 71, 72, 46, 84, 88, 84] 3 [] 0,
    ⟨by decide, by decide, by decide, by decide,
      by simp [FsNode.name, shortNameBase, shortNameExtension]⟩, fun stored => by
      revert stored
      decide⟩

/-! ## The entries of a directory -/

section Entry

variable {entry : FatDirEntry} {mem : ByteMemory} {address : ℕ}

theorem FatDirEntry.bytes_length (named : entry.name.length = 11) : entry.bytes.length = 32 := by
  simp [FatDirEntry.bytes, named, le16, le32]

/-- The fields of an entry that lies in memory. -/
theorem FatDirEntry.holds_fields (named : entry.name.length = 11)
    (held : Holds mem address entry.bytes) :
    Holds mem address entry.name ∧ mem (address + 11) = entry.attr ∧
      readLe16 mem (address + 20) = UInt16.ofNat (entry.cluster / 2 ^ 16) ∧
      readLe16 mem (address + 26) = UInt16.ofNat entry.cluster ∧
      readLe32 mem (address + 28) = UInt32.ofNat entry.fileSize := by
  have two (value : UInt16) : (le16 value).length = 2 := rfl
  simp only [FatDirEntry.bytes, holds_append, holds_le16_iff, holds_le32_iff, List.length_append,
    named, two, List.length_replicate, List.length_cons, List.length_nil] at held
  obtain ⟨⟨⟨⟨⟨⟨name, attr⟩, -⟩, high⟩, -⟩, low⟩, size⟩ := held
  exact ⟨name, attr 0 (Nat.succ_pos _), high, low, size⟩

/-- The bytes of the entries lie one after the other. -/
theorem holds_flatMap {entries : List FatDirEntry}
    (named : ∀ entry ∈ entries, entry.name.length = 11)
    (held : Holds mem address (entries.flatMap FatDirEntry.bytes)) {j : ℕ}
    (at_j : entries[j]? = some entry) : Holds mem (address + 32 * j) entry.bytes := by
  induction entries generalizing address j with
  | nil => cases at_j
  | cons first entries induction =>
      rw [List.flatMap_cons, holds_append, FatDirEntry.bytes_length (named first (by simp))] at held
      cases j with
      | zero =>
          obtain rfl := Option.some.inj at_j
          exact held.1
      | succ j =>
          rw [Nat.mul_succ, Nat.add_comm (32 * j), ← Nat.add_assoc]
          exact induction (fun entry member => named entry (List.mem_cons_of_mem _ member))
            held.2 at_j

end Entry

end ItWorksOS
