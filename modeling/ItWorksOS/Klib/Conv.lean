import ItWorksOS.Foundation.ByteMemory
import ItWorksOS.Klib.Endian
import ItWorksOS.Klib.Printf

/-!
# Number conversion of `klib/conv.c`

A 32-bit pattern is written as a null-terminated numeral and read back with 32-bit arithmetic. The
numerals are those that formatted output prints.
-/

namespace ItWorksOS

/-- `CONV_BASE_10`. -/
abbrev convBase10 : ℕ := 10

/-- `CONV_MAX_CHARS_BASE_2` to `CONV_MAX_CHARS_BASE_16`, by base. -/
def convMaxChars : List (ℕ × ℕ) := [(2, 33), (8, 12), (10, 12), (16, 9)]

/-- The character of a digit. -/
def convDigit (remainder : ℕ) : UInt8 :=
  if 9 < remainder then (remainder - 10) + (charCode 'A').toNat |>.toUInt8
  else remainder + (charCode '0').toNat |>.toUInt8

/-- The part of `conv_itoa` behind the sign. In base 1 the digit loop does not end; in larger bases
there are at most 32 digits. -/
def convItoaUnsigned (mem : ByteMemory) (start : ℕ) (n : UInt32) (base : ℕ) : Option ByteMemory :=
  if n = 0 then some ((mem.write8 start (charCode '0')).write8 (start + 1) 0)
  else
    match Numeral.storeDigits convDigit base 32 mem start n.toNat with
    | none => none
    | some (stored, ptr) =>
        let digits := (ptr - start) % 2 ^ 8
        some (Numeral.reverseRounds (ByteMemory.write8 stored ptr 0) start digits (digits / 2))

/-- `conv_itoa`, for the bits of a signed value. -/
def convItoa (mem : ByteMemory) (str : ℕ) (value : UInt32) (base : ℕ) : Option ByteMemory :=
  if base = convBase10 ∧ 2 ^ 31 ≤ value.toNat then
    convItoaUnsigned (mem.write8 str (charCode '-')) (str + 1) (-value) base
  else convItoaUnsigned mem str value base

/-- The value of a character as a digit, or 255. -/
def convDigitValue (c : UInt8) : ℕ :=
  if charCode '0' ≤ c ∧ c ≤ charCode '9' then c.toNat - (charCode '0').toNat
  else if charCode 'A' ≤ c ∧ c ≤ charCode 'F' then c.toNat - (charCode 'A').toNat + 10
  else if charCode 'a' ≤ c ∧ c ≤ charCode 'f' then c.toNat - (charCode 'a').toNat + 10
  else 255

/-- The loop of `conv_atoi`, with the bits of `result`; there is none when the loop takes more
iterations than the fuel. -/
def convAtoiLoop (mem : ByteMemory) (base : ℕ) : ℕ → ℕ → UInt32 → Option UInt32
  | 0, _, _ => none
  | fuel + 1, ptr, result =>
      if mem ptr = 0 then some result
      else if base ≤ convDigitValue (mem ptr) then some result
      else
        convAtoiLoop mem base fuel (ptr + 1)
          (result * UInt32.ofNat base + UInt32.ofNat (convDigitValue (mem ptr)))

/-- `conv_atoi`, with the bits of the signed result. -/
def convAtoi (fuel : ℕ) (mem : ByteMemory) (str base : ℕ) : Option UInt32 :=
  if mem str = charCode '-' then (convAtoiLoop mem base fuel (str + 1) 0).map (- ·)
  else convAtoiLoop mem base fuel str 0

/-! ## The numeral -/

/-- The sign of a value: bases other than 10 take its bits as an unsigned number. -/
def convSign (value : UInt32) (base : ℕ) : List UInt8 :=
  if base = convBase10 ∧ 2 ^ 31 ≤ value.toNat then [charCode '-'] else []

/-- The number behind the sign. -/
def convMagnitude (value : UInt32) (base : ℕ) : UInt32 :=
  if base = convBase10 ∧ 2 ^ 31 ≤ value.toNat then -value else value

/-- The canonical numeral of a value. -/
def convNumeral (value : UInt32) (base : ℕ) : List UInt8 :=
  convSign value base ++ (Numeral.digits base (convMagnitude value base).toNat).map convDigit

section Numeral

variable {base : ℕ}

theorem convDigit_eq (digit : ℕ) : convDigit digit = digitChar true digit := by
  rw [convDigit, digitChar]
  by_cases large : 9 < digit
  · rw [if_pos large, if_neg (by omega), Nat.add_comm]
    rfl
  · rw [if_neg large, if_pos (by omega), Nat.add_comm]

theorem digitChar_of_lt_ten (uppercase : Bool) {digit : ℕ} (small : digit < 10) :
    digitChar uppercase digit = digitChar true digit := by
  rw [digitChar, digitChar, if_pos small, if_pos small]

/-- A digit is read back as itself, and is neither a sign nor a null character. -/
theorem convDigitValue_convDigit : ∀ digit < 16, convDigitValue (convDigit digit) = digit ∧
    convDigit digit ≠ 0 ∧ convDigit digit ≠ charCode '-' := by
  decide

/-- The numeral of an unsigned number is written with a null character behind it. -/
theorem convItoaUnsigned_stored (base_ge : 2 ≤ base) (mem : ByteMemory) (start : ℕ) (n : UInt32) :
    ∃ after, convItoaUnsigned mem start n base = some after ∧
      Numeral.Stored mem after start ((Numeral.digits base n.toNat).map convDigit ++ [0]) := by
  rw [convItoaUnsigned]
  split_ifs with zero
  · refine ⟨_, rfl, ?_⟩
    rw [zero]
    exact (((Numeral.Stored.nil mem start).update_behind (charCode '0')).concat.update_behind
      0).concat
  · have positive : n.toNat ≠ 0 := fun same => zero (UInt32.toNat_inj.mp same)
    have small := toNat_lt_base_pow n base_ge (le_refl 32)
    have few := (Nat.digits_length_le_iff base_ge n.toNat).mpr small
    obtain ⟨after, stored_eq, stored⟩ :=
      Numeral.storeDigits_stored convDigit base_ge small mem start
    have reversed := (stored.update_behind 0).reverse
    rw [List.length_map] at reversed
    simp only [stored_eq, Nat.add_sub_cancel_left]
    refine ⟨_, rfl, ?_⟩
    rw [ByteMemory.write8, Nat.mod_eq_of_lt (by omega), Numeral.digits_of_ne_zero positive,
      List.map_reverse]
    refine Numeral.Stored.concat ?_
    rw [List.length_reverse, List.length_map]
    exact reversed

/-- `conv_itoa` writes the numeral and a null character. -/
theorem convItoa_stored (base_ge : 2 ≤ base) (mem : ByteMemory) (str : ℕ) (value : UInt32) :
    ∃ after, convItoa mem str value base = some after ∧
      Numeral.Stored mem after str (convNumeral value base ++ [0]) := by
  rw [convItoa, convNumeral, convSign, convMagnitude]
  split_ifs with negative
  · obtain ⟨after, written, stored⟩ := convItoaUnsigned_stored base_ge
      (mem.write8 str (charCode '-')) (str + 1) (-value)
    exact ⟨after, written, stored.cons⟩
  · exact convItoaUnsigned_stored base_ge mem str value

/-- In base 10 a number behind a sign is at most `2 ^ 31`. -/
theorem convMagnitude_lt (value : UInt32) : (convMagnitude value 10).toNat < 10 ^ 10 := by
  have := (convMagnitude value 10).toNat_lt
  omega

theorem convNumeral_length_le (base_ge : 2 ≤ base) (value : UInt32) {chars : ℕ}
    (listed : (base, chars) ∈ convMaxChars) :
    (convNumeral value base ++ [0]).length ≤ chars := by
  have bounded := (convMagnitude value base).toNat_lt
  have few (count : ℕ) (positive : 0 < count) (enough : 2 ^ 32 ≤ base ^ count) :=
    Numeral.digits_length_le base_ge positive (bounded.trans_le enough)
  have unsigned (other : base ≠ convBase10) : convSign value base = [] := by
    rw [convSign, if_neg (fun negative => other negative.1)]
  simp only [convNumeral, List.length_append, List.length_map, List.length_singleton]
  simp only [convMaxChars, List.mem_cons, Prod.mk.injEq, List.not_mem_nil, or_false] at listed
  rcases listed with ⟨rfl, rfl⟩ | ⟨rfl, rfl⟩ | ⟨rfl, rfl⟩ | ⟨rfl, rfl⟩
  · have := few 32 (by decide) (by decide)
    rw [unsigned (by decide), List.length_nil]
    omega
  · have := few 11 (by decide) (by decide)
    rw [unsigned (by decide), List.length_nil]
    omega
  · have := Numeral.digits_length_le base_ge (by decide : 0 < 10) (convMagnitude_lt value)
    have sign : (convSign value 10).length ≤ 1 := by
      rw [convSign]
      split_ifs <;> decide
    omega
  · have := few 8 (by decide) (by decide)
    rw [unsigned (by decide), List.length_nil]
    omega

/-! ## Reading back -/

/-- `conv_atoi` evaluates the digits up to the null character. -/
theorem convAtoiLoop_digits (base_le : base ≤ 16) {mem : ByteMemory} {digits : List ℕ}
    (small : ∀ digit ∈ digits, digit < base) {ptr fuel : ℕ}
    (held : Holds mem ptr (digits.map convDigit ++ [0])) (fueled : digits.length < fuel)
    (result : ℕ) :
    convAtoiLoop mem base fuel ptr (UInt32.ofNat result) =
      some (UInt32.ofNat (digits.foldl (fun result digit => result * base + digit) result)) := by
  induction digits generalizing ptr fuel result with
  | nil =>
      obtain ⟨fuel, rfl⟩ : ∃ left, fuel = left + 1 := ⟨fuel - 1, by simp at fueled; omega⟩
      have null : mem ptr = 0 := held 0 (Nat.succ_pos 0)
      rw [convAtoiLoop, if_pos null, List.foldl_nil]
  | cons digit digits induction =>
      obtain ⟨fuel, rfl⟩ : ∃ left, fuel = left + 1 := ⟨fuel - 1, by simp at fueled; omega⟩
      rw [List.forall_mem_cons] at small
      rw [List.map_cons, List.cons_append, ← List.singleton_append, holds_append] at held
      have first : mem ptr = convDigit digit := held.1 0 (Nat.succ_pos 0)
      obtain ⟨same, nonnull, -⟩ := convDigitValue_convDigit digit (by omega)
      rw [convAtoiLoop, first, same, if_neg nonnull, if_neg (by omega), ← UInt32.ofNat_mul,
        ← UInt32.ofNat_add, List.foldl_cons]
      exact induction small.2 held.2 (by simpa using fueled) _

/-- The numeral of a value is read back as the value. -/
theorem convAtoi_numeral (base_ge : 2 ≤ base) (base_le : base ≤ 16) {mem : ByteMemory}
    {str fuel : ℕ} {value : UInt32} (held : Holds mem str (convNumeral value base ++ [0]))
    (fueled : (convNumeral value base).length < fuel) :
    convAtoi fuel mem str base = some value := by
  have canonical := Numeral.digits_canonical base_ge (convMagnitude value base).toNat
  have read (ptr : ℕ)
      (enough : (Numeral.digits base (convMagnitude value base).toNat).length < fuel)
      (held : Holds mem ptr
        ((Numeral.digits base (convMagnitude value base).toNat).map convDigit ++ [0])) :
      convAtoiLoop mem base fuel ptr 0 = some (convMagnitude value base) := by
    have loop := convAtoiLoop_digits base_le canonical.lt held enough 0
    rwa [Numeral.foldl_digits, UInt32.ofNat_toNat] at loop
  rw [convNumeral, List.length_append, List.length_map] at fueled
  rw [convNumeral, List.append_assoc, holds_append] at held
  rw [convAtoi]
  by_cases negative : base = convBase10 ∧ 2 ^ 31 ≤ value.toNat
  · have sign : convSign value base = [charCode '-'] := if_pos negative
    have magnitude : convMagnitude value base = -value := if_pos negative
    rw [sign] at held fueled
    have first : mem str = charCode '-' := held.1 0 (Nat.succ_pos 0)
    rw [if_pos first, read (str + 1) (by omega) held.2, magnitude, Option.map_some, neg_neg]
  · have sign : convSign value base = [] := if_neg negative
    have magnitude : convMagnitude value base = value := if_neg negative
    rw [sign, List.length_nil] at held fueled
    obtain ⟨digit, rest, digits_eq⟩ := List.exists_cons_of_ne_nil canonical.nonempty
    have first : mem str = convDigit digit := by
      have head := held.2 0 (by rw [digits_eq]; exact Nat.succ_pos _)
      simpa [digits_eq] using head
    have digit_lt := canonical.lt digit (digits_eq ▸ List.mem_cons_self ..)
    rw [if_neg (by rw [first]; exact (convDigitValue_convDigit digit (by omega)).2.2),
      read str (by omega) held.2, magnitude]

/-- `conv_itoa` writes the canonical numeral within the documented bounds, and `conv_atoi` reads the
value back. -/
theorem convItoa_roundTrip (base_ge : 2 ≤ base) (base_le : base ≤ 16) (mem : ByteMemory) (str : ℕ)
    (value : UInt32) :
    ∃ after, convItoa mem str value base = some after ∧
      Numeral.Stored mem after str (convNumeral value base ++ [0]) ∧
      (∃ digits, Numeral.Canonical base digits ∧
        convNumeral value base = convSign value base ++ digits.map convDigit) ∧
      (∀ chars, (base, chars) ∈ convMaxChars → (convNumeral value base ++ [0]).length ≤ chars) ∧
      ∀ fuel, (convNumeral value base).length < fuel →
        convAtoi fuel after str base = some value := by
  obtain ⟨after, written, stored⟩ := convItoa_stored base_ge mem str value
  exact ⟨after, written, stored, ⟨_, Numeral.digits_canonical base_ge _, rfl⟩,
    fun chars => convNumeral_length_le base_ge value,
    fun fuel => convAtoi_numeral base_ge base_le stored.inside⟩

/-- The smallest value, in base 10. -/
theorem convItoa_roundTrip_min :
    ∃ after, convItoa (fun _ => 0) 0 (2 ^ 31) 10 = some after ∧
      convAtoi 12 after 0 10 = some (2 ^ 31) := by
  obtain ⟨after, written, -, -, -, read⟩ :=
    convItoa_roundTrip (by decide : 2 ≤ 10) (by decide) (fun _ => 0) 0 (2 ^ 31)
  refine ⟨after, written, read 12 ?_⟩
  have listed : (10, 12) ∈ convMaxChars := by decide
  have bounded := convNumeral_length_le (by decide) (2 ^ 31) listed
  rw [List.length_append, List.length_singleton] at bounded
  omega

/-! ## Formatted output -/

/-- The conversions of formatted output that print the numerals of `conv_itoa`, with the base. -/
def convConversions : List (UInt8 × ℕ) :=
  [(charCode 'd', 10), (charCode 'X', 16), (charCode 'o', 8)]

theorem intText_eq (value : UInt32) : intText value = convNumeral value 10 := by
  have chars (n : UInt32) : uintText n 10 false = (Numeral.digits 10 n.toNat).map convDigit := by
    refine List.map_congr_left fun digit member => ?_
    have small := Numeral.digits_lt (by decide) member
    rw [convDigit_eq, digitChar_of_lt_ten false small]
  rw [intText, convNumeral, convSign, convMagnitude]
  by_cases negative : 2 ^ 31 ≤ value.toNat
  · rw [if_pos negative, if_pos ⟨rfl, negative⟩, if_pos ⟨rfl, negative⟩, chars,
      List.singleton_append]
  · rw [if_neg negative, if_neg (fun both => negative both.2),
      if_neg (fun both => negative both.2), chars, List.nil_append]

theorem uintText_eq (value : UInt32) (uppercase : Bool) {base : ℕ} (other : base ≠ convBase10)
    (small : uppercase = true ∨ 2 ≤ base ∧ base ≤ 10) :
    uintText value base uppercase = convNumeral value base := by
  have unsigned : ¬ (base = convBase10 ∧ 2 ^ 31 ≤ value.toNat) := fun both => other both.1
  rw [uintText, convNumeral, convSign, convMagnitude, if_neg unsigned, if_neg unsigned,
    List.nil_append]
  refine List.map_congr_left fun digit member => ?_
  rw [convDigit_eq]
  rcases small with rfl | ⟨base_ge, base_le⟩
  · rfl
  · have digit_lt := Numeral.digits_lt base_ge member
    exact digitChar_of_lt_ten uppercase (by omega)

/-- Formatted output prints what `conv_itoa` writes, and both stay inside their arrays of digits. -/
theorem formatConversion_eq_convItoa {conversion : UInt8}
    (shared : (conversion, base) ∈ convConversions) (strings : UInt32 → List UInt8)
    (args : VaList) (b : PrintfBuffer) (mem : ByteMemory) (str : ℕ) :
    ∃ text after, convItoa mem str (args 0) base = some after ∧
      Numeral.Stored mem after str (text ++ [0]) ∧ (0 : UInt8) ∉ text ∧
      formatConversion strings conversion args b = (args.rest, text.foldl bufferPutc b) ∧
      (∀ chars, (base, chars) ∈ convMaxChars → (text ++ [0]).length ≤ chars) ∧
      ∀ uppercase (n : UInt32),
        (Numeral.storeDigits (digitChar uppercase) base 64 (fun _ => 0) 0 n.toNat).isSome := by
  have bases : 2 ≤ base ∧ base ≤ 16 := by
    simp only [convConversions, List.mem_cons, Prod.mk.injEq, List.not_mem_nil, or_false] at shared
    omega
  obtain ⟨after, written, stored⟩ := convItoa_stored bases.1 mem str (args 0)
  refine ⟨convNumeral (args 0) base, after, written, stored, ?_, ?_,
    fun chars => convNumeral_length_le bases.1 (args 0), fun uppercase n => ?_⟩
  · rw [convNumeral, List.mem_append, not_or]
    constructor
    · rw [convSign]
      split_ifs <;> decide
    · rw [List.mem_map]
      rintro ⟨digit, member, null⟩
      have small := Numeral.digits_lt bases.1 member
      exact (convDigitValue_convDigit digit (by omega)).2.1 null
  · rw [formatConversion_eq, conversionText]
    simp only [convConversions, List.mem_cons, Prod.mk.injEq, List.not_mem_nil, or_false] at shared
    rcases shared with ⟨rfl, rfl⟩ | ⟨rfl, rfl⟩ | ⟨rfl, rfl⟩
    · rw [← intText_eq]
      rfl
    · rw [← uintText_eq (args 0) true (by decide) (.inl rfl)]
      rfl
    · rw [← uintText_eq (args 0) false (by decide) (.inr (by decide))]
      rfl
  · obtain ⟨tmp, ran, -⟩ := Numeral.storeDigits_stored (digitChar uppercase) bases.1
      (toNat_lt_base_pow n bases.1 (by decide : 32 ≤ 64)) (fun _ => 0) 0
    rw [ran]
    rfl

/-- `%X` of all ones. -/
theorem formatConversion_eq_convItoa_ones :
    ∃ text after, convItoa (fun _ => 0) 0 0xFFFFFFFF 16 = some after ∧
      Numeral.Stored (fun _ => 0) after 0 (text ++ [0]) ∧
      formatConversion (fun _ => []) (charCode 'X') (fun _ => 0xFFFFFFFF)
        { buf := fun _ => none, size := 9, pos := 0, total := 0 } =
          (VaList.rest fun _ => 0xFFFFFFFF,
            text.foldl bufferPutc { buf := fun _ => none, size := 9, pos := 0, total := 0 }) := by
  obtain ⟨text, after, written, stored, -, printed, -⟩ :=
    formatConversion_eq_convItoa (by decide : (charCode 'X', 16) ∈ convConversions) (fun _ => [])
      (fun _ => 0xFFFFFFFF) { buf := fun _ => none, size := 9, pos := 0, total := 0 } (fun _ => 0) 0
  exact ⟨text, after, written, stored, printed⟩

end Numeral

end ItWorksOS
