import ItWorksOS.Foundation.Numeral
import ItWorksOS.Klib.String
import Mathlib.Logic.Function.Basic

/-!
# Formatted output

`vsnprintf` writes at most `size - 1` characters and a null character, and returns the length of
the whole text.
-/

namespace ItWorksOS

/-- The output of a call. Cells that the call has not written are `none`. -/
structure PrintfBuffer where
  buf : ℕ → Option UInt8
  size : ℕ
  pos : ℕ
  total : ℕ

/-- Count a character, and store it if there is room. -/
def bufferPutc (b : PrintfBuffer) (c : UInt8) : PrintfBuffer :=
  let b :=
    if 0 < b.size ∧ b.pos < b.size - 1 then
      { b with buf := Function.update b.buf b.pos (some c), pos := b.pos + 1 }
    else b
  { b with total := (b.total + 1) % 2 ^ 32 }

/-- Put the characters before the first null character. -/
def bufferPuts (b : PrintfBuffer) : List UInt8 → PrintfBuffer
  | [] => b
  | c :: str => if c = 0 then b else bufferPuts (bufferPutc b c) str

/-- Put the null character. -/
def bufferFinish (b : PrintfBuffer) : PrintfBuffer :=
  if 0 < b.size then
    if b.pos < b.size then { b with buf := Function.update b.buf b.pos (some 0) }
    else { b with buf := Function.update b.buf (b.size - 1) (some 0) }
  else b

/-- The character of a digit. -/
def digitChar (uppercase : Bool) (digit : ℕ) : UInt8 :=
  if digit < 10 then (charCode '0').toNat + digit |>.toUInt8
  else (charCode (if uppercase then 'A' else 'a')).toNat + (digit - 10) |>.toUInt8

/-- Reverse the first `len` characters of an array. -/
def reverse (str : ℕ → UInt8) (len : ℕ) : ℕ → UInt8 := Numeral.reverseRounds str 0 len (len / 2)

/-- Put a number, with the digits collected in an array of 64 characters. Digits that do not fit the
array would have no result. -/
def formatUint (b : PrintfBuffer) (value : UInt32) (base : ℕ) (uppercase : Bool) : PrintfBuffer :=
  if value = 0 then bufferPutc b (charCode '0')
  else
    match Numeral.storeDigits (digitChar uppercase) base 64 (fun _ => 0) 0 value.toNat with
    | none => b
    | some (tmp, i) => (List.range i).foldl (fun b j => bufferPutc b (reverse tmp i j)) b

/-- Put a signed decimal number. -/
def formatInt (b : PrintfBuffer) (value : UInt32) : PrintfBuffer :=
  if 2 ^ 31 ≤ value.toNat then formatUint (bufferPutc b (charCode '-')) (-value) 10 false
  else formatUint b value 10 false

/-- The arguments still to be read, one word each. -/
abbrev VaList := ℕ → UInt32

/-- The arguments behind the first one. -/
def VaList.rest (args : VaList) : VaList := fun i => args (i + 1)

/-- The text `(null)`. -/
def nullText : List UInt8 := ['(', 'n', 'u', 'l', 'l', ')'].map charCode

/-- Put one conversion. The strings give the memory from an address on. -/
def formatConversion (strings : UInt32 → List UInt8) (conversion : UInt8) (args : VaList)
    (b : PrintfBuffer) : VaList × PrintfBuffer :=
  if conversion = charCode '%' then (args, bufferPutc b (charCode '%'))
  else if conversion = charCode 'c' then (args.rest, bufferPutc b (args 0).toUInt8)
  else if conversion = charCode 's' then
    (args.rest, bufferPuts b (if args 0 = 0 then nullText else strings (args 0)))
  else if conversion = charCode 'd' ∨ conversion = charCode 'i' then
    (args.rest, formatInt b (args 0))
  else if conversion = charCode 'u' then (args.rest, formatUint b (args 0) 10 false)
  else if conversion = charCode 'x' then (args.rest, formatUint b (args 0) 16 false)
  else if conversion = charCode 'X' then (args.rest, formatUint b (args 0) 16 true)
  else if conversion = charCode 'o' then (args.rest, formatUint b (args 0) 8 false)
  else if conversion = charCode 'p' then
    (args.rest, formatUint (bufferPuts b (['0', 'x'].map charCode)) (args 0) 16 false)
  else (args, bufferPutc (bufferPutc b (charCode '%')) conversion)

/-- The loop over the format. -/
def vsnprintfLoop (strings : UInt32 → List UInt8) :
    List UInt8 → VaList → PrintfBuffer → PrintfBuffer
  | [], _, b => b
  | c :: fmt, args, b =>
      if c = 0 then b
      else if c ≠ charCode '%' then vsnprintfLoop strings fmt args (bufferPutc b c)
      else
        match fmt with
        | [] => b
        | conversion :: fmt =>
            if conversion = 0 then b
            else
              vsnprintfLoop strings fmt (formatConversion strings conversion args b).1
                (formatConversion strings conversion args b).2

/-- Format into a buffer of `size` characters that was not written before. -/
def vsnprintf (strings : UInt32 → List UInt8) (size : ℕ) (fmt : List UInt8) (args : VaList) :
    PrintfBuffer :=
  bufferFinish (vsnprintfLoop strings fmt args { buf := fun _ => none, size, pos := 0, total := 0 })

/-! ## The text -/

/-- The text of a number, which is its canonical numeral. -/
def uintText (value : UInt32) (base : ℕ) (uppercase : Bool) : List UInt8 :=
  (Numeral.digits base value.toNat).map (digitChar uppercase)

/-- The text of a signed number. -/
def intText (value : UInt32) : List UInt8 :=
  if 2 ^ 31 ≤ value.toNat then charCode '-' :: uintText (-value) 10 false
  else uintText value 10 false

/-- The text of one conversion, and the arguments behind it. -/
def conversionText (strings : UInt32 → List UInt8) (conversion : UInt8) (args : VaList) :
    VaList × List UInt8 :=
  if conversion = charCode '%' then (args, [charCode '%'])
  else if conversion = charCode 'c' then (args.rest, [(args 0).toUInt8])
  else if conversion = charCode 's' then
    (args.rest, cstring (if args 0 = 0 then nullText else strings (args 0)))
  else if conversion = charCode 'd' ∨ conversion = charCode 'i' then (args.rest, intText (args 0))
  else if conversion = charCode 'u' then (args.rest, uintText (args 0) 10 false)
  else if conversion = charCode 'x' then (args.rest, uintText (args 0) 16 false)
  else if conversion = charCode 'X' then (args.rest, uintText (args 0) 16 true)
  else if conversion = charCode 'o' then (args.rest, uintText (args 0) 8 false)
  else if conversion = charCode 'p' then
    (args.rest, ['0', 'x'].map charCode ++ uintText (args 0) 16 false)
  else (args, [charCode '%', conversion])

/-- The whole text of a format. -/
def formatText (strings : UInt32 → List UInt8) : List UInt8 → VaList → List UInt8
  | [], _ => []
  | c :: fmt, args =>
      if c = 0 then []
      else if c ≠ charCode '%' then c :: formatText strings fmt args
      else
        match fmt with
        | [] => []
        | conversion :: fmt =>
            if conversion = 0 then []
            else
              (conversionText strings conversion args).2 ++
                formatText strings fmt (conversionText strings conversion args).1

section Text

variable (strings : UInt32 → List UInt8) (b : PrintfBuffer)

theorem bufferPuts_eq (str : List UInt8) : bufferPuts b str = (cstring str).foldl bufferPutc b := by
  induction str generalizing b with
  | nil => rfl
  | cons c str induction =>
      rw [bufferPuts, cstring_cons]
      split_ifs
      · rw [List.foldl_nil]
      · rw [induction, List.foldl_cons]

/-- A 32-bit number has at most 32 digits. -/
theorem toNat_lt_base_pow (value : UInt32) {base room : ℕ} (base_ge : 2 ≤ base)
    (enough : 32 ≤ room) : value.toNat < base ^ room :=
  value.toNat_lt.trans_le
    ((Nat.pow_le_pow_left base_ge 32).trans (Nat.pow_le_pow_right (by omega) enough))

/-- The digits of a number fit the array, and are put in the order of its numeral. -/
theorem formatUint_eq (value : UInt32) {base : ℕ} (base_ge : 2 ≤ base) (uppercase : Bool) :
    formatUint b value base uppercase = (uintText value base uppercase).foldl bufferPutc b := by
  rw [formatUint, uintText]
  split_ifs with zero
  · rw [zero]
    rfl
  · have positive : value.toNat ≠ 0 := fun same => zero (UInt32.toNat_inj.mp same)
    obtain ⟨tmp, stored_eq, stored⟩ := Numeral.storeDigits_stored (digitChar uppercase) base_ge
      (toNat_lt_base_pow value base_ge (by decide : 32 ≤ 64)) (fun _ => 0) 0
    have reversed := stored.reverse.map_range
    simp only [List.length_reverse, List.length_map, Nat.zero_add] at reversed
    rw [stored_eq, Numeral.digits_of_ne_zero positive, List.map_reverse, ← reversed,
      List.foldl_map, Nat.zero_add]
    rfl

theorem formatInt_eq (value : UInt32) :
    formatInt b value = (intText value).foldl bufferPutc b := by
  rw [formatInt, intText]
  split_ifs
  · rw [formatUint_eq _ _ (by decide), List.foldl_cons]
  · rw [formatUint_eq _ _ (by decide)]

private theorem ite_text {b : PrintfBuffer} {selected : Prop} [Decidable selected]
    {left right : VaList × PrintfBuffer} {leftText rightText : VaList × List UInt8}
    (left_eq : left = (leftText.1, leftText.2.foldl bufferPutc b))
    (right_eq : right = (rightText.1, rightText.2.foldl bufferPutc b)) :
    (if selected then left else right) =
      ((if selected then leftText else rightText).1,
        (if selected then leftText else rightText).2.foldl bufferPutc b) := by
  split_ifs
  · exact left_eq
  · exact right_eq

theorem formatConversion_eq (conversion : UInt8) (args : VaList) :
    formatConversion strings conversion args b =
      ((conversionText strings conversion args).1,
        (conversionText strings conversion args).2.foldl bufferPutc b) := by
  have number (b : PrintfBuffer) {base : ℕ} (base_ge : 2 ≤ base) (uppercase : Bool) :
      (args.rest, formatUint b (args 0) base uppercase) =
        (args.rest, (uintText (args 0) base uppercase).foldl bufferPutc b) := by
    rw [formatUint_eq b _ base_ge]
  rw [formatConversion, conversionText]
  refine ite_text rfl (ite_text rfl (ite_text ?string (ite_text ?signed (ite_text ?unsigned
    (ite_text ?hexadecimal (ite_text ?uppercase (ite_text ?octal (ite_text ?pointer rfl))))))))
  case string => rw [bufferPuts_eq]
  case signed => rw [formatInt_eq]
  case unsigned => exact number b (by decide) false
  case hexadecimal => exact number b (by decide) false
  case uppercase => exact number b (by decide) true
  case octal => exact number b (by decide) false
  case pointer =>
      have hex : cstring (['0', 'x'].map charCode) = ['0', 'x'].map charCode := by decide
      rw [bufferPuts_eq, hex, List.foldl_append]
      exact number _ (by decide) false

/-- The loop puts the characters of the text one by one. -/
theorem vsnprintfLoop_eq (fmt : List UInt8) (args : VaList) :
    vsnprintfLoop strings fmt args b = (formatText strings fmt args).foldl bufferPutc b := by
  fun_induction vsnprintfLoop strings fmt args b with
  | case1 args b => rfl
  | case2 fmt args b =>
      rw [formatText.eq_def]
      simp only [if_true, List.foldl_nil]
  | case3 c fmt args b nonzero plain induction =>
      rw [induction, formatText.eq_def strings (c :: fmt)]
      simp only [if_neg nonzero, if_pos plain, List.foldl_cons]
  | case4 c args b nonzero percent =>
      rw [formatText, if_neg nonzero, if_neg percent, List.foldl_nil]
  | case5 c args b nonzero percent fmt =>
      rw [formatText, if_neg nonzero, if_neg percent]
      simp only [if_true, List.foldl_nil]
  | case6 c args b nonzero percent conversion fmt nonnull induction =>
      rw [formatConversion_eq] at induction
      rw [formatText, if_neg nonzero, if_neg percent]
      simp only [nonnull, if_false, List.foldl_append, formatConversion_eq, induction]

end Text

/-! ## The buffer -/

/-- The buffer has received the text: its first characters are stored, and all are counted. -/
structure PrintfBuffer.Received (b : PrintfBuffer) (text : List UInt8) : Prop where
  pos : b.pos = min text.length (b.size - 1)
  cells : ∀ i, b.buf i = if i < b.size - 1 then text[i]? else none
  total : b.total = text.length % 2 ^ 32

theorem bufferPutc_received {b : PrintfBuffer} {text : List UInt8} (received : b.Received text)
    (c : UInt8) : (bufferPutc b c).Received (text ++ [c]) ∧ (bufferPutc b c).size = b.size := by
  have pos := received.pos
  have total : (b.total + 1) % 2 ^ 32 = (text ++ [c]).length % 2 ^ 32 := by
    rw [received.total, List.length_append, List.length_singleton, Nat.mod_add_mod]
  rw [bufferPutc]
  by_cases room : 0 < b.size ∧ b.pos < b.size - 1
  · have pos_eq : b.pos = text.length := by omega
    rw [if_pos room]
    refine ⟨⟨?_, fun i => ?_, total⟩, rfl⟩
    · simp only [List.length_append, List.length_singleton]
      omega
    · simp only [pos_eq, Function.update_apply]
      rcases Nat.lt_trichotomy i text.length with before | rfl | after
      · rw [if_neg (Nat.ne_of_lt before), received.cells, List.getElem?_append_left before]
      · rw [if_pos rfl, if_pos (by omega), List.getElem?_concat_length]
      · rw [if_neg (Nat.ne_of_gt after), received.cells, List.getElem?_eq_none (by omega),
          List.getElem?_eq_none (by rw [List.length_append, List.length_singleton]; omega)]
  · rw [if_neg room]
    refine ⟨⟨?_, fun i => ?_, total⟩, rfl⟩
    · simp only [List.length_append, List.length_singleton]
      omega
    · rw [received.cells]
      by_cases inside : i < b.size - 1
      · rw [if_pos inside, if_pos inside, List.getElem?_append_left (by omega)]
      · rw [if_neg inside, if_neg inside]

theorem bufferPutc_foldl_received {b : PrintfBuffer} {text : List UInt8}
    (received : b.Received text) (more : List UInt8) :
    (more.foldl bufferPutc b).Received (text ++ more) ∧
      (more.foldl bufferPutc b).size = b.size := by
  induction more generalizing b text with
  | nil => simpa only [List.foldl_nil, List.append_nil, and_true] using received
  | cons c more induction =>
      obtain ⟨put, size_eq⟩ := bufferPutc_received received c
      obtain ⟨all, size_eq'⟩ := induction put
      rw [List.append_assoc, List.singleton_append] at all
      exact ⟨all, size_eq'.trans size_eq⟩

/-- Before the null character the buffer has received the whole text. -/
theorem vsnprintfLoop_received (strings : UInt32 → List UInt8) (size : ℕ) (fmt : List UInt8)
    (args : VaList) {b : PrintfBuffer}
    (loop : vsnprintfLoop strings fmt args { buf := fun _ => none, size, pos := 0, total := 0 } =
      b) :
    b.Received (formatText strings fmt args) ∧ b.size = size := by
  have fresh : PrintfBuffer.Received { buf := fun _ => none, size, pos := 0, total := 0 } [] :=
    ⟨(Nat.zero_min _).symm, fun i => by simp, rfl⟩
  have received := bufferPutc_foldl_received fresh (formatText strings fmt args)
  rwa [List.nil_append, ← vsnprintfLoop_eq, loop] at received

/-- A call stores the first characters of the text and a null character behind them, and counts
the whole text. -/
theorem vsnprintf_eq (strings : UInt32 → List UInt8) {size : ℕ} (positive : 0 < size)
    (fmt : List UInt8) (args : VaList) :
    (∀ i, (vsnprintf strings size fmt args).buf i =
      ((formatText strings fmt args).take (size - 1) ++ [0])[i]?) ∧
    (vsnprintf strings size fmt args).total = (formatText strings fmt args).length % 2 ^ 32 := by
  obtain ⟨received, size_eq⟩ := vsnprintfLoop_received strings size fmt args rfl
  have pos := received.pos
  have cells := received.cells
  rw [vsnprintf, bufferFinish]
  rw [size_eq] at pos cells ⊢
  rw [if_pos positive, if_pos (by omega)]
  refine ⟨fun i => ?_, received.total⟩
  have length : ((formatText strings fmt args).take (size - 1)).length =
      min (formatText strings fmt args).length (size - 1) := by
    rw [List.length_take, Nat.min_comm]
  simp only [pos, Function.update_apply]
  rcases Nat.lt_trichotomy i (min (formatText strings fmt args).length (size - 1)) with
    before | same | after
  · rw [if_neg (Nat.ne_of_lt before), cells, if_pos (by omega),
      List.getElem?_append_left (by omega),
      List.getElem?_take_of_lt (by omega)]
  · rw [if_pos same, List.getElem?_append_right (by omega), length, same, Nat.sub_self,
      List.getElem?_cons_zero]
  · have beyond : ((formatText strings fmt args).take (size - 1) ++ [0])[i]? = none := by
      refine List.getElem?_eq_none ?_
      rw [List.length_append, length, List.length_singleton]
      omega
    rw [if_neg (Nat.ne_of_gt after), cells, beyond]
    split_ifs with inside
    · exact List.getElem?_eq_none (by omega)
    · rfl

/-- Whatever the size is, a call stores what fits of the same text with a null character behind it,
or nothing at all if there is no room, and returns the length of the text. -/
theorem vsnprintf_truncates (strings : UInt32 → List UInt8) (fmt : List UInt8) (args : VaList)
    (size : ℕ) :
    (∀ i, (vsnprintf strings size fmt args).buf i =
      if size = 0 then none
      else ((formatText strings fmt args).take (size - 1) ++ [0])[i]?) ∧
    ((formatText strings fmt args).length < 2 ^ 31 →
      (vsnprintf strings size fmt args).total = (formatText strings fmt args).length) := by
  have counted {total : ℕ} (same : total = (formatText strings fmt args).length % 2 ^ 32)
      (small : (formatText strings fmt args).length < 2 ^ 31) :
      total = (formatText strings fmt args).length := by
    rw [same, Nat.mod_eq_of_lt (by omega)]
  by_cases zero : size = 0
  · subst zero
    obtain ⟨received, size_eq⟩ := vsnprintfLoop_received strings 0 fmt args rfl
    rw [vsnprintf, bufferFinish, if_neg (by omega)]
    refine ⟨fun i => ?_, counted received.total⟩
    rw [received.cells, size_eq, if_neg (Nat.not_lt_zero i), if_pos rfl]
  · obtain ⟨cells, total⟩ := vsnprintf_eq strings (Nat.pos_of_ne_zero zero) fmt args
    refine ⟨fun i => ?_, counted total⟩
    rw [cells, if_neg zero]

end ItWorksOS
