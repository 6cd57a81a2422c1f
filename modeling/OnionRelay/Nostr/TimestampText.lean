import OnionRelay.Lib.Checked
import OnionRelay.Nostr.Responses

/-!
# The text of a time stamp

`write_int64` writes the digits of a number backwards into an array of 24 bytes, turns them around in
place, makes room for a sign and copies the string.  `writeInt64_eq` says that the text is the one of
`int64Text`, and `timestamp_roundTrip_iff` for which numbers it is the decimal numeral, which is
read back.
-/

namespace OnionRelay

open OnionRelay.Lib Checked

/-- The size of `temp`. -/
def tempCapacity : Nat := 24

/-- `-value` for an `int64_t`. -/
def negateInt64 (value : Int) : Int := Int.bmod (-value) (2 ^ 64)

/-- The loop over the digits, with `left` rounds up to 22 digits. -/
def writeDigits : (left tempLen : Nat) → Int → Mem → Checked (Nat × Mem)
  | 0, tempLen, _, temp => return (tempLen, temp)
  | left + 1, tempLen, value, temp =>
    if 0 < value then do
      let temp ← store tempCapacity temp tempLen (UInt8.ofNat (48 + (value % 10).toNat))
      writeDigits left (tempLen + 1) (value / 10) temp
    else return (tempLen, temp)

/-- The loop that reverses, with `left` rounds left. -/
def reverseDigits (tempLen : Nat) : (left i : Nat) → Mem → Checked Mem
  | 0, _, temp => return temp
  | left + 1, i, temp => do
    let t := temp i
    let temp ← store tempCapacity temp i (temp (tempLen - 1 - i))
    let temp ← store tempCapacity temp (tempLen - 1 - i) t
    reverseDigits tempLen left (i + 1) temp

/-- The loop that shifts, from `i` down. -/
def shiftDigits : (i : Nat) → Mem → Checked Mem
  | 0, temp => return temp
  | i + 1, temp => do
    let temp ← store tempCapacity temp (i + 1) (temp i)
    shiftDigits i temp

/-- `safe_copy` -/
def safeCopy (dest : Mem) (destCapacity offset : Nat) (src : CStr) : Nat × Mem :=
  if destCapacity ≤ offset then (src.length, dest)
  else (src.length, writeAt dest offset (src.take (destCapacity - 1 - offset)))

/-- The part of `write_int64` that writes the digits. -/
def int64Digits (value : Int) (temp : Mem) : Checked (Nat × Mem) :=
  if value = 0 then do
    let temp ← store tempCapacity temp 0 48
    return (1, temp)
  else do
    let (tempLen, temp) ← writeDigits 22 0 value temp
    let temp ← reverseDigits tempLen (tempLen / 2) 0 temp
    return (tempLen, temp)

/-- The part that writes the sign. -/
def int64Sign (isNegative : Bool) (tempLen : Nat) (temp : Mem) : Checked (Nat × Mem) :=
  if isNegative then do
    let temp ← shiftDigits tempLen temp
    let temp ← store tempCapacity temp 0 45
    return (tempLen + 1, temp)
  else return (tempLen, temp)

/-- `write_int64`; `temp` is what the array of that name holds before. -/
def writeInt64 (temp dest : Mem) (destCapacity offset : Nat) (value : Int) : Checked (Nat × Mem) :=
  if destCapacity ≤ offset then return (0, dest)
  else do
    let isNegative : Bool := value < 0
    let value := if isNegative then negateInt64 value else value
    let (tempLen, temp) ← int64Digits value temp
    let (tempLen, temp) ← int64Sign isNegative tempLen temp
    let temp ← store tempCapacity temp tempLen 0
    return safeCopy dest destCapacity offset (cString tempCapacity temp)

/-! ## The loops -/

section

variable {temp : Mem}

/-- The digits of a number, the last one first. -/
def digitChars (n : Nat) : List UInt8 := (Nat.digits 10 n).map fun d => UInt8.ofNat (48 + d)

theorem digitChars_zero : digitChars 0 = [] := by
  rw [digitChars, Nat.digits_zero, List.map_nil]

theorem digitChars_pos {n : Nat} (h : 0 < n) : digitChars n = UInt8.ofNat (48 + n % 10) :: digitChars (n / 10) := by
  rw [digitChars, Nat.digits_def' (by decide) h, List.map_cons]
  rfl

theorem length_digitChars_le {n k : Nat} (h : n < 10 ^ k) : (digitChars n).length ≤ k := by
  rw [digitChars, List.length_map]
  exact (Nat.digits_length_le_iff (by decide) n).mpr h

theorem writeDigits_eq : ∀ left tempLen (n : Nat) temp, n < 10 ^ left → tempLen + left ≤ tempCapacity →
    writeDigits left tempLen n temp = .ok (tempLen + (digitChars n).length, writeAt temp tempLen (digitChars n)) := by
  intro left
  induction left with
  | zero =>
    intro tempLen n temp hn _
    obtain rfl : n = 0 := by omega
    rw [digitChars_zero, writeAt_nil]
    rfl
  | succ left ih =>
    intro tempLen n temp hn hroom
    rw [writeDigits]
    rcases Nat.eq_zero_or_pos n with rfl | hpos
    · rw [if_neg (by decide), digitChars_zero, writeAt_nil]
      rfl
    · have hdigit : ((n : Int) % 10).toNat = n % 10 := by omega
      have hrest : (n : Int) / 10 = (n / 10 : Nat) := by omega
      rw [if_pos (Int.natCast_pos.mpr hpos), store_ok (by omega), bind_ok, hdigit, hrest,
        ih (tempLen + 1) (n / 10) _ (by rw [Nat.pow_succ] at hn; omega) (by omega), digitChars_pos hpos,
        List.length_cons, Nat.add_right_comm]
      exact congrArg (fun m => Except.ok (_, m)) (writeAt_append temp tempLen [_] _ rfl)

/-- A number that is not positive has no digits. -/
theorem writeDigits_of_neg {value : Int} (h : value ≤ 0) (left tempLen : Nat) (temp : Mem) :
    writeDigits left tempLen value temp = .ok (tempLen, temp) := by
  cases left with
  | zero => rfl
  | succ left =>
    rw [writeDigits, if_neg (Int.not_lt.mpr h)]
    rfl

/-- The cells from `i` on and their mirror images are exchanged. -/
theorem reverseDigits_eq {len : Nat} (hcap : len ≤ tempCapacity) : ∀ left i temp, 2 * (i + left) ≤ len →
    ∃ temp', reverseDigits len left i temp = .ok temp' ∧
      ∀ a, temp' a = if (i ≤ a ∧ a < i + left) ∨ (len - (i + left) ≤ a ∧ a < len - i) then temp (len - 1 - a) else temp a := by
  intro left
  induction left with
  | zero =>
    intro i temp _
    exact ⟨temp, rfl, fun a => (if_neg (by omega)).symm⟩
  | succ left ih =>
    intro i temp hle
    have hj : len - 1 - i < tempCapacity := by omega
    obtain ⟨temp', heq, happly⟩ := ih (i + 1)
      (writeAt (writeAt temp i [temp (len - 1 - i)]) (len - 1 - i) [temp i]) (by omega)
    refine ⟨temp', ?_, fun a => ?_⟩
    · rw [reverseDigits, store_ok (by omega), bind_ok, store_ok hj, bind_ok]
      exact heq
    · have hswap : ∀ b, writeAt (writeAt temp i [temp (len - 1 - i)]) (len - 1 - i) [temp i] b =
          if b = i ∨ b = len - 1 - i then temp (len - 1 - b) else temp b := by
        intro b
        rw [writeAt_one, writeAt_one]
        split_ifs with hlast hboth hfirst
        · rw [show i = len - 1 - b by omega]
        · omega
        · rw [hfirst]
        · omega
        · omega
        · rfl
      rw [happly, hswap, hswap]
      split_ifs <;> first | rfl | omega

/-- The digits are turned around. -/
theorem readAt_reverseDigits {len : Nat} (hcap : len ≤ tempCapacity) (temp : Mem) :
    ∃ temp', reverseDigits len (len / 2) 0 temp = .ok temp' ∧ readAt temp' 0 len = (readAt temp 0 len).reverse := by
  obtain ⟨temp', heq, happly⟩ := reverseDigits_eq hcap (len / 2) 0 temp (by omega)
  refine ⟨temp', heq, List.ext_getElem (by rw [List.length_reverse, length_readAt, length_readAt]) fun i hi hi' => ?_⟩
  rw [length_readAt] at hi
  rw [getElem_readAt, List.getElem_reverse, getElem_readAt, length_readAt, Nat.zero_add, Nat.zero_add, happly]
  split_ifs with hin
  · rfl
  · rw [show len - 1 - i = i by omega]

theorem shiftDigits_eq : ∀ i temp, i < tempCapacity → shiftDigits i temp = .ok (moveUp temp 0 1 i) := by
  intro i
  induction i with
  | zero => exact fun temp _ => rfl
  | succ i ih =>
    intro temp hi
    rw [shiftDigits, store_ok hi, bind_ok, ih _ (by omega), moveUp, Nat.zero_add]

theorem decimalText_pos {n : Nat} (h : 0 < n) : decimalText n = (digitChars n).reverse := by
  rw [decimalText, if_neg (Nat.ne_of_gt h), digitChars, List.map_reverse]

/-- The digits of a number are in the array. -/
theorem int64Digits_eq {n : Nat} (hn : n < 10 ^ 19) (temp : Mem) :
    ∃ temp', int64Digits n temp = .ok ((decimalText n).length, temp') ∧
      readAt temp' 0 (decimalText n).length = decimalText n := by
  rw [int64Digits]
  rcases Nat.eq_zero_or_pos n with rfl | hpos
  · rw [if_pos Nat.cast_zero, store_ok (by decide), bind_ok]
    exact ⟨_, rfl, readAt_writeAt_same _ _ [48] rfl⟩
  · have hlen := length_digitChars_le hn
    obtain ⟨temp', heq, hread⟩ := readAt_reverseDigits (show (digitChars n).length ≤ tempCapacity from hlen.trans (by decide))
      (writeAt temp 0 (digitChars n))
    rw [readAt_writeAt_same _ _ _ rfl, ← decimalText_pos hpos] at hread
    have hsame : (decimalText n).length = (digitChars n).length := by rw [decimalText_pos hpos, List.length_reverse]
    rw [if_neg (by omega), writeDigits_eq 22 0 n temp (hn.trans (by decide)) (by decide), bind_ok]
    dsimp only
    rw [Nat.zero_add, heq, bind_ok, hsame]
    exact ⟨temp', rfl, hread⟩

/-- Nor has a number that is not positive any digits in the array. -/
theorem int64Digits_of_neg {value : Int} (h : value < 0) (temp : Mem) : ∃ temp', int64Digits value temp = .ok (0, temp') := by
  rw [int64Digits, if_neg (Int.ne_of_lt h), writeDigits_of_neg (Int.le_of_lt h), bind_ok]
  exact ⟨temp, rfl⟩

/-- The sign goes in front. -/
theorem int64Sign_eq {isNegative : Bool} {digits : CStr} {temp : Mem} (hcap : digits.length + 1 < tempCapacity)
    (hread : readAt temp 0 digits.length = digits) :
    ∃ temp', int64Sign isNegative digits.length temp = .ok ((if isNegative then 45 :: digits else digits).length, temp') ∧
      readAt temp' 0 (if isNegative then 45 :: digits else digits).length = if isNegative then 45 :: digits else digits := by
  rw [int64Sign]
  cases isNegative with
  | false => exact ⟨temp, rfl, hread⟩
  | true =>
    rw [if_pos rfl, if_pos rfl, shiftDigits_eq _ _ (by omega), bind_ok, store_ok (by decide), bind_ok]
    refine ⟨_, rfl, ?_⟩
    have hshifted : readAt (writeAt (moveUp temp 0 1 digits.length) 0 [45]) 1 digits.length = digits := by
      refine Eq.trans (readAt_congr fun i hi => ?_) hread
      rw [writeAt_one, if_neg (by omega), moveUp_apply, if_pos (by omega), Nat.add_sub_cancel_left, Nat.zero_add]
    rw [List.length_cons, Nat.add_comm digits.length 1, readAt_add, readAt_one, writeAt_one, if_pos rfl, Nat.zero_add,
      hshifted]
    rfl

end

/-! ## The text -/

theorem ne_zero_of_isDigit {c : UInt8} (h : isDigit c = true) : c ≠ 0 := by
  rintro rfl
  exact absurd h (by decide)

theorem ne_zero_of_mem_int64Text {bits : Nat} : ∀ c ∈ int64Text bits, c ≠ 0 := by
  intro c hc
  rw [int64Text] at hc
  split_ifs at hc
  · exact ne_zero_of_isDigit (isDigit_decimalText c hc)
  · rw [List.mem_singleton.mp hc]
    decide
  · rcases List.mem_cons.mp hc with rfl | hc
    · decide
    · exact ne_zero_of_isDigit (isDigit_decimalText c hc)

/-- The 64 bits of a number. -/
def int64Bits (value : Int) : Nat := (value % 2 ^ 64).toNat

/-- The digits and the sign of `int64Text`. -/
theorem int64Text_digits {value : Int} (hlow : -2 ^ 63 ≤ value) (hhigh : value < 2 ^ 63) (temp : Mem) :
    ∃ digits temp', int64Digits (if value < 0 then negateInt64 value else value) temp = .ok (digits.length, temp') ∧
      readAt temp' 0 digits.length = digits ∧ digits.length + 1 < tempCapacity ∧
      (if value < 0 then 45 :: digits else digits) = int64Text (int64Bits value) := by
  have hshort : ∀ n, n < 2 ^ 63 → (decimalText n).length + 1 < tempCapacity := fun n hn => by
    have hle := @length_decimalText n 19 (by decide) (hn.trans (by decide))
    rw [tempCapacity]
    omega
  by_cases hneg : value < 0
  · simp only [if_pos hneg]
    by_cases hleast : value = -2 ^ 63
    · obtain ⟨temp', heq⟩ := @int64Digits_of_neg (negateInt64 value) (by rw [hleast]; decide) temp
      exact ⟨[], temp', heq, rfl, by decide, by rw [hleast]; rfl⟩
    · have hnegate : negateInt64 value = (value.natAbs : Int) := by
        rw [negateInt64, Int.bmod_eq_of_le] <;> omega
      obtain ⟨temp', heq, hread⟩ := @int64Digits_eq value.natAbs (by omega) temp
      refine ⟨decimalText value.natAbs, temp', by rw [hnegate, heq], hread, hshort _ (by omega), ?_⟩
      have hbits : int64Bits value = 2 ^ 64 - value.natAbs := by
        rw [int64Bits]
        omega
      rw [hbits, int64Text, if_neg (by omega), if_neg (by omega), Nat.sub_sub_self (by omega)]
  · simp only [if_neg hneg]
    have hnat : value = (value.toNat : Int) := (Int.toNat_of_nonneg (Int.not_lt.mp hneg)).symm
    obtain ⟨temp', heq, hread⟩ := @int64Digits_eq value.toNat (by omega) temp
    rw [← hnat] at heq
    refine ⟨decimalText value.toNat, temp', heq, hread, hshort _ (by omega), ?_⟩
    have hbits : int64Bits value = value.toNat := by
      rw [int64Bits]
      omega
    rw [hbits, int64Text, if_pos (by omega)]

/-- A string that was written without its terminator, and then the terminator. -/
theorem cString_writeAt_nul {capacity : Nat} {s : CStr} {m : Mem} (hs : ∀ c ∈ s, c ≠ 0) (h : s.length < capacity)
    (hread : readAt m 0 s.length = s) : cString capacity (writeAt m s.length [0]) = s := by
  have hends : EndsAt capacity (writeAt m s.length [0]) s.length := by
    refine ⟨h, by rw [writeAt_one, if_pos rfl], fun i hi => ?_⟩
    rw [writeAt_one, if_neg (Nat.ne_of_lt hi)]
    have hget := List.getElem_of_eq hread (show i < (readAt m 0 s.length).length by rwa [length_readAt])
    rw [getElem_readAt, Nat.zero_add] at hget
    rw [hget]
    exact hs _ (List.getElem_mem hi)
  rw [hends.cString_eq, readAt_writeAt_of_disjoint (.inl (by omega)), hread]

/-- **The text is `int64Text`**, and `temp` has room for it. -/
theorem writeInt64_eq {value : Int} (hlow : -2 ^ 63 ≤ value) (hhigh : value < 2 ^ 63) (temp dest : Mem)
    {destCapacity offset : Nat} (hroom : offset < destCapacity) :
    writeInt64 temp dest destCapacity offset value =
      .ok (safeCopy dest destCapacity offset (int64Text (int64Bits value))) := by
  obtain ⟨digits, temp', hdigits, hread, hshort, htext⟩ := int64Text_digits hlow hhigh temp
  obtain ⟨temp'', hsign, hread'⟩ := @int64Sign_eq (decide (value < 0)) digits temp' hshort hread
  have hlen : (int64Text (int64Bits value)).length < tempCapacity := by
    rw [← htext]
    split
    · exact hshort
    · exact Nat.lt_of_succ_lt hshort
  simp only [decide_eq_true_eq, htext] at hsign hread'
  rw [writeInt64, if_neg (by omega)]
  simp only [decide_eq_true_eq]
  rw [hdigits, bind_ok]
  dsimp only
  rw [hsign, bind_ok]
  dsimp only
  rw [store_ok hlen, bind_ok, cString_writeAt_nul ne_zero_of_mem_int64Text hlen hread']
  rfl

/-! ## The round trip -/

section

variable {value : Int} (hlow : -2 ^ 63 ≤ value) (hhigh : value < 2 ^ 63)

include hlow hhigh

theorem bmod_int64Bits : Int.bmod (int64Bits value) (2 ^ 64) = value := by
  have hcast : (int64Bits value : Int) = value % (2 ^ 64 : Nat) := by
    rw [int64Bits]
    omega
  rw [hcast, Int.emod_bmod, Int.bmod_eq_of_le] <;> omega

theorem signedTime_int64Bits : signedTime (int64Bits value) = value := by
  rw [signedTime, BitVec.toInt_ofNat']
  exact bmod_int64Bits hlow hhigh

/-- The text is the decimal numeral of every number but the least one. -/
theorem int64Text_eq_integerText (hleast : value ≠ -2 ^ 63) : int64Text (int64Bits value) = integerText value := by
  have hbits : int64Bits value < 2 ^ 64 := by
    rw [int64Bits]
    omega
  have hmod := bmod_int64Bits hlow hhigh
  have htext := integerText_bmod hbits (by rw [hmod]; omega)
  rw [hmod] at htext
  exact htext.symm

/-- **A time stamp is printed and read back** if and only if it is not the least one. -/
theorem timestamp_roundTrip_iff :
    ((∀ temp dest destCapacity offset, offset + (integerText value).length < destCapacity →
        writeInt64 temp dest destCapacity offset value =
          .ok ((integerText value).length, writeAt dest offset (integerText value))) ∧
      ∀ token : Lexeme, token.type = .primitive → token.text = integerText value →
        token.length = (integerText value).length → (extractNostrEventCreatedAt token).map signedTime = some value) ↔
    value ≠ -2 ^ 63 := by
  constructor
  · rintro ⟨hprints, -⟩ rfl
    have hroom : 0 + (integerText (-2 ^ 63)).length < (integerText (-2 ^ 63)).length + 1 := by omega
    have hprinted := hprints (fun _ => 0) (fun _ => 0) _ 0 hroom
    rw [writeInt64_eq hlow hhigh _ _ (Nat.succ_pos _), safeCopy, if_neg (by omega)] at hprinted
    have hlen : 1 = (integerText (-2 ^ 63)).length := (Prod.mk.inj (Except.ok.inj hprinted)).1
    have hpos := List.length_pos_of_ne_nil (decimalText_ne_nil (-2 ^ 63 : Int).natAbs)
    rw [integerText, if_pos (by decide), List.length_cons] at hlen
    omega
  · intro hleast
    have htext := int64Text_eq_integerText hlow hhigh hleast
    refine ⟨fun temp dest destCapacity offset hroom => ?_, fun token htype htoken hlength => ?_⟩
    · rw [writeInt64_eq hlow hhigh _ _ (by omega), htext, safeCopy, if_neg (by omega), List.take_of_length_le (by omega)]
    · have hbits : int64Bits value < 2 ^ 64 ∧ int64Bits value ≠ 2 ^ 63 := by
        rw [int64Bits]
        omega
      rw [← htext] at htoken hlength
      rw [createdAt_of_int64Text hbits.1 htype htoken hlength, if_neg hbits.2, Option.map_some,
        signedTime_int64Bits hlow hhigh]

end

theorem timestamp_roundTrip_iff_negative :
    (extractNostrEventCreatedAt ⟨.primitive, 0, integerText (-7), (integerText (-7)).length⟩).map signedTime = some (-7) :=
  ((@timestamp_roundTrip_iff (-7) (by decide) (by decide)).mpr (by decide)).2 _ rfl List.take_length rfl

/-- Of the least number only the sign is printed. -/
theorem writeInt64_least :
    writeInt64 (fun _ => 0) (fun _ => 0) 64 0 (-2 ^ 63) = .ok (1, writeAt (fun _ => 0) 0 [45]) ∧
      (integerText (-2 ^ 63)).length ≠ 1 := by
  refine ⟨writeInt64_eq (by decide) (by decide) _ _ (by decide), fun hlen => ?_⟩
  have hpos := List.length_pos_of_ne_nil (decimalText_ne_nil (-2 ^ 63 : Int).natAbs)
  rw [integerText, if_pos (by decide), List.length_cons] at hlen
  omega

end OnionRelay
