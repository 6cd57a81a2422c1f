import Mathlib.Data.List.Induction
import OnionRelay.Lib.Base64
import OnionRelay.Util.CString

/-!
# Base64 of the relay

`base64_encode` writes into an array of some capacity, and `is_base64` judges the keys of clients.
Given room for the text and its terminator, the first is `Base64.encode` (`base64Encode_ok`); the
second accepts the texts that are `Base64.WellFormed`, up to the length that `nostr_strlen` can count
(`isBase64_eq`, `base64_iff`).
-/

namespace OnionRelay

open OnionRelay.Lib Checked

/-- `base64_chars` -/
def base64Chars : List UInt8 :=
  [ 65, 66, 67, 68, 69, 70, 71, 72, 73, 74, 75, 76, 77, 78, 79, 80, 81, 82, 83, 84, 85, 86, 87, 88, 89, 90,
    97, 98, 99, 100, 101, 102, 103, 104, 105, 106, 107, 108, 109, 110, 111, 112, 113, 114, 115, 116, 117, 118, 119,
    120, 121, 122, 48, 49, 50, 51, 52, 53, 54, 55, 56, 57, 43, 47]

/-- `base64_get_array_value` -/
def base64GetArrayValue (array : Mem) (offset capacity : Nat) : UInt8 := if offset < capacity then array offset else 0

/-- `base64_out_char_index` -/
def base64OutCharIndex (marge inputIndex : Nat) : Nat := (marge >>> ((4 - inputIndex - 1) * 6)) &&& (1 <<< 6 - 1)

/-- `output_capacity - base64_output_block_size`, a `size_t`. -/
def base64Room (outputCapacity : Nat) : Nat := (outputCapacity + (2 ^ 64 - 4)) % 2 ^ 64

section

variable (input : Mem) (inputLength outputCapacity : Nat)

/-- The three bytes at `offset`, as `marge` has them. -/
def base64Marge (offset : Nat) : Nat :=
  (base64GetArrayValue input offset inputLength).toNat <<< 16 |||
    (base64GetArrayValue input (offset + 1) inputLength).toNat <<< 8 |||
    (base64GetArrayValue input (offset + 2) inputLength).toNat

/-- The loop of `base64_encode` over the blocks, with at most `left` rounds. -/
def base64EncodeLoop : (left inputOffset outputOffset : Nat) → Mem → Checked (Nat × Mem)
  | 0, _, outputOffset, output => return (outputOffset, output)
  | left + 1, inputOffset, outputOffset, output =>
    if inputOffset < inputLength ∧ outputOffset < base64Room outputCapacity then do
      let marge := base64Marge input inputLength inputOffset
      let block := (List.range 4).map fun i => base64Chars.getD (base64OutCharIndex marge i) 0
      let output ← storeAll outputCapacity block outputOffset output
      base64EncodeLoop left (inputOffset + 3) (outputOffset + 4) output
    else return (outputOffset, output)

/-- The loop that writes the characters `=`. -/
def base64Pad (outputOffset : Nat) : (left i : Nat) → Mem → Checked Mem
  | 0, _, output => return output
  | left + 1, i, output => do
    let output ← store outputCapacity output (outputOffset - i) 61
    base64Pad outputOffset left (i + 1) output

/-- `base64_encode` -/
def base64Encode (output : Mem) : Checked (Bool × Mem) :=
  if inputLength = 0 ∨ base64Room outputCapacity = 0 then return (false, output)
  else do
    let (outputOffset, output) ← base64EncodeLoop input inputLength outputCapacity inputLength 0 0 output
    let paddingCount := if inputLength % 3 ≠ 0 then 3 - inputLength % 3 else 0
    let output ← base64Pad outputCapacity outputOffset paddingCount 1 output
    let output ← store outputCapacity output outputOffset 0
    return (true, output)

end

/-- `is_base64_char` -/
def isBase64Char (c : UInt8) : Bool :=
  (97 ≤ c ∧ c ≤ 122) ∨ (65 ≤ c ∧ c ≤ 90) ∨ (48 ≤ c ∧ c ≤ 57) ∨ c = 43 ∨ c = 47

/-- `is_base64` on a string in an array of `capacity` bytes. -/
def isBase64 (capacity : Nat) (str : Mem) : Checked Bool := do
  let len ← nostrStrlen capacity str
  if len < 4 ∨ len % 4 ≠ 0 then return false
  else do
    let paddingCount := (List.range' 1 2).countP fun i => str (len - i) = 61
    if 2 < paddingCount then return false
    else do
      let base64Length := len - paddingCount
      return ((List.range base64Length).all fun i => isBase64Char (str i)) &&
        (List.range' base64Length paddingCount).all fun i => str i = 61

/-! ## The text that is written -/

section

variable {input : Mem} {n capacity : Nat}

theorem base64Marge_eq (offset : Nat) : base64Marge input n offset =
    Base64.number (base64GetArrayValue input offset n) (base64GetArrayValue input (offset + 1) n)
      (base64GetArrayValue input (offset + 2) n) := by
  rw [base64Marge, Base64.number]
  generalize base64GetArrayValue input offset n = a
  have hb := (base64GetArrayValue input (offset + 1) n).toNat_lt
  have hc := (base64GetArrayValue input (offset + 2) n).toNat_lt
  rw [Nat.or_assoc, ← Nat.shiftLeft_add_eq_or_of_lt hc, ← Nat.shiftLeft_add_eq_or_of_lt, Nat.shiftLeft_eq,
    Nat.shiftLeft_eq, Nat.add_assoc]
  rw [Nat.shiftLeft_eq]
  omega

theorem base64Chars_getD (marge i : Nat) :
    base64Chars.getD (base64OutCharIndex marge i) 0 = Base64.sextet marge i := by
  have hmask : (1 <<< 6 - 1 : Nat) = 2 ^ 6 - 1 := rfl
  rw [base64OutCharIndex, hmask, Nat.and_two_pow_sub_one_eq_mod, Nat.shiftRight_eq_div_pow, Nat.sub_right_comm]
  rfl

theorem base64GetArrayValue_eq (offset k : Nat) :
    base64GetArrayValue input (offset + k) n = ((readAt input 0 n).drop offset).getD k 0 := by
  rw [base64GetArrayValue, List.getD_eq_getElem?_getD, List.getElem?_drop]
  by_cases h : offset + k < n
  · rw [if_pos h, List.getElem?_eq_getElem (by rwa [length_readAt]), getElem_readAt, Nat.zero_add, Option.getD_some]
  · rw [if_neg h, List.getElem?_eq_none (by rw [length_readAt]; omega), Option.getD_none]

/-- The loop writes the groups of the rest.  The induction is on the rounds that are left. -/
theorem base64EncodeLoop_ok (hcap : capacity < 2 ^ 64) : ∀ left inputOffset outputOffset output,
    n ≤ inputOffset + left → outputOffset + (Base64.groups ((readAt input 0 n).drop inputOffset)).length < capacity →
      base64EncodeLoop input n capacity left inputOffset outputOffset output =
        .ok (outputOffset + (Base64.groups ((readAt input 0 n).drop inputOffset)).length,
          writeAt output outputOffset (Base64.groups ((readAt input 0 n).drop inputOffset))) := by
  intro left
  induction left with
  | zero =>
    intro inputOffset outputOffset output hleft _
    rw [List.drop_eq_nil_of_le (by rw [length_readAt]; omega), Base64.groups, writeAt_nil]
    rfl
  | succ left ih =>
    intro inputOffset outputOffset output hleft hroom
    rw [base64EncodeLoop]
    by_cases hin : inputOffset < n
    · have hne : (readAt input 0 n).drop inputOffset ≠ [] := by
        intro hnil
        have hlen := congrArg List.length hnil
        rw [List.length_drop, length_readAt, List.length_nil] at hlen
        omega
      rw [Base64.groups_eq hne, List.length_append, Base64.length_group, List.drop_drop] at hroom ⊢
      have hlt : outputOffset < base64Room capacity := by
        rw [base64Room]
        omega
      have hblock : ((List.range 4).map fun i =>
            base64Chars.getD (base64OutCharIndex (base64Marge input n inputOffset) i) 0) =
          Base64.group (((readAt input 0 n).drop inputOffset).getD 0 0) (((readAt input 0 n).drop inputOffset).getD 1 0)
            (((readAt input 0 n).drop inputOffset).getD 2 0) := by
        rw [base64Marge_eq, ← base64GetArrayValue_eq inputOffset 0, ← base64GetArrayValue_eq, ← base64GetArrayValue_eq]
        exact List.map_congr_left fun i _ => base64Chars_getD _ i
      rw [if_pos ⟨hin, hlt⟩]
      dsimp only
      rw [hblock, storeAll_ok output (by rw [Base64.length_group]; omega), bind_ok, ih _ _ _ (by omega) (by omega),
        writeAt_append output outputOffset _ _ (by rw [Base64.length_group]), Nat.add_assoc]
    · rw [if_neg fun h => hin h.1, List.drop_eq_nil_of_le (by rw [length_readAt]; omega), Base64.groups, writeAt_nil]
      rfl

/-- The characters `=` take the place of the last ones. -/
theorem base64Pad_ok (output : Mem) (text : List UInt8) : ∀ (last : List UInt8) (k : Nat),
    text.length + last.length + k ≤ capacity →
      base64Pad capacity (text.length + last.length + k) last.length (k + 1)
          (writeAt output 0 (text ++ last ++ List.replicate k 61)) =
        .ok (writeAt output 0 (text ++ List.replicate (last.length + k) 61)) := by
  intro last
  induction last using List.reverseRecOn with
  | nil =>
    intro k _
    rw [List.append_nil, List.length_nil, Nat.zero_add]
    rfl
  | append_singleton last c ih =>
    intro k hcap
    rw [List.length_append, List.length_singleton] at hcap ⊢
    have hat : text.length + (last.length + 1) + k - (k + 1) = 0 + (text ++ last).length := by
      rw [List.length_append]
      omega
    have hset : (text ++ (last ++ [c]) ++ List.replicate k 61).set (text ++ last).length 61 =
        text ++ last ++ List.replicate (k + 1) 61 := by
      rw [← List.append_assoc, List.append_assoc, List.set_append_right _ _ (le_refl _), Nat.sub_self]
      rfl
    have hlt : (text ++ last).length < (text ++ (last ++ [c]) ++ List.replicate k 61).length := by
      simp only [List.length_append, List.length_singleton, List.length_replicate]
      omega
    rw [base64Pad, hat, store_ok (by rw [List.length_append]; omega), bind_ok, writeAt_set output 0 hlt, hset]
    have h := ih (k + 1) (by omega)
    rwa [show text.length + last.length + (k + 1) = text.length + (last.length + 1) + k by omega,
      show last.length + (k + 1) = last.length + 1 + k by omega] at h

/-- **Base64 is written with its terminator**, given room for both. -/
theorem base64Encode_ok (hpos : 0 < n) (hroom : 4 * ((n + 2) / 3) < capacity) (hcap : capacity < 2 ^ 64)
    (output : Mem) : base64Encode input n capacity output =
      .ok (true, writeAt output 0 (Base64.encode (readAt input 0 n) ++ [0])) := by
  obtain ⟨text, last, hlast, hgroups, hencode⟩ := Base64.groups_encode (readAt input 0 n)
  have hlen := Base64.length_groups (readAt input 0 n)
  have hlenEncode := Base64.length_encode (readAt input 0 n)
  rw [length_readAt] at hlast hencode hlen hlenEncode
  have hpadding : (if n % 3 ≠ 0 then 3 - n % 3 else 0) = last.length := by
    rw [hlast, Base64.padding]
    split <;> omega
  have hrest : base64Room capacity ≠ 0 := by
    rw [base64Room]
    omega
  rw [base64Encode, if_neg (by omega), base64EncodeLoop_ok hcap n 0 0 output (by omega) (by rw [List.drop_zero]; omega),
    bind_ok]
  dsimp only
  have hpad : base64Pad capacity (Base64.groups (readAt input 0 n)).length last.length 1
      (writeAt output 0 (Base64.groups (readAt input 0 n))) = .ok (writeAt output 0 (Base64.encode (readAt input 0 n))) := by
    have h := @base64Pad_ok capacity output text last 0 (by rw [hgroups, List.length_append] at hlen; omega)
    rw [List.replicate_zero, List.append_nil, Nat.add_zero, Nat.add_zero] at h
    rw [hgroups, List.length_append, hencode, ← hlast]
    exact h
  rw [hpadding, List.drop_zero, Nat.zero_add, hpad, bind_ok, store_ok (by omega), bind_ok,
    writeAt_append output 0 _ _ (by rw [hlen, hlenEncode, Nat.zero_add])]
  rfl

end

/-! ## The texts that are accepted -/

section

variable {capacity n : Nat} {str : Mem}

theorem mem_alphabet_of_isBase64Char (c : UInt8) : isBase64Char c = true → c ∈ Base64.alphabet := by
  revert c
  exact forall_uint8 (by decide +kernel)

theorem isBase64Char_iff (c : UInt8) : isBase64Char c = true ↔ c ∈ Base64.alphabet :=
  ⟨mem_alphabet_of_isBase64Char c, (show ∀ c ∈ Base64.alphabet, isBase64Char c = true by decide +kernel) c⟩

/-- Behind characters of the alphabet the last `k` are marks. -/
structure Marked (str : Mem) (n k : Nat) : Prop where
  text : ∀ i < n - k, str i ∈ Base64.alphabet
  marks : ∀ i, n - k ≤ i → i < n → str i = 61

/-- The marks that `is_base64` counts. -/
def paddingCount (str : Mem) (n : Nat) : Nat := (List.range' 1 2).countP fun i => str (n - i) = 61

theorem paddingCount_le (str : Mem) (n : Nat) : paddingCount str n ≤ 2 := List.countP_le_length

theorem not_mark_of_mem {c : UInt8} (h : c ∈ Base64.alphabet) : c ≠ 61 :=
  (show ∀ c ∈ Base64.alphabet, c ≠ 61 by decide +kernel) c h

/-- It counts the marks of a text that has no other ones. -/
theorem paddingCount_eq {k : Nat} (h : Marked str n k) (hk : k ≤ 2) (hn : 4 ≤ n) : paddingCount str n = k := by
  have hlast : str (n - 1) = 61 ↔ 1 ≤ k := by
    refine ⟨fun heq => ?_, fun hle => h.marks (n - 1) (by omega) (by omega)⟩
    by_contra hnot
    exact not_mark_of_mem (h.text (n - 1) (by omega)) heq
  have hnext : str (n - 2) = 61 ↔ 2 ≤ k := by
    refine ⟨fun heq => ?_, fun hle => h.marks (n - 2) (by omega) (by omega)⟩
    by_contra hnot
    exact not_mark_of_mem (h.text (n - 2) (by omega)) heq
  have hcount : paddingCount str n = (if 1 ≤ k then 1 else 0) + (if 2 ≤ k then 1 else 0) := by
    simp only [paddingCount, List.range', List.countP_cons, List.countP_nil, decide_eq_true_eq, hlast, hnext]
    omega
  rw [hcount]
  split_ifs <;> omega

theorem wellFormed_iff (h : EndsAt capacity str n) : Base64.WellFormed (cString capacity str) ↔
    4 ≤ n ∧ n % 4 = 0 ∧ ∃ k ≤ 2, Marked str n k := by
  rw [Base64.WellFormed, h.length_cString, h.cString_eq]
  constructor
  · rintro ⟨hpos, hmod, text, k, hk, heq, halphabet⟩
    have hlen := congrArg List.length heq
    rw [length_readAt, List.length_append, List.length_replicate] at hlen
    have hget : ∀ i (hi : i < (text ++ List.replicate k 61).length), str i = (text ++ List.replicate k 61)[i] := by
      intro i hi
      rw [List.length_append, List.length_replicate] at hi
      have hat := List.getElem_of_eq heq (show i < (readAt str 0 n).length by rw [length_readAt]; omega)
      rwa [getElem_readAt, Nat.zero_add] at hat
    refine ⟨by omega, hmod, k, hk, fun i hi => ?_, fun i hle hlt => ?_⟩
    · rw [hget i (by rw [List.length_append]; omega), List.getElem_append_left (by omega)]
      exact halphabet _ (List.getElem_mem _)
    · rw [hget i (by rw [List.length_append, List.length_replicate]; omega),
        List.getElem_append_right (by omega), List.getElem_replicate]
  · rintro ⟨hle, hmod, k, hk, hmarked⟩
    refine ⟨by omega, hmod, readAt str 0 (n - k), k, hk, ?_, fun c hc => ?_⟩
    · have hsplit : readAt str 0 n = readAt str 0 (n - k) ++ readAt str (0 + (n - k)) k := by
        rw [← readAt_add, Nat.sub_add_cancel (by omega)]
      rw [hsplit, List.append_cancel_left_eq, Nat.zero_add]
      refine List.eq_replicate_iff.mpr ⟨length_readAt _ _ _, fun c hc => ?_⟩
      obtain ⟨i, hi, rfl⟩ := List.mem_map.mp hc
      exact hmarked.marks _ (Nat.le_add_right _ _) (by have := List.mem_range.mp hi; omega)
    · obtain ⟨i, hi, rfl⟩ := List.mem_map.mp hc
      rw [Nat.zero_add]
      exact hmarked.text i (List.mem_range.mp hi)

/-- **A text is accepted if and only if it is well formed**, when its length is found. -/
theorem isBase64_eq (h : EndsAt capacity str n) (hshort : n < 2 ^ 31 - 1) :
    ∃ accepted, isBase64 capacity str = .ok accepted ∧ (accepted = true ↔ Base64.WellFormed (cString capacity str)) := by
  rw [isBase64, h.nostrStrlen_eq hshort, bind_ok, wellFormed_iff h]
  by_cases hlen : n < 4 ∨ n % 4 ≠ 0
  · rw [if_pos hlen]
    exact ⟨false, rfl, iff_of_false Bool.false_ne_true fun hwell => by omega⟩
  rw [if_neg hlen]
  have hle := paddingCount_le str n
  have hcount : (List.range' 1 2).countP (fun i => decide (str (n - i) = 61)) = paddingCount str n := rfl
  dsimp only
  rw [hcount, if_neg (by omega)]
  refine ⟨_, rfl, ?_⟩
  rw [Bool.and_eq_true, List.all_eq_true, List.all_eq_true]
  constructor
  · rintro ⟨htext, hmarks⟩
    refine ⟨by omega, by omega, paddingCount str n, hle, fun i hi => ?_, fun i hge hlt => ?_⟩
    · exact (isBase64Char_iff _).mp (htext i (List.mem_range.mpr hi))
    · exact of_decide_eq_true (hmarks i (List.mem_range'_1.mpr ⟨hge, by omega⟩))
  · rintro ⟨hfour, -, k, hk, hmarked⟩
    rw [paddingCount_eq hmarked hk hfour]
    refine ⟨fun i hi => (isBase64Char_iff _).mpr (hmarked.text i (List.mem_range.mp hi)), fun i hi => ?_⟩
    obtain ⟨hge, hlt⟩ := List.mem_range'_1.mp hi
    exact decide_eq_true (hmarked.marks i hge (by omega))

theorem runs_isBase64_iff (h : EndsAt capacity str n) : Runs (isBase64 capacity str) ↔ n < 2 ^ 31 - 1 := by
  constructor
  · intro hrun
    obtain ⟨len, hlen, -⟩ := runs_bind hrun
    obtain ⟨n', hends, hshort⟩ := exists_endsAt_of_runs ⟨len, hlen⟩
    rwa [← hends.length_cString, h.length_cString] at hshort
  · intro hshort
    obtain ⟨accepted, heq, -⟩ := isBase64_eq h hshort
    exact ⟨accepted, heq⟩

/-- **Base64 is written and judged as it should be**: the text with its terminator and nothing else, for
every length; and the texts that are accepted are the well-formed ones, the written ones among them, if
and only if the length fits in the counter of `nostr_strlen`. -/
theorem base64_iff {input : Mem} {length capacity : Nat} (hpos : 0 < length)
    (hroom : 4 * ((length + 2) / 3) < capacity) (hcap : capacity < 2 ^ 64) (output : Mem) {size n : Nat} {str : Mem}
    (hstr : EndsAt size str n) :
    base64Encode input length capacity output =
        .ok (true, writeAt output 0 (Base64.encode (readAt input 0 length) ++ [0])) ∧
      ((∃ accepted, isBase64 size str = .ok accepted ∧ (accepted = true ↔ Base64.WellFormed (cString size str))) ↔
        n < 2 ^ 31 - 1) ∧
      (isBase64 capacity (writeAt output 0 (Base64.encode (readAt input 0 length) ++ [0])) = .ok true ↔
        4 * ((length + 2) / 3) < 2 ^ 31 - 1) := by
  have hlen : (Base64.encode (readAt input 0 length)).length = 4 * ((length + 2) / 3) := by
    rw [Base64.length_encode, length_readAt]
  have hwritten := @endsAt_writeAt capacity _ (fun c => @Base64.ne_zero_of_mem_encode (readAt input 0 length) c)
    (by rwa [hlen]) output
  refine ⟨base64Encode_ok hpos hroom hcap output, ⟨?_, isBase64_eq hstr⟩, ?_⟩
  · rintro ⟨accepted, heq, -⟩
    exact (runs_isBase64_iff hstr).mp ⟨accepted, heq⟩
  · rw [← hlen]
    constructor
    · exact fun heq => (runs_isBase64_iff hwritten).mp ⟨true, heq⟩
    · intro hshort
      obtain ⟨accepted, heq, hiff⟩ := isBase64_eq hwritten hshort
      rw [hwritten.cString_eq, readAt_writeAt_append _ _ _ _ rfl] at hiff
      rw [heq, hiff.mpr (Base64.wellFormed_encode (by rwa [length_readAt]))]

theorem base64_iff_letter : isBase64 8 (writeAt (fun _ => 0) 0 (Base64.encode (readAt (fun _ => 65) 0 1) ++ [0])) = .ok true :=
  (@base64_iff (fun _ => 65) 1 8 (by decide) (by decide) (by decide) (fun _ => 0) 1 0 (fun _ => 0)
    ⟨by decide, rfl, fun _ hi => absurd hi (Nat.not_lt_zero _)⟩).2.2.mpr (by decide)

/-- `n` letters `A`. -/
def letters (n : Nat) : Mem := fun i => if i < n then 65 else 0

theorem endsAt_letters (n : Nat) : EndsAt (n + 1) (letters n) n where
  lt := Nat.lt_succ_self n
  nul := if_neg (Nat.lt_irrefl n)
  before i hi := by
    rw [letters, if_pos hi]
    decide

theorem isBase64_long : Base64.WellFormed (cString (2 ^ 31 + 1) (letters (2 ^ 31))) ∧
    ¬ Runs (isBase64 (2 ^ 31 + 1) (letters (2 ^ 31))) := by
  refine ⟨(wellFormed_iff (endsAt_letters _)).mpr ⟨by decide, by decide, 0, by decide, ?_⟩, ?_⟩
  · refine ⟨fun i hi => ?_, fun i hle hlt => absurd hlt (Nat.not_lt.mpr hle)⟩
    have hlt : i < 2 ^ 31 := hi
    rw [letters, if_pos hlt]
    decide
  · rw [runs_isBase64_iff (endsAt_letters _)]
    decide

end

end OnionRelay
