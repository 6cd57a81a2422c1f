import Mathlib.Tactic.Common
import Mathlib.Algebra.Order.Ring.Nat
import Mathlib.Data.List.Basic

/-!
# C strings and hexadecimal

A C string is the list of its bytes up to the terminating NUL.  Reading at or
past the terminator reads NUL, which is what `getD _ 0` gives.

The source converts hexadecimal in several places with functions of one shape:
`hex_char_val` and `hex_str_to_bin` of `main.c`, `hex_to_raw` and `raw_to_hex`
of the serializer.  On the lower-case strings the event parser lets through,
decoding and printing are inverse to each other (`hexStrToBin_of_lowerHex`,
`hexStrToBin_rawToHex`).
-/

namespace OnionRelay

/-- A C string: its bytes, without the terminating NUL. -/
abbrev CStr := List UInt8

/-- An array of `n` bytes. -/
abbrev Bytes (n : Nat) := { bytes : List UInt8 // bytes.length = n }

/-- `hex_char_val`; `none` is the source's `-1`. -/
def hexCharVal (c : UInt8) : Option Nat :=
  if 48 ≤ c ∧ c ≤ 57 then some (c.toNat - 48)
  else if 97 ≤ c ∧ c ≤ 102 then some (c.toNat - 97 + 10)
  else if 65 ≤ c ∧ c ≤ 70 then some (c.toNat - 65 + 10)
  else none

/-- `hex_str_to_bin` for `n` output bytes; `none` is `false`. -/
def hexStrToBin : (n : Nat) → CStr → Option (Bytes n)
  | 0, _ => some ⟨[], rfl⟩
  | n + 1, hex => do
    let h ← hexCharVal (hex.getD 0 0)
    let l ← hexCharVal (hex.getD 1 0)
    let out ← hexStrToBin n (hex.drop 2)
    return ⟨UInt8.ofNat (h <<< 4 ||| l) :: out.1, by simp [out.2]⟩

/-- `hex_to_raw`: the length is checked first, then as `hex_str_to_bin`. -/
def hexToRaw (hex : CStr) (hexLen outLen : Nat) : Option (Bytes outLen) :=
  if hexLen ≠ outLen * 2 then none else hexStrToBin outLen hex

/-- An entry of the table `hex_chars`, `0123456789abcdef`. -/
def hexDigit (v : UInt8) : UInt8 := if v < 10 then 48 + v else 87 + v

/-- `raw_to_hex`. -/
def rawToHex (bytes : List UInt8) : CStr :=
  bytes.flatMap fun b : UInt8 => [hexDigit ((b >>> 4) &&& 0x0F), hexDigit (b &&& 0x0F)]

/-- `is_lower_hex`. -/
def isLowerHex (c : UInt8) : Bool := (48 ≤ c && c ≤ 57) || (97 ≤ c && c ≤ 102)

/-- What the event parser demands of an id, a public key or a signature:
`is_lower_hex_str` and the length. -/
structure LowerHex (len : Nat) (s : CStr) : Prop where
  length : s.length = len
  digits : ∀ c ∈ s, isLowerHex c = true

/-! ## Lower-case strings -/

theorem forall_uint8 {P : UInt8 → Prop} (h : ∀ n : Fin 256, P (UInt8.ofFin n)) (c : UInt8) : P c :=
  h c.toFin

theorem hexCharVal_of_lower : ∀ c : UInt8, isLowerHex c = true →
    ∃ v : Fin 16, hexCharVal c = some v.1 ∧ hexDigit (UInt8.ofNat v.1) = c :=
  forall_uint8 (by decide +kernel)

theorem hexCharVal_hexDigit : ∀ v : Fin 16, hexCharVal (hexDigit (UInt8.ofNat v)) = some v.1 := by
  decide +kernel

theorem nibbles_join : ∀ h l : Fin 16,
    (UInt8.ofNat (h.1 <<< 4 ||| l.1) >>> 4) &&& 0x0F = UInt8.ofNat h.1 ∧
      UInt8.ofNat (h.1 <<< 4 ||| l.1) &&& 0x0F = UInt8.ofNat l.1 := by
  decide +kernel

private theorem nibbles_of_byte : ∀ n : Fin 256,
    (UInt8.ofFin n >>> 4) &&& 0x0F = UInt8.ofNat (n.1 / 16) ∧
      UInt8.ofFin n &&& 0x0F = UInt8.ofNat (n.1 % 16) ∧
        UInt8.ofNat ((n.1 / 16) <<< 4 ||| n.1 % 16) = UInt8.ofFin n := by
  decide +kernel

theorem nibbles_split : ∀ b : UInt8, ∃ h l : Fin 16,
    (b >>> 4) &&& 0x0F = UInt8.ofNat h.1 ∧ b &&& 0x0F = UInt8.ofNat l.1 ∧
      UInt8.ofNat (h.1 <<< 4 ||| l.1) = b :=
  forall_uint8 fun n => ⟨⟨n.1 / 16, by omega⟩, ⟨n.1 % 16, by omega⟩, nibbles_of_byte n⟩

@[simp] theorem rawToHex_nil : rawToHex [] = [] := rfl

@[simp] theorem rawToHex_cons (b : UInt8) (bs : List UInt8) :
    rawToHex (b :: bs) = hexDigit ((b >>> 4) &&& 0x0F) :: hexDigit (b &&& 0x0F) :: rawToHex bs := rfl

/-- Lower-case hexadecimal decodes, and prints back as it was. -/
theorem hexStrToBin_of_lowerHex : ∀ (n : Nat) (s : CStr), LowerHex (2 * n) s →
    ∃ raw, hexStrToBin n s = some raw ∧ rawToHex raw.1 = s := by
  intro n
  induction n with
  | zero =>
    intro s hs
    obtain rfl : s = [] := List.eq_nil_of_length_eq_zero (by simpa using hs.length)
    exact ⟨⟨[], rfl⟩, rfl, rfl⟩
  | succ n ih =>
    intro s hs
    match s, hs with
    | a :: b :: rest, hs =>
      have hrest : LowerHex (2 * n) rest :=
        ⟨by have := hs.length; simp at this; omega, fun c hc => hs.digits c (by simp [hc])⟩
      obtain ⟨raw, hraw, hback⟩ := ih rest hrest
      obtain ⟨h, hh, hd⟩ := hexCharVal_of_lower a (hs.digits a (by simp))
      obtain ⟨l, hl, ld⟩ := hexCharVal_of_lower b (hs.digits b (by simp))
      refine ⟨⟨UInt8.ofNat (h.1 <<< 4 ||| l.1) :: raw.1, by simp [raw.2]⟩, ?_, ?_⟩
      · simp [hexStrToBin, hh, hl, hraw]
      · rw [rawToHex_cons, (nibbles_join h l).1, (nibbles_join h l).2, hd, ld, hback]
    | [], hs => exact absurd hs.length (by simp)
    | [a], hs => exact absurd hs.length (by simp; omega)

/-- Printed bytes decode to themselves. -/
theorem hexStrToBin_rawToHex : ∀ (n : Nat) (raw : Bytes n),
    hexStrToBin n (rawToHex raw.1) = some raw := by
  intro n
  induction n with
  | zero => rintro ⟨raw, h⟩; obtain rfl := List.eq_nil_of_length_eq_zero h; rfl
  | succ n ih =>
    rintro ⟨raw, hlen⟩
    match raw, hlen with
    | b :: bs, hlen =>
      obtain ⟨h, l, hh, hl, hb⟩ := nibbles_split b
      have hbs := ih ⟨bs, by simpa using hlen⟩
      rw [rawToHex_cons, hh, hl]
      simp only [hexStrToBin, List.getD_cons_zero, List.getD_cons_succ, hexCharVal_hexDigit,
        List.drop_succ_cons, List.drop_zero, hbs, Option.bind_eq_bind, Option.bind_some,
        Option.pure_def, hb]

@[simp] theorem length_rawToHex (bytes : List UInt8) :
    (rawToHex bytes).length = 2 * bytes.length := by
  induction bytes with
  | nil => rfl
  | cons b bs ih => simp [rawToHex_cons, ih]; omega

theorem rawToHex_injective {n : Nat} {a b : Bytes n} (h : rawToHex a.1 = rawToHex b.1) : a = b := by
  have ha := hexStrToBin_rawToHex n a
  rw [h, hexStrToBin_rawToHex n b] at ha
  exact (Option.some.inj ha).symm

end OnionRelay
