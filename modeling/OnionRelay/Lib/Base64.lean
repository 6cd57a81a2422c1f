import Mathlib.Algebra.Order.Ring.Nat
import Mathlib.Data.List.Basic
import Mathlib.Tactic.Common

/-!
# Base64

`encode` writes every three bytes as four characters, and marks by `=` what is missing in the last
group.  `groups` is the text before the marks are put in: `groups_encode` says that they only take
the place of its last characters.
-/

namespace OnionRelay.Lib.Base64

def alphabet : List UInt8 :=
  [ 65, 66, 67, 68, 69, 70, 71, 72, 73, 74, 75, 76, 77, 78, 79, 80, 81, 82, 83, 84, 85, 86, 87, 88, 89, 90,
    97, 98, 99, 100, 101, 102, 103, 104, 105, 106, 107, 108, 109, 110, 111, 112, 113, 114, 115, 116, 117, 118, 119,
    120, 121, 122, 48, 49, 50, 51, 52, 53, 54, 55, 56, 57, 43, 47]

def char (n : Nat) : UInt8 := alphabet.getD n 0

/-- The `i`-th character of the number of a group. -/
def sextet (n i : Nat) : UInt8 := char (n / 2 ^ ((3 - i) * 6) % 64)

/-- The number of three bytes. -/
def number (a b c : UInt8) : Nat := a.toNat * 65536 + b.toNat * 256 + c.toNat

def group (a b c : UInt8) : List UInt8 := (List.range 4).map (sextet (number a b c))

/-- The characters of all bytes, with zeros for the missing ones. -/
def groups : List UInt8 → List UInt8
  | a :: b :: c :: rest => group a b c ++ groups rest
  | [a, b] => group a b 0
  | [a] => group a 0 0
  | [] => []

def encode : List UInt8 → List UInt8
  | a :: b :: c :: rest => group a b c ++ encode rest
  | [a, b] => (group a b 0).take 3 ++ [61]
  | [a] => (group a 0 0).take 2 ++ [61, 61]
  | [] => []

/-- The number of characters `=`. -/
def padding (n : Nat) : Nat := (3 - n % 3) % 3

@[simp] theorem length_group (a b c : UInt8) : (group a b c).length = 4 := by rw [group, List.length_map, List.length_range]

theorem groups_eq {bytes : List UInt8} (h : bytes ≠ []) :
    groups bytes = group (bytes.getD 0 0) (bytes.getD 1 0) (bytes.getD 2 0) ++ groups (bytes.drop 3) := by
  fun_cases groups bytes with
  | case1 a b c rest => rfl
  | case2 a b => exact (List.append_nil _).symm
  | case3 a => exact (List.append_nil _).symm
  | case4 => exact absurd rfl h

theorem length_groups : ∀ bytes, (groups bytes).length = 4 * ((bytes.length + 2) / 3) := by
  intro bytes
  fun_induction groups bytes with
  | case1 a b c rest ih =>
    rw [List.length_append, length_group, ih, List.length_cons, List.length_cons, List.length_cons]
    omega
  | case2 a b => rw [length_group, List.length_cons, List.length_singleton]
  | case3 a => rw [length_group, List.length_singleton]
  | case4 => rfl

/-- The marks take the place of the last characters. -/
theorem groups_encode : ∀ bytes, ∃ text last, last.length = padding bytes.length ∧ groups bytes = text ++ last ∧
    encode bytes = text ++ List.replicate (padding bytes.length) 61 := by
  intro bytes
  fun_induction groups bytes with
  | case1 a b c rest ih =>
    obtain ⟨text, last, hlen, hgroups, hencode⟩ := ih
    have hpadding : padding (a :: b :: c :: rest).length = padding rest.length := by
      simp only [padding, List.length_cons]
      omega
    rw [hpadding, encode, hgroups, hencode]
    exact ⟨group a b c ++ text, last, hlen, (List.append_assoc _ _ _).symm, (List.append_assoc _ _ _).symm⟩
  | case2 a b => exact ⟨_, _, rfl, (List.take_append_drop 3 (group a b 0)).symm, rfl⟩
  | case3 a => exact ⟨_, _, rfl, (List.take_append_drop 2 (group a 0 0)).symm, rfl⟩
  | case4 => exact ⟨[], [], rfl, rfl, rfl⟩

theorem length_encode (bytes : List UInt8) : (encode bytes).length = 4 * ((bytes.length + 2) / 3) := by
  obtain ⟨text, last, hlen, hgroups, hencode⟩ := groups_encode bytes
  rw [← length_groups, hgroups, hencode, List.length_append, List.length_append, List.length_replicate, hlen]

theorem char_mem_alphabet {n : Nat} (h : n < 64) : char n ∈ alphabet := by
  rw [char, List.getD_eq_getElem?_getD, List.getElem?_eq_getElem (show n < alphabet.length from h), Option.getD_some]
  exact List.getElem_mem h

theorem mem_alphabet_of_mem_group {a b c x : UInt8} (h : x ∈ group a b c) : x ∈ alphabet := by
  obtain ⟨i, -, rfl⟩ := List.mem_map.mp h
  exact char_mem_alphabet (Nat.mod_lt _ (by decide))

theorem ne_zero_of_mem_group {a b c x : UInt8} (h : x ∈ group a b c) : x ≠ 0 :=
  (show ∀ x ∈ alphabet, x ≠ 0 by decide +kernel) x (mem_alphabet_of_mem_group h)

/-- The text is a C string. -/
theorem ne_zero_of_mem_encode : ∀ {bytes : List UInt8} {x : UInt8}, x ∈ encode bytes → x ≠ 0 := by
  intro bytes x h
  fun_induction encode bytes with
  | case1 a b c rest ih => exact (List.mem_append.mp h).elim ne_zero_of_mem_group ih
  | case2 a b =>
    rcases List.mem_append.mp h with h | h
    · exact ne_zero_of_mem_group (List.mem_of_mem_take h)
    · rw [List.mem_singleton.mp h]
      decide
  | case3 a =>
    rcases List.mem_append.mp h with h | h
    · exact ne_zero_of_mem_group (List.mem_of_mem_take h)
    · rw [List.eq_of_mem_replicate (show x ∈ List.replicate 2 61 from h)]
      decide
  | case4 => exact absurd h List.not_mem_nil

/-! ## Well-formed texts -/

/-- Groups of four characters of the alphabet, of which the last two may be marks. -/
def WellFormed (s : List UInt8) : Prop :=
  0 < s.length ∧ s.length % 4 = 0 ∧
    ∃ text k, k ≤ 2 ∧ s = text ++ List.replicate k 61 ∧ ∀ c ∈ text, c ∈ alphabet

theorem mem_alphabet_of_mem_groups {bytes : List UInt8} {x : UInt8} (h : x ∈ groups bytes) : x ∈ alphabet := by
  fun_induction groups bytes with
  | case1 a b c rest ih => exact (List.mem_append.mp h).elim mem_alphabet_of_mem_group ih
  | case2 a b => exact mem_alphabet_of_mem_group h
  | case3 a => exact mem_alphabet_of_mem_group h
  | case4 => exact absurd h List.not_mem_nil

theorem wellFormed_encode {bytes : List UInt8} (h : 0 < bytes.length) : WellFormed (encode bytes) := by
  obtain ⟨text, last, -, hgroups, hencode⟩ := groups_encode bytes
  refine ⟨?_, ?_, text, padding bytes.length, ?_, hencode, fun c hc => ?_⟩
  · rw [length_encode]
    omega
  · rw [length_encode, Nat.mul_mod_right]
  · rw [padding]
    omega
  · refine @mem_alphabet_of_mem_groups bytes c ?_
    rw [hgroups]
    exact List.mem_append_left _ hc

end OnionRelay.Lib.Base64
