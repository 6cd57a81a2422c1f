import Mathlib.Data.List.TakeWhile
import Mathlib.Data.Nat.Find
import OnionRelay.Lib.Checked
import OnionRelay.Util.Hex

/-!
# Strings in arrays

The functions of `string.h` on `char` arrays.  `cString` is the string that an array of some
capacity holds, its bytes in front of the first NUL.  `strncmp_sensitive` compares as many bytes as
the shorter capacity says: with the terminator of a literal among them it compares strings
(`sameText_iff`), without it the literal may go on (`startsWith_iff`).
-/

namespace OnionRelay

open OnionRelay.Lib Checked

/-! ## The functions -/

/-- `chrcmp_sensitive` -/
def chrcmpSensitive (a b : UInt8) : Bool :=
  if a ≠ b then false else true

/-- The lowerChr-case letter of an upper-case one. -/
def lowerChr (c : UInt8) : UInt8 := if 65 ≤ c ∧ c ≤ 90 then c + 97 - 65 else c

def chrcmp (a b : UInt8) : Bool :=
  if lowerChr a ≠ lowerChr b then false else true

/-- `strncmp_sensitive` -/
def strncmpSensitive (str1 str2 : Mem) (str1capacity str2capacity : Nat) (caseSensitive : Bool) : Bool :=
  if str1capacity = 0 ∨ str2capacity = 0 then false
  else (List.range (min str1capacity str2capacity)).all fun i =>
    (if caseSensitive then chrcmpSensitive else chrcmp) (str1 i) (str2 i)

/-- The loop of `nostr_strlen` in an array. -/
def nostrStrlenFrom (capacity : Nat) (str : Mem) : (left i : Nat) → Checked Nat
  | 0, i => .error ⟨i, capacity⟩
  | left + 1, i => do
    -- `len++` on an `int32_t`
    let i ← cell (2 ^ 31 - 1) i
    if str i = 0 then return i else nostrStrlenFrom capacity str left (i + 1)

/-- `nostr_strlen` of a string in an array of `capacity` bytes. -/
def nostrStrlen (capacity : Nat) (str : Mem) : Checked Nat := nostrStrlenFrom capacity str capacity 0

/-- The loop of `nostr_strnlen`. -/
def nostrStrnlenFrom (str : Mem) : (left i : Nat) → Nat
  | 0, i => i
  | left + 1, i => if str i = 0 then i else nostrStrnlenFrom str left (i + 1)

/-- `nostr_strnlen`; a string that fills the array is one byte longer than it says. -/
def nostrStrnlen (str : Mem) (capacity : Nat) : Nat :=
  if capacity = 0 then 0 else nostrStrnlenFrom str (capacity - 1) 0

/-- The array of a string literal. -/
def literal (s : CStr) : Mem := fun i => s.getD i 0

/-! ## The string of an array -/

/-- The string that an array of `capacity` bytes holds. -/
def cString (capacity : Nat) (m : Mem) : CStr := (readAt m 0 capacity).takeWhile fun c => c ≠ 0

section

variable {capacity : Nat} {m : Mem} {s : CStr}

/-- The first NUL is at `n`. -/
structure EndsAt (capacity : Nat) (m : Mem) (n : Nat) : Prop where
  lt : n < capacity
  nul : m n = 0
  before : ∀ i < n, m i ≠ 0

theorem EndsAt.cString_eq {n : Nat} (h : EndsAt capacity m n) : cString capacity m = readAt m 0 n := by
  obtain ⟨d, rfl⟩ := Nat.exists_eq_add_of_lt h.lt
  have hall : ∀ c ∈ readAt m 0 n, (decide (c ≠ 0)) = true := by
    intro c hc
    obtain ⟨i, hi, rfl⟩ := List.mem_map.mp hc
    rw [Nat.zero_add]
    exact decide_eq_true (h.before i (List.mem_range.mp hi))
  have hnul : ¬ decide (m (0 + n) ≠ 0) = true := fun hne => of_decide_eq_true hne (by rw [Nat.zero_add, h.nul])
  rw [cString, show n + d + 1 = n + (1 + d) by omega, readAt_add, readAt_add, readAt_one,
    List.takeWhile_append_of_pos hall, List.singleton_append, List.takeWhile_cons_of_neg (by exact hnul), List.append_nil]

theorem EndsAt.length_cString {n : Nat} (h : EndsAt capacity m n) : (cString capacity m).length = n := by
  rw [h.cString_eq, length_readAt]

theorem length_cString_le (capacity : Nat) (m : Mem) : (cString capacity m).length ≤ capacity := by
  have hle := ((readAt m 0 capacity).takeWhile_sublist fun c => decide (c ≠ 0)).length_le
  rwa [length_readAt] at hle

theorem ne_zero_of_mem_cString {c : UInt8} (h : c ∈ cString capacity m) : c ≠ 0 :=
  of_decide_eq_true (List.mem_takeWhile_imp (p := fun c => decide (c ≠ 0)) h)

theorem exists_endsAt (h : ∃ i < capacity, m i = 0) : ∃ n, EndsAt capacity m n := by
  have hexists : ∃ i, i < capacity ∧ m i = 0 := h
  obtain ⟨hlt, hnul⟩ := Nat.find_spec hexists
  exact ⟨Nat.find hexists, hlt, hnul, fun i hi hzero => Nat.find_min hexists hi ⟨hi.trans hlt, hzero⟩⟩

/-- A string that is shorter than its array ends in it. -/
theorem endsAt_of_length_lt (h : (cString capacity m).length < capacity) : EndsAt capacity m (cString capacity m).length := by
  by_cases hnul : ∃ i < capacity, m i = 0
  · obtain ⟨n, hn⟩ := exists_endsAt hnul
    rwa [hn.length_cString]
  · have hfull : cString capacity m = readAt m 0 capacity := by
      rw [cString, List.takeWhile_eq_self_iff]
      intro c hc
      obtain ⟨i, hi, rfl⟩ := List.mem_map.mp hc
      rw [Nat.zero_add]
      exact decide_eq_true fun h => hnul ⟨i, List.mem_range.mp hi, h⟩
    rw [hfull, length_readAt] at h
    exact absurd h (Nat.lt_irrefl _)

/-! ## Lengths -/

theorem nostrStrlenFrom_eq {n : Nat} (h : EndsAt capacity m n) (hshort : n < 2 ^ 31 - 1) : ∀ left i,
    i + left = capacity → i ≤ n → nostrStrlenFrom capacity m left i = .ok n := by
  intro left
  induction left with
  | zero =>
    intro i hend hle
    have hlt := h.lt
    omega
  | succ left ih =>
    intro i hend hle
    rw [nostrStrlenFrom, cell_ok (Nat.lt_of_le_of_lt hle hshort), bind_ok]
    rcases Nat.eq_or_lt_of_le hle with rfl | hlt
    · rw [if_pos h.nul]
      rfl
    · rw [if_neg (h.before i hlt)]
      exact ih (i + 1) (by omega) hlt

theorem EndsAt.nostrStrlen_eq {n : Nat} (h : EndsAt capacity m n) (hshort : n < 2 ^ 31 - 1) :
    nostrStrlen capacity m = .ok n :=
  nostrStrlenFrom_eq h hshort capacity 0 (Nat.zero_add _) (Nat.zero_le n)

theorem exists_nul_of_runs_nostrStrlenFrom : ∀ left i, i + left = capacity →
    Runs (nostrStrlenFrom capacity m left i) → ∃ k, i ≤ k ∧ k < capacity ∧ k < 2 ^ 31 - 1 ∧ m k = 0 := by
  intro left
  induction left with
  | zero => exact fun i _ h => absurd h (not_runs_error _)
  | succ left ih =>
    intro i hend h
    rw [nostrStrlenFrom] at h
    obtain ⟨j, hcell, h⟩ := runs_bind h
    obtain ⟨hlt, rfl⟩ := lt_of_cell hcell
    by_cases hnul : m i = 0
    · exact ⟨i, le_refl i, by omega, hlt, hnul⟩
    · rw [if_neg hnul] at h
      obtain ⟨k, hle, hrest⟩ := ih (i + 1) (by omega) h
      exact ⟨k, by omega, hrest⟩

/-- The length that is found is the string's, and the counter holds it. -/
theorem exists_endsAt_of_runs (h : Runs (nostrStrlen capacity m)) : ∃ n, EndsAt capacity m n ∧ n < 2 ^ 31 - 1 := by
  obtain ⟨k, -, hcap, hshort, hnul⟩ := exists_nul_of_runs_nostrStrlenFrom capacity 0 (Nat.zero_add _) h
  obtain ⟨n, hends⟩ := exists_endsAt ⟨k, hcap, hnul⟩
  refine ⟨n, hends, Nat.lt_of_le_of_lt ?_ hshort⟩
  by_contra hnot
  exact hends.before k (Nat.lt_of_not_le hnot) hnul

theorem nostrStrnlenFrom_eq {n : Nat} (h : EndsAt capacity m n) : ∀ left i, i + left + 1 = capacity → i ≤ n →
    nostrStrnlenFrom m left i = n := by
  intro left
  induction left with
  | zero =>
    intro i hend hle
    have hlt := h.lt
    rw [nostrStrnlenFrom]
    omega
  | succ left ih =>
    intro i hend hle
    rw [nostrStrnlenFrom]
    rcases Nat.eq_or_lt_of_le hle with rfl | hlt
    · rw [if_pos h.nul]
    · rw [if_neg (h.before i hlt)]
      exact ih (i + 1) (by omega) hlt

theorem EndsAt.nostrStrnlen_eq {n : Nat} (h : EndsAt capacity m n) : nostrStrnlen m capacity = n := by
  have hlt := h.lt
  rw [nostrStrnlen, if_neg (by omega)]
  exact nostrStrnlenFrom_eq h (capacity - 1) 0 (by omega) (Nat.zero_le n)

/-- A string that was written with its terminator. -/
theorem endsAt_writeAt (hs : ∀ c ∈ s, c ≠ 0) (h : s.length < capacity) (m : Mem) :
    EndsAt capacity (writeAt m 0 (s ++ [0])) s.length where
  lt := h
  nul := by
    have hget := @writeAt_inside m 0 s.length (s ++ [0]) (by rw [List.length_append]; exact Nat.lt_succ_self _)
    rwa [Nat.zero_add, List.getElem_concat_length rfl] at hget
  before := fun i hi => by
    have hget := @writeAt_inside m 0 i (s ++ [0]) (by rw [List.length_append]; exact Nat.lt_succ_of_lt hi)
    rw [Nat.zero_add, List.getElem_append_left hi] at hget
    rw [hget]
    exact hs _ (List.getElem_mem hi)

/-! ## Comparison -/

theorem chrcmp_iff (a b : UInt8) : chrcmp a b = true ↔ lowerChr a = lowerChr b := by
  rw [chrcmp]
  split <;> simp_all

theorem eq_zero_of_lowerChr (c : UInt8) : lowerChr c = 0 → c = 0 := by
  revert c
  exact forall_uint8 (by decide +kernel)

/-- The array holds `s`, in letters of either case. -/
def SameText (capacity : Nat) (m : Mem) (s : CStr) : Prop := (cString capacity m).map lowerChr = s.map lowerChr

/-- The array holds a string that begins with `s`, in letters of either case. -/
def StartsWith (capacity : Nat) (m : Mem) (s : CStr) : Prop := s.map lowerChr <+: (cString capacity m).map lowerChr

theorem strncmpSensitive_iff {n : Nat} (hpos : 0 < n) (hle : n ≤ capacity) :
    strncmpSensitive m (literal s) capacity n false = true ↔ ∀ i < n, lowerChr (m i) = lowerChr (s.getD i 0) := by
  rw [strncmpSensitive, if_neg (by omega), Nat.min_eq_right hle, List.all_eq_true]
  constructor
  · exact fun h i hi => (chrcmp_iff _ _).mp (h i (List.mem_range.mpr hi))
  · exact fun h i hi => (chrcmp_iff _ _).mpr (h i (List.mem_range.mp hi))

theorem getElem_cString {i : Nat} (h : i < (cString capacity m).length) : (cString capacity m)[i] = m i := by
  have hfront : cString capacity m <+: readAt m 0 capacity := List.takeWhile_prefix _
  rw [hfront.getElem h, getElem_readAt, Nat.zero_add]

theorem getD_of_lt {i : Nat} (h : i < s.length) : s.getD i 0 = s[i] := by
  rw [List.getD_eq_getElem?_getD, List.getElem?_eq_getElem h, Option.getD_some]

theorem ne_zero_of_lowerChr_eq (hs : ∀ c ∈ s, c ≠ 0) {i : Nat} (hi : i < s.length) {c : UInt8}
    (h : lowerChr c = lowerChr (s.getD i 0)) : c ≠ 0 := by
  rintro rfl
  rw [getD_of_lt hi] at h
  exact hs _ (List.getElem_mem hi) (eq_zero_of_lowerChr _ h.symm)

/-- With the terminator of the literal, strings are compared. -/
theorem sameText_iff {cap : Nat} (hs : ∀ c ∈ s, c ≠ 0) (hcap : s.length < cap) (hle : cap ≤ capacity) :
    strncmpSensitive m (literal s) cap (s.length + 1) false = true ↔ SameText capacity m s := by
  rw [strncmpSensitive_iff (Nat.succ_pos _) hcap, SameText]
  constructor
  · intro h
    have hends : EndsAt capacity m s.length := by
      refine ⟨Nat.lt_of_lt_of_le hcap hle, ?_, fun i hi => ne_zero_of_lowerChr_eq hs hi (h i (Nat.lt_succ_of_lt hi))⟩
      have hnul := h s.length (Nat.lt_succ_self _)
      rw [List.getD_eq_getElem?_getD, List.getElem?_eq_none (le_refl _)] at hnul
      exact eq_zero_of_lowerChr _ hnul
    rw [hends.cString_eq]
    refine List.ext_getElem (by rw [List.length_map, List.length_map, length_readAt]) fun i hi hi' => ?_
    rw [List.length_map] at hi'
    rw [List.getElem_map, List.getElem_map, getElem_readAt, Nat.zero_add, ← getD_of_lt hi']
    exact h i (Nat.lt_succ_of_lt hi')
  · intro h i hi
    have hlen : (cString capacity m).length = s.length := by
      have hlen := congrArg List.length h
      rwa [List.length_map, List.length_map] at hlen
    have hends := endsAt_of_length_lt (show (cString capacity m).length < capacity by omega)
    rw [hlen] at hends
    rcases Nat.lt_succ_iff_lt_or_eq.mp hi with hi | rfl
    · have hget := List.getElem_of_eq h (show i < ((cString capacity m).map lowerChr).length by rw [List.length_map]; omega)
      rwa [List.getElem_map, List.getElem_map, getElem_cString, ← getD_of_lt hi] at hget
    · rw [hends.nul, List.getD_eq_getElem?_getD, List.getElem?_eq_none (le_refl _)]
      rfl

/-- Without it, the string may go on. -/
theorem startsWith_iff {cap : Nat} (hs : ∀ c ∈ s, c ≠ 0) (hpos : 0 < s.length) (hcap : s.length ≤ cap)
    (hle : cap ≤ capacity) : strncmpSensitive m (literal s) cap s.length false = true ↔ StartsWith capacity m s := by
  rw [strncmpSensitive_iff hpos hcap, StartsWith, List.prefix_iff_getElem]
  simp only [List.length_map, List.getElem_map]
  constructor
  · intro h
    have hlong : s.length ≤ (cString capacity m).length := by
      by_contra hshort
      have hends := endsAt_of_length_lt (show (cString capacity m).length < capacity by omega)
      exact ne_zero_of_lowerChr_eq hs (by omega) (h _ (by omega)) hends.nul
    refine ⟨hlong, fun i hi => ?_⟩
    rw [getElem_cString, h i hi, getD_of_lt hi]
  · rintro ⟨hlong, h⟩ i hi
    have hget := h i hi
    rw [getElem_cString] at hget
    rw [getD_of_lt hi, hget]

end

end OnionRelay
