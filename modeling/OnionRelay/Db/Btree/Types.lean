import Mathlib.Data.List.Lex
import Mathlib.Order.Basic
import OnionRelay.Db.Page
import OnionRelay.Lib.LittleEndian
import OnionRelay.Util.Hex

/-!
# B+ tree metadata, layout and keys

The constants of `btree_types.h`, the comparison functions of `btree_compare.c`
and the metadata page.

A tree is given by its key type and value size (`BTreeShape`).  Keys of a type
are ordered by what the comparison reads of them: `compare_lt_iff` and
`compare_eq_iff` say that the code's comparison is this order.
-/

namespace OnionRelay.Db

open OnionRelay.Lib

inductive BTreeKeyType
  | bytes32
  | int64
  | uint32
  | composite
  | compositeTag
deriving DecidableEq

namespace BTreeKeyType

def toByte : BTreeKeyType → Nat
  | bytes32 => 0
  | int64 => 1
  | uint32 => 2
  | composite => 3
  | compositeTag => 4

/-- The type a stored byte stands for; for any other byte the comparison is that
of `BTREE_KEY_BYTES32`. -/
def ofByte : Nat → BTreeKeyType
  | 1 => int64
  | 2 => uint32
  | 3 => composite
  | 4 => compositeTag
  | _ => bytes32

@[simp] theorem ofByte_toByte (kt : BTreeKeyType) : ofByte kt.toByte = kt := by cases kt <;> rfl

theorem toByte_lt (kt : BTreeKeyType) : kt.toByte < 256 := by cases kt <;> decide

/-- The bytes of a key. -/
def size : BTreeKeyType → Nat
  | bytes32 => 32
  | int64 => 8
  | uint32 => 4
  | composite => 36
  | compositeTag => 33

end BTreeKeyType

/-! ## Comparison -/

/-- `internal_memcmp`. -/
def memcmp : Nat → List UInt8 → List UInt8 → Int
  | 0, _, _ => 0
  | n + 1, a, b =>
    if a.getD 0 0 ≠ b.getD 0 0 then (a.getD 0 0).toNat - (b.getD 0 0).toNat
    else memcmp n a.tail b.tail

/-- The three-way comparison the source writes out for numbers. -/
def compareNumbers (va vb : Int) : Int := if va < vb then -1 else if va > vb then 1 else 0

def btreeCompareBytes32 (a b : List UInt8) : Int := memcmp 32 a b

def btreeCompareInt64 (a b : List UInt8) : Int :=
  compareNumbers (Int.bmod (ofLE (a.take 8)) (2 ^ 64)) (Int.bmod (ofLE (b.take 8)) (2 ^ 64))

def btreeCompareUint32 (a b : List UInt8) : Int :=
  compareNumbers (ofLE (a.take 4)) (ofLE (b.take 4))

def btreeCompareCompositePkKind (a b : List UInt8) : Int :=
  let cmp := memcmp 32 a b
  if cmp ≠ 0 then cmp
  else compareNumbers (ofLE ((a.drop 32).take 4)) (ofLE ((b.drop 32).take 4))

def btreeCompareCompositeTag (a b : List UInt8) : Int :=
  if (a.getD 0 0).toNat < (b.getD 0 0).toNat then -1
  else if (a.getD 0 0).toNat > (b.getD 0 0).toNat then 1
  else memcmp 32 a.tail b.tail

/-- `btree_get_comparator`. -/
def btreeGetComparator : BTreeKeyType → List UInt8 → List UInt8 → Int
  | .bytes32 => btreeCompareBytes32
  | .int64 => btreeCompareInt64
  | .uint32 => btreeCompareUint32
  | .composite => btreeCompareCompositePkKind
  | .compositeTag => btreeCompareCompositeTag

/-- What the comparison of a type reads of a key. -/
def BTreeKeyType.sortKey : BTreeKeyType → List UInt8 → List Int
  | .bytes32, key => key.map fun b => (b.toNat : Int)
  | .int64, key => [Int.bmod (ofLE key) (2 ^ 64)]
  | .uint32, key => [(ofLE key : Int)]
  | .composite, key => ((key.take 32).map fun b => (b.toNat : Int)) ++ [(ofLE (key.drop 32) : Int)]
  | .compositeTag, key => key.map fun b => (b.toNat : Int)

/-- The result of a comparison is that of `u` and `v`. -/
structure ComparesAs (cmp : Int) (u v : List Int) : Prop where
  lt : cmp < 0 ↔ u < v
  eq : cmp = 0 ↔ u = v

theorem comparesAs_numbers (va vb : Int) : ComparesAs (compareNumbers va vb) [va] [vb] := by
  rw [compareNumbers]
  constructor
  · rw [List.cons_lt_cons_iff]
    simp only [List.not_lt_nil, and_false, or_false]
    split
    · simp_all
    · split <;> simp_all
  · simp only [List.cons.injEq, and_true]
    split
    · rename_i h
      simp [h.ne]
    · split
      · rename_i h
        simp [h.ne']
      · omega

/-- A comparison of the heads that goes on with the tails when they agree. -/
theorem comparesAs_cons {x y cmp rest : Int} {u v : List Int} (hlt : x < y → cmp < 0)
    (hgt : y < x → 0 < cmp) (heq : x = y → cmp = rest) (hrest : ComparesAs rest u v) :
    ComparesAs cmp (x :: u) (y :: v) := by
  rcases lt_trichotomy x y with h | rfl | h
  · have hcmp := hlt h
    refine ⟨?_, ?_⟩
    · simp [List.cons_lt_cons_iff, h, hcmp]
    · simp [h.ne, hcmp.ne]
  · rw [heq rfl]
    refine ⟨?_, ?_⟩
    · simp [hrest.lt]
    · simp [hrest.eq]
  · have hcmp := hgt h
    refine ⟨?_, ?_⟩
    · simp [List.cons_lt_cons_iff, not_lt.mpr h.le, not_lt.mpr hcmp.le, h.ne']
    · simp [h.ne', hcmp.ne']

theorem memcmp_nil (n : Nat) : memcmp n [] [] = 0 := by
  induction n with
  | zero => rfl
  | succ n ih => simpa [memcmp] using ih

theorem comparesAs_memcmp_append {rest : Int} {u v : List Int} : ∀ (n : Nat) (a b : List UInt8),
    a.length = n → b.length = n → ComparesAs rest u v →
      ∀ a' b' : List UInt8, ComparesAs
        (if memcmp n (a ++ a') (b ++ b') ≠ 0 then memcmp n (a ++ a') (b ++ b') else rest)
        (a.map (fun c => (c.toNat : Int)) ++ u) (b.map (fun c => (c.toNat : Int)) ++ v) := by
  intro n
  induction n with
  | zero =>
    intro a b ha hb hrest a' b'
    obtain rfl := List.eq_nil_of_length_eq_zero ha
    obtain rfl := List.eq_nil_of_length_eq_zero hb
    simpa [memcmp] using hrest
  | succ n ih =>
    intro a b ha hb hrest a' b'
    obtain ⟨x, a, rfl⟩ := List.exists_cons_of_length_eq_add_one ha
    obtain ⟨y, b, rfl⟩ := List.exists_cons_of_length_eq_add_one hb
    have hnext := ih a b (by simpa using ha) (by simpa using hb) hrest a' b'
    simp only [List.map_cons, List.cons_append, memcmp, List.getD_cons_zero, List.tail_cons]
    refine comparesAs_cons ?_ ?_ ?_ hnext
    · intro h
      have hne : x ≠ y := by rintro rfl; exact lt_irrefl _ h
      rw [if_pos hne, if_pos (by omega)]
      omega
    · intro h
      have hne : x ≠ y := by rintro rfl; exact lt_irrefl _ h
      rw [if_pos hne, if_pos (by omega)]
      omega
    · intro h
      have heq : x = y := UInt8.toNat.inj (by exact_mod_cast h)
      rw [if_neg (not_not.mpr heq)]

theorem comparesAs_memcmp {n : Nat} {a b : List UInt8} (ha : a.length = n) (hb : b.length = n) :
    ComparesAs (memcmp n a b) (a.map fun c => (c.toNat : Int)) (b.map fun c => (c.toNat : Int)) := by
  have hnil : ComparesAs 0 [] [] := ⟨by simp, by simp⟩
  have h := comparesAs_memcmp_append n a b ha hb hnil [] []
  simp only [List.append_nil] at h
  split at h
  · exact h
  · rename_i hzero
    rwa [not_not.mp hzero]

/-- **The comparisons of the code compare what they read of the keys.** -/
theorem comparesAs_comparator (kt : BTreeKeyType) {a b : List UInt8} (ha : a.length = kt.size)
    (hb : b.length = kt.size) :
    ComparesAs (btreeGetComparator kt a b) (kt.sortKey a) (kt.sortKey b) := by
  cases kt with
  | bytes32 => exact comparesAs_memcmp ha hb
  | int64 =>
    simp only [btreeGetComparator, btreeCompareInt64, BTreeKeyType.sortKey]
    rw [List.take_of_length_le (show a.length ≤ 8 from ha.le),
      List.take_of_length_le (show b.length ≤ 8 from hb.le)]
    exact comparesAs_numbers _ _
  | uint32 =>
    simp only [btreeGetComparator, btreeCompareUint32, BTreeKeyType.sortKey]
    rw [List.take_of_length_le (show a.length ≤ 4 from ha.le),
      List.take_of_length_le (show b.length ≤ 4 from hb.le)]
    exact comparesAs_numbers _ _
  | composite =>
    have hta : (a.take 32).length = 32 := by rw [List.length_take, ha]; rfl
    have htb : (b.take 32).length = 32 := by rw [List.length_take, hb]; rfl
    have hda : (a.drop 32).length ≤ 4 := by rw [List.length_drop, ha]; decide
    have hdb : (b.drop 32).length ≤ 4 := by rw [List.length_drop, hb]; decide
    have h := comparesAs_memcmp_append 32 _ _ hta htb
      (comparesAs_numbers (ofLE (a.drop 32)) (ofLE (b.drop 32))) (a.drop 32) (b.drop 32)
    rw [List.take_append_drop, List.take_append_drop] at h
    simp only [btreeGetComparator, btreeCompareCompositePkKind, BTreeKeyType.sortKey,
      List.take_of_length_le hda, List.take_of_length_le hdb]
    exact h
  | compositeTag =>
    obtain ⟨x, a, rfl⟩ := List.exists_cons_of_length_eq_add_one ha
    obtain ⟨y, b, rfl⟩ := List.exists_cons_of_length_eq_add_one hb
    have hrest := comparesAs_memcmp (n := 32) (by simpa [BTreeKeyType.size] using ha)
      (show b.length = 32 by simpa [BTreeKeyType.size] using hb)
    simp only [btreeGetComparator, btreeCompareCompositeTag, BTreeKeyType.sortKey, List.map_cons,
      List.getD_cons_zero, List.tail_cons]
    refine comparesAs_cons (fun h => ?_) (fun h => ?_) (fun h => ?_) hrest
    · rw [if_pos (by omega)]
      decide
    · rw [if_neg (by omega), if_pos (by omega)]
      decide
    · rw [if_neg (by omega), if_neg (by omega)]

/-! ## Keys -/

/-- A key of a type. -/
def Key (kt : BTreeKeyType) : Type := Bytes kt.size

namespace Key

variable {kt : BTreeKeyType}

def bytes (k : Key kt) : List UInt8 := k.1

@[simp] theorem length_bytes (k : Key kt) : k.bytes.length = kt.size := k.2

theorem bytes_injective {k j : Key kt} (h : k.bytes = j.bytes) : k = j := Subtype.ext h

def rank (k : Key kt) : List Int := kt.sortKey k.bytes

theorem rank_injective : Function.Injective (rank : Key kt → List Int) := by
  intro k j h
  have hlen : k.bytes.length = j.bytes.length := by rw [length_bytes, length_bytes]
  have hmap : Function.Injective fun b : UInt8 => (b.toNat : Int) := by
    intro b c hbc
    exact UInt8.toNat.inj (Int.ofNat.inj hbc)
  refine bytes_injective ?_
  rw [rank, rank] at h
  cases kt with
  | bytes32 => exact List.map_injective_iff.mpr hmap h
  | int64 =>
    refine ofLE_injective hlen ?_
    have hk := ofLE_lt k.bytes
    have hj := ofLE_lt j.bytes
    rw [length_bytes] at hk hj
    have hk' : (ofLE k.bytes : Int) % ((2 ^ 64 : Nat) : Int) = ofLE k.bytes :=
      Int.emod_eq_of_lt (by omega) (Int.ofNat_lt.mpr hk)
    have hj' : (ofLE j.bytes : Int) % ((2 ^ 64 : Nat) : Int) = ofLE j.bytes :=
      Int.emod_eq_of_lt (by omega) (Int.ofNat_lt.mpr hj)
    have hmod : (ofLE k.bytes : Int) % ((2 ^ 64 : Nat) : Int) =
        (ofLE j.bytes : Int) % ((2 ^ 64 : Nat) : Int) := by
      rw [← Int.bmod_emod, (List.cons.inj h).1, Int.bmod_emod]
    rw [hk', hj'] at hmod
    exact Int.ofNat.inj hmod
  | uint32 =>
    refine ofLE_injective hlen ?_
    exact Int.ofNat.inj (List.cons.inj h).1
  | composite =>
    rw [BTreeKeyType.sortKey, BTreeKeyType.sortKey] at h
    obtain ⟨htake, hdrop⟩ := List.append_inj' h rfl
    have hd : k.bytes.drop 32 = j.bytes.drop 32 :=
      ofLE_injective (by rw [List.length_drop, List.length_drop, hlen]) (Int.ofNat.inj (List.cons.inj hdrop).1)
    rw [← List.take_append_drop 32 k.bytes, ← List.take_append_drop 32 j.bytes, hd,
      List.map_injective_iff.mpr hmap htake]
  | compositeTag => exact List.map_injective_iff.mpr hmap h

/-- Keys in the order of the comparison. -/
instance : LinearOrder (Key kt) := LinearOrder.lift' rank rank_injective

theorem compare_lt_iff (k j : Key kt) : btreeGetComparator kt k.bytes j.bytes < 0 ↔ k < j :=
  (comparesAs_comparator kt k.length_bytes j.length_bytes).lt

theorem compare_eq_iff (k j : Key kt) : btreeGetComparator kt k.bytes j.bytes = 0 ↔ k = j := by
  rw [(comparesAs_comparator kt k.length_bytes j.length_bytes).eq]
  exact rank_injective.eq_iff

end Key

/-! ## Layout -/

def btreeNodeHeaderOffset : Nat := 24

def btreeDataOffset : Nat := 32

def btreeNodeSpace : Nat := dbPageSize - btreeDataOffset

/-- `BTREE_LEAF_MAX_KEYS`. -/
def leafMaxKeys (keySize valueSize : Nat) : Nat := btreeNodeSpace / (keySize + valueSize)

/-- `BTREE_INNER_MAX_KEYS`. -/
def innerMaxKeys (keySize : Nat) : Nat := (btreeNodeSpace - 4) / (keySize + 4)

/-- A key type and a value size of which a leaf holds two entries at least. -/
structure BTreeShape where
  keyType : BTreeKeyType
  valueSize : Nat
  valueSize_pos : 0 < valueSize
  two_le_leafMaxKeys : 2 ≤ leafMaxKeys keyType.size valueSize

namespace BTreeShape

variable (shape : BTreeShape)

abbrev keySize : Nat := shape.keyType.size

abbrev maxLeaf : Nat := leafMaxKeys shape.keySize shape.valueSize

abbrev maxInner : Nat := innerMaxKeys shape.keySize

theorem leaf_fits : shape.maxLeaf * (shape.keySize + shape.valueSize) ≤ btreeNodeSpace :=
  Nat.div_mul_le_self _ _

theorem inner_fits : shape.maxInner * shape.keySize + 4 * (shape.maxInner + 1) ≤ btreeNodeSpace := by
  have h := Nat.div_mul_le_self (btreeNodeSpace - 4) (shape.keySize + 4)
  have hspace : btreeNodeSpace = 4064 := rfl
  rw [Nat.mul_add] at h
  simp only [maxInner, innerMaxKeys]
  omega

theorem maxLeaf_lt : shape.maxLeaf < 2 ^ 12 := by
  have hspace : btreeNodeSpace = 4064 := rfl
  have h : shape.maxLeaf ≤ btreeNodeSpace := Nat.div_le_self _ _
  omega

theorem maxInner_lt : shape.maxInner < 2 ^ 12 := by
  have hspace : btreeNodeSpace = 4064 := rfl
  have h : shape.maxInner ≤ btreeNodeSpace - 4 := Nat.div_le_self _ _
  omega

theorem maxInner_bounds : 2 ≤ shape.maxInner ∧ shape.maxInner ≤ 507 := by
  cases h : shape.keyType <;> simp only [maxInner, keySize, h] <;> decide

/-- `btree_create` for the ID index. -/
def id : BTreeShape := ⟨.bytes32, 8, by decide, by decide⟩

/-- `btree_create` for the timeline index. -/
def timeline : BTreeShape := ⟨.int64, 4, by decide, by decide⟩

/-- `btree_create` for the pubkey index. -/
def pubkey : BTreeShape := ⟨.bytes32, 4, by decide, by decide⟩

/-- `btree_create` for the kind index. -/
def kind : BTreeShape := ⟨.uint32, 4, by decide, by decide⟩

/-- `btree_create` for the pubkey+kind index. -/
def pubkeyKind : BTreeShape := ⟨.composite, 4, by decide, by decide⟩

/-- `btree_create` for the tag index. -/
def tag : BTreeShape := ⟨.compositeTag, 4, by decide, by decide⟩

end BTreeShape

/-! ## Metadata -/

/-- `BTreeMeta`; its flags and reserved bytes are zero from `btree_create` on. -/
structure BTreeMeta where
  rootPage : Nat
  height : Nat
  entryCount : Nat
  leafCount : Nat
  innerCount : Nat
  keySize : Nat
  valueSize : Nat
  keyType : BTreeKeyType
deriving DecidableEq

namespace BTreeMeta

/-- The 36 bytes of the struct. -/
def encode (m : BTreeMeta) : List UInt8 :=
  toLE 4 m.rootPage ++ toLE 4 m.height ++ toLE 4 m.entryCount ++ toLE 4 m.leafCount ++
    toLE 4 m.innerCount ++ toLE 2 m.keySize ++ toLE 2 m.valueSize ++ toLE 1 m.keyType.toByte ++
      List.replicate 11 0

def decode (bytes : List UInt8) : BTreeMeta where
  rootPage := ofLE (bytes.take 4)
  height := ofLE ((bytes.drop 4).take 4)
  entryCount := ofLE ((bytes.drop 8).take 4)
  leafCount := ofLE ((bytes.drop 12).take 4)
  innerCount := ofLE ((bytes.drop 16).take 4)
  keySize := ofLE ((bytes.drop 20).take 2)
  valueSize := ofLE ((bytes.drop 22).take 2)
  keyType := .ofByte (ofLE ((bytes.drop 24).take 1))

/-- The fields are within the widths of the struct. -/
structure InRange (m : BTreeMeta) : Prop where
  rootPage : m.rootPage < 2 ^ 32
  height : m.height < 2 ^ 32
  entryCount : m.entryCount < 2 ^ 32
  leafCount : m.leafCount < 2 ^ 32
  innerCount : m.innerCount < 2 ^ 32
  keySize : m.keySize < 2 ^ 16
  valueSize : m.valueSize < 2 ^ 16

@[simp] theorem length_encode (m : BTreeMeta) : m.encode.length = 36 := by simp [encode]

theorem decode_encode {m : BTreeMeta} (h : m.InRange) : decode m.encode = m := by
  have hkt : m.keyType.toByte < 256 ^ 1 := m.keyType.toByte_lt
  have h4 : (2 : Nat) ^ 32 = 256 ^ 4 := by decide
  have h2 : (2 : Nat) ^ 16 = 256 ^ 2 := by decide
  have hroot := h4 ▸ h.rootPage
  have hheight := h4 ▸ h.height
  have hentry := h4 ▸ h.entryCount
  have hleaf := h4 ▸ h.leafCount
  have hinner := h4 ▸ h.innerCount
  have hks := h2 ▸ h.keySize
  have hvs := h2 ▸ h.valueSize
  simp [encode, decode, List.drop_append, List.drop_of_length_le]
  rw [ofLE_toLE_of_lt hroot, ofLE_toLE_of_lt hheight, ofLE_toLE_of_lt hentry,
    ofLE_toLE_of_lt hleaf, ofLE_toLE_of_lt hinner, ofLE_toLE_of_lt hks, ofLE_toLE_of_lt hvs,
    ofLE_toLE_of_lt hkt, BTreeKeyType.ofByte_toByte]

end BTreeMeta

end OnionRelay.Db
