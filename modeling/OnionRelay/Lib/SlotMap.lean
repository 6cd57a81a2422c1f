import Mathlib.Data.List.Nodup
import Mathlib.Data.Set.Card
import Mathlib.Tactic.Common

/-!
# A table of slots as a finite map

A table is a list of slots, each free or holding a key and a value.  `put` replaces
the value of a key that is there and takes the first free slot for a new one,
`erase` frees the slot of a key and `eraseWhere` those of all keys of a kind.

While no key is in two slots (`Unique`), the table is a map: `lookup` says what it
holds, `lookup_put`, `lookup_erase` and `lookup_eraseWhere` what becomes of it, and
`ncard_keys` that the slots in use are as many as the keys.
-/

namespace OnionRelay.Lib.SlotMap

variable {κ ν : Type} [DecidableEq κ]

abbrev Slot (κ ν : Type) := Option (κ × ν)

def hasKey (k : κ) : Slot κ ν → Bool
  | some e => e.1 = k
  | none => false

def slotOf (slots : List (Slot κ ν)) (k : κ) : Option Nat := slots.findIdx? (hasKey k)

/-- The first free slot. -/
def freeSlot (slots : List (Slot κ ν)) : Option Nat := slots.findIdx? Option.isNone

/-- `none` when the key is new and no slot is free. -/
def put (slots : List (Slot κ ν)) (k : κ) (v : ν) : Option (List (Slot κ ν)) :=
  match slotOf slots k with
  | some i => some (slots.set i (some (k, v)))
  | none =>
    match freeSlot slots with
    | some i => some (slots.set i (some (k, v)))
    | none => none

def erase (slots : List (Slot κ ν)) (k : κ) : List (Slot κ ν) :=
  match slotOf slots k with
  | some i => slots.set i none
  | none => slots

def eraseWhere (slots : List (Slot κ ν)) (p : κ → Bool) : List (Slot κ ν) :=
  slots.map fun slot => slot.filter fun e => !p e.1

/-- No key is in two slots. -/
def Unique (slots : List (Slot κ ν)) : Prop :=
  ∀ {i j : Nat} {e e' : κ × ν}, slots[i]? = some (some e) → slots[j]? = some (some e') →
    e.1 = e'.1 → i = j

/-- What the table holds. -/
def lookup (slots : List (Slot κ ν)) (k : κ) : Option ν :=
  (slotOf slots k).bind fun i => (slots[i]?.join).map Prod.snd

/-! ## Where a key is -/

theorem findIdx?_congr {α : Type} {p q : α → Bool} {l : List α} (h : ∀ x ∈ l, p x = q x) :
    l.findIdx? p = l.findIdx? q := by
  induction l with
  | nil => rfl
  | cons x l ih =>
    rw [List.findIdx?_cons, List.findIdx?_cons, h x List.mem_cons_self,
      ih fun y hy => h y (List.mem_cons_of_mem x hy)]

theorem hasKey_iff {k : κ} {slot : Slot κ ν} :
    hasKey k slot = true ↔ ∃ v, slot = some (k, v) := by
  cases slot with
  | none => simp [hasKey]
  | some e =>
    obtain ⟨k', v⟩ := e
    simp [hasKey]

theorem slotOf_eq_some_iff {slots : List (Slot κ ν)} (hu : Unique slots) {k : κ} {i : Nat} :
    slotOf slots k = some i ↔ ∃ v, slots[i]? = some (some (k, v)) := by
  rw [slotOf, List.findIdx?_eq_some_iff_getElem]
  constructor
  · rintro ⟨hi, hkey, -⟩
    obtain ⟨v, hv⟩ := hasKey_iff.mp hkey
    exact ⟨v, by rw [List.getElem?_eq_getElem hi, hv]⟩
  · rintro ⟨v, hv⟩
    obtain ⟨hi, hget⟩ := List.getElem?_eq_some_iff.mp hv
    refine ⟨hi, hasKey_iff.mpr ⟨v, hget⟩, fun j hj hkey => ?_⟩
    obtain ⟨w, hw⟩ := hasKey_iff.mp hkey
    have hj' : slots[j]? = some (some (k, w)) := by
      rw [List.getElem?_eq_getElem (Nat.lt_trans hj hi), hw]
    exact absurd (hu hj' hv rfl) (Nat.ne_of_lt hj)

theorem slotOf_eq_none_iff {slots : List (Slot κ ν)} {k : κ} :
    slotOf slots k = none ↔ ∀ (i : Nat) (v : ν), slots[i]? ≠ some (some (k, v)) := by
  rw [slotOf, List.findIdx?_eq_none_iff]
  constructor
  · intro h i v hv
    have hkey := h _ (List.mem_of_getElem? hv)
    rw [hasKey_iff.mpr ⟨v, rfl⟩] at hkey
    cases hkey
  · intro h slot hslot
    obtain ⟨i, hi⟩ := List.mem_iff_getElem?.mp hslot
    rw [Bool.eq_false_iff]
    intro hkey
    obtain ⟨v, rfl⟩ := hasKey_iff.mp hkey
    exact h i v hi

omit [DecidableEq κ] in
theorem freeSlot_eq_some {slots : List (Slot κ ν)} {i : Nat} (h : freeSlot slots = some i) :
    slots[i]? = some none := by
  obtain ⟨hi, hfree, -⟩ := List.findIdx?_eq_some_iff_getElem.mp h
  rw [List.getElem?_eq_getElem hi, Option.isNone_iff_eq_none.mp hfree]

omit [DecidableEq κ] in
theorem freeSlot_eq_none_iff {slots : List (Slot κ ν)} :
    freeSlot slots = none ↔ slots.countP Option.isSome = slots.length := by
  rw [freeSlot, List.findIdx?_eq_none_iff, List.countP_eq_length]
  refine forall₂_congr fun slot _ => ?_
  cases slot <;> simp

/-- **The table as a map.** -/
theorem lookup_eq_some_iff {slots : List (Slot κ ν)} (hu : Unique slots) {k : κ} {v : ν} :
    lookup slots k = some v ↔ ∃ i : Nat, slots[i]? = some (some (k, v)) := by
  rw [lookup, Option.bind_eq_some_iff]
  constructor
  · rintro ⟨i, hi, hv⟩
    obtain ⟨w, hw⟩ := (slotOf_eq_some_iff hu).mp hi
    rw [hw] at hv
    obtain rfl : w = v := by simpa using hv
    exact ⟨i, hw⟩
  · rintro ⟨i, hi⟩
    exact ⟨i, (slotOf_eq_some_iff hu).mpr ⟨v, hi⟩, by rw [hi]; rfl⟩

theorem lookup_eq_none_iff {slots : List (Slot κ ν)} (hu : Unique slots) {k : κ} :
    lookup slots k = none ↔ slotOf slots k = none := by
  constructor
  · intro h
    cases hs : slotOf slots k with
    | none => rfl
    | some i =>
      obtain ⟨v, hv⟩ := (slotOf_eq_some_iff hu).mp hs
      rw [(lookup_eq_some_iff hu).mpr ⟨i, hv⟩] at h
      cases h
  · intro h
    rw [lookup, h]
    rfl

/-! ## What the operations do -/

/-- Writing a slot that is free or has the key already. -/
theorem set_spec {slots : List (Slot κ ν)} (hu : Unique slots) {i : Nat} {k : κ} (v : ν)
    (hi : i < slots.length) (hslot : ∀ e, slots[i]? = some (some e) → e.1 = k)
    (honly : ∀ (j : Nat) (e : κ × ν), slots[j]? = some (some e) → e.1 = k → j = i) :
    Unique (slots.set i (some (k, v))) ∧
      ∀ k', lookup (slots.set i (some (k, v))) k' = if k' = k then some v else lookup slots k' := by
  have hget : ∀ (j : Nat) (e : κ × ν), (slots.set i (some (k, v)))[j]? = some (some e) ↔
      (j = i ∧ e = (k, v)) ∨ (j ≠ i ∧ slots[j]? = some (some e)) := by
    intro j e
    rw [List.getElem?_set]
    by_cases hj : i = j
    · subst hj
      rw [if_pos rfl, if_pos hi]
      simp [eq_comm]
    · rw [if_neg hj]
      simp [Ne.symm hj]
  have hunique : Unique (slots.set i (some (k, v))) := by
    intro a b e e' ha hb he
    rcases (hget a e).mp ha with ⟨rfl, rfl⟩ | ⟨hai, haold⟩ <;>
      rcases (hget b e').mp hb with ⟨rfl, rfl⟩ | ⟨hbi, hbold⟩
    · rfl
    · exact absurd (honly b e' hbold he.symm) hbi
    · exact absurd (honly a e haold he) hai
    · exact hu haold hbold he
  refine ⟨hunique, fun k' => Option.ext fun w => ?_⟩
  rw [lookup_eq_some_iff hunique]
  constructor
  · rintro ⟨j, hj⟩
    rcases (hget j _).mp hj with ⟨-, he⟩ | ⟨hji, hj⟩
    · obtain ⟨rfl, rfl⟩ := Prod.mk.inj he
      rw [if_pos rfl]
    · rw [if_neg fun h => hji (honly j _ hj h)]
      exact (lookup_eq_some_iff hu).mpr ⟨j, hj⟩
  · intro h
    by_cases hk : k' = k
    · rw [if_pos hk] at h
      obtain rfl := Option.some.inj h
      exact ⟨i, (hget i _).mpr (.inl ⟨rfl, by rw [hk]⟩)⟩
    · rw [if_neg hk] at h
      obtain ⟨j, hj⟩ := (lookup_eq_some_iff hu).mp h
      refine ⟨j, (hget j _).mpr (.inr ⟨?_, hj⟩)⟩
      rintro rfl
      exact hk (hslot _ hj)

/-- **`put` sets the value of its key.** -/
theorem lookup_put {slots slots' : List (Slot κ ν)} (hu : Unique slots) {k : κ} {v : ν}
    (h : put slots k v = some slots') :
    Unique slots' ∧ ∀ k', lookup slots' k' = if k' = k then some v else lookup slots k' := by
  rw [put] at h
  split at h
  · rename_i i hs
    obtain ⟨w, hw⟩ := (slotOf_eq_some_iff hu).mp hs
    obtain rfl := Option.some.inj h
    refine set_spec hu v (List.getElem?_eq_some_iff.mp hw).1 (fun e he => ?_)
      fun j e hj he => hu hj hw he
    rw [hw] at he
    obtain rfl := Option.some.inj (Option.some.inj he)
    rfl
  · rename_i hs
    split at h
    · rename_i i hf
      have hfree := freeSlot_eq_some hf
      obtain rfl := Option.some.inj h
      refine set_spec hu v (List.getElem?_eq_some_iff.mp hfree).1 (fun e he => ?_)
        fun j e hj he => absurd hj ?_
      · rw [hfree] at he
        cases Option.some.inj he
      · obtain ⟨k', w⟩ := e
        obtain rfl : k' = k := he
        exact slotOf_eq_none_iff.mp hs j w
    · cases h

/-- `put` fails exactly for a new key when no slot is free. -/
theorem put_eq_none_iff {slots : List (Slot κ ν)} (hu : Unique slots) {k : κ} {v : ν} :
    put slots k v = none ↔
      lookup slots k = none ∧ slots.countP Option.isSome = slots.length := by
  rw [lookup_eq_none_iff hu, ← freeSlot_eq_none_iff, put]
  cases slotOf slots k with
  | some i => simp
  | none => cases freeSlot slots <;> simp

/-- Freeing slots by a predicate on keys. -/
theorem lookup_eraseWhere {slots : List (Slot κ ν)} (hu : Unique slots) (p : κ → Bool) :
    Unique (eraseWhere slots p) ∧
      ∀ k, lookup (eraseWhere slots p) k = if p k then none else lookup slots k := by
  have hget : ∀ (j : Nat) (e : κ × ν), (eraseWhere slots p)[j]? = some (some e) ↔
      slots[j]? = some (some e) ∧ p e.1 = false := by
    intro j e
    rw [eraseWhere, List.getElem?_map]
    cases hj : slots[j]? with
    | none => simp
    | some slot =>
      cases slot with
      | none => simp
      | some e' =>
        by_cases hp : p e'.1 <;> simp [Option.filter, hp]
        · rintro rfl
          exact hp
        · rintro rfl
          simpa using hp
  have hunique : Unique (eraseWhere slots p) := fun ha hb he =>
    hu ((hget _ _).mp ha).1 ((hget _ _).mp hb).1 he
  refine ⟨hunique, fun k => Option.ext fun v => ?_⟩
  rw [lookup_eq_some_iff hunique]
  simp only [hget]
  by_cases hp : p k
  · simp [hp]
  · rw [if_neg hp, lookup_eq_some_iff hu]
    simp [hp]

/-- Only one slot has the key `erase` looks for. -/
theorem erase_eq_eraseWhere {slots : List (Slot κ ν)} (hu : Unique slots) (k : κ) :
    erase slots k = eraseWhere slots fun k' => k' = k := by
  have hkeep : ∀ slot : Slot κ ν, (∀ v, slot ≠ some (k, v)) →
      (slot.filter fun e => !decide (e.1 = k)) = slot := by
    intro slot hslot
    cases slot with
    | none => rfl
    | some e =>
      have hne : e.1 ≠ k := fun h => hslot e.2 (by rw [← h])
      simp [Option.filter, hne]
  refine List.ext_getElem? fun j => ?_
  rw [erase, eraseWhere, List.getElem?_map]
  split
  · rename_i i hs
    obtain ⟨v, hv⟩ := (slotOf_eq_some_iff hu).mp hs
    by_cases hj : i = j
    · subst hj
      rw [List.getElem?_set_self (List.getElem?_eq_some_iff.mp hv).1, hv]
      simp [Option.filter]
    · rw [List.getElem?_set_ne hj]
      cases hslot : slots[j]? with
      | none => rfl
      | some slot =>
        refine (congrArg some (hkeep slot ?_)).symm
        rintro w rfl
        exact hj (hu hv hslot rfl)
  · rename_i hs
    cases hslot : slots[j]? with
    | none => rfl
    | some slot =>
      refine (congrArg some (hkeep slot ?_)).symm
      rintro w rfl
      exact slotOf_eq_none_iff.mp hs j w hslot

/-! ## How many slots are in use -/

/-- The keys in use, slot by slot. -/
def keys (slots : List (Slot κ ν)) : List κ := slots.filterMap fun slot => slot.map Prod.fst

omit [DecidableEq κ] in
theorem nodup_keys {slots : List (Slot κ ν)} (hu : Unique slots) : (keys slots).Nodup := by
  induction slots with
  | nil => exact List.nodup_nil
  | cons slot slots ih =>
    have htail : Unique slots := fun {i j} e e' hi hj he =>
      Nat.succ.inj (hu (i := i + 1) (j := j + 1) (by simpa using hi) (by simpa using hj) he)
    cases slot with
    | none => exact ih htail
    | some e =>
      refine List.nodup_cons.mpr ⟨fun hmem => ?_, ih htail⟩
      obtain ⟨slot, hslot, he⟩ := List.mem_filterMap.mp hmem
      obtain ⟨e', rfl, hkey⟩ := Option.map_eq_some_iff.mp he
      obtain ⟨j, hj⟩ := List.mem_iff_getElem?.mp hslot
      have hlater : (some e :: slots)[j + 1]? = some (some e') := by simpa using hj
      have hindex := hu (i := 0) rfl hlater hkey.symm
      cases hindex

/-- **The slots in use are as many as the keys.** -/
theorem ncard_keys {slots : List (Slot κ ν)} (hu : Unique slots) (p : κ → Bool) :
    {k | lookup slots k ≠ none ∧ p k}.ncard =
      slots.countP fun slot => slot.any fun e => p e.1 := by
  have hset : {k | lookup slots k ≠ none ∧ p k} = (((keys slots).filter p).toFinset : Set κ) := by
    ext k
    have hmem : lookup slots k ≠ none ↔ k ∈ keys slots := by
      rw [Option.ne_none_iff_exists', keys, List.mem_filterMap]
      constructor
      · rintro ⟨v, hv⟩
        obtain ⟨i, hi⟩ := (lookup_eq_some_iff hu).mp hv
        exact ⟨_, List.mem_of_getElem? hi, rfl⟩
      · rintro ⟨slot, hslot, hkey⟩
        obtain ⟨⟨k', v⟩, rfl, rfl⟩ := Option.map_eq_some_iff.mp hkey
        obtain ⟨i, hi⟩ := List.mem_iff_getElem?.mp hslot
        exact ⟨v, (lookup_eq_some_iff hu).mpr ⟨i, hi⟩⟩
    simp [hmem]
  rw [hset, Set.ncard_coe_finset, List.toFinset_card_of_nodup ((nodup_keys hu).filter p),
    ← List.countP_eq_length_filter, keys, List.countP_filterMap]
  refine List.countP_congr fun slot _ => ?_
  cases slot <;> simp

end OnionRelay.Lib.SlotMap
