import OnionRelay.Db.OverflowPage
import OnionRelay.Lib.InsertionSort

/-!
# Result sets

`query_result_v2.c`, and the result sets of `db_query_v2.c`, which have the same two
arrays, the same growth and the same sort.

An array is a function on the indices; what is behind `capacity` is not its own.  An
operation that would write there is `none`: the capacity is an `uint32_t`, and doubling it
wraps (`queryResultAdd_linear_iff`).
-/

namespace OnionRelay.Db.Engine

open OnionRelay.Lib

/-! ## Two arrays side by side -/

/-- What both kinds of result sets have: keys, times, and how many of them. -/
structure ResultArrays (ρ : Type) where
  keys : Nat → ρ
  createdAt : Nat → Int
  count : Nat
  capacity : Nat

namespace ResultArrays

variable {ρ : Type} (rs : ResultArrays ρ)

def entry (i : Nat) : ρ × Int := (rs.keys i, rs.createdAt i)

/-- The pairs in the set. -/
def entries : List (ρ × Int) := filled rs.count rs.entry

/-- Both assignments to place `i`. -/
def put (i : Nat) (key : ρ) (createdAt : Int) : ResultArrays ρ :=
  { rs with keys := Function.update rs.keys i key, createdAt := Function.update rs.createdAt i createdAt }

/-- The linear scan for a duplicate. -/
def contains [DecidableEq ρ] (key : ρ) : Bool := (List.range rs.count).any fun i => rs.keys i = key

/-- The growth of the arrays and the new pair behind the last: 0, or -1 when the new
arrays would have no bytes. -/
def push (key : ρ) (createdAt : Int) : Option (Int × ResultArrays ρ) :=
  if rs.count < rs.capacity then
    some (0, { rs.put rs.count key createdAt with count := rs.count + 1 })
  else
    let capacity := rs.capacity * 2 % 2 ^ 32
    if capacity = 0 then some (-1, rs)
    else if capacity ≤ rs.count then none
    else some (0, { rs.put rs.count key createdAt with count := rs.count + 1, capacity := capacity })

/-- The inner loop of the sort, from place `j` down; the place of the key. -/
def shift (keyTime : Int) : Nat → ResultArrays ρ → Nat × ResultArrays ρ
  | 0, rs => (0, rs)
  | j + 1, rs =>
    if rs.createdAt j < keyTime then shift keyTime j (rs.put (j + 1) (rs.keys j) (rs.createdAt j))
    else (j + 1, rs)

/-- The rounds for the places `i` to `i + left - 1`. -/
def sortRounds : Nat → Nat → ResultArrays ρ → ResultArrays ρ
  | 0, _, rs => rs
  | left + 1, i, rs =>
    let r := shift (rs.createdAt i) i rs
    sortRounds left (i + 1) (r.2.put r.1 (rs.keys i) (rs.createdAt i))

/-- The insertion sort; from place 2^31 on the `int32_t` index is negative. -/
def sort : Option (ResultArrays ρ) :=
  if 2 ^ 31 < rs.count then none else some (sortRounds (rs.count - 1) 1 rs)

def applyLimit (limit : Nat) : ResultArrays ρ := if limit < rs.count then { rs with count := limit } else rs

end ResultArrays

/-! ## The bloom filter -/

def bloomHash1 (rid : RecordId) : UInt32 := rid.pageId * 2654435761 + rid.slotIndex.toUInt32 * 40503

def bloomHash2 (rid : RecordId) : UInt32 := rid.pageId * 1103515245 + rid.slotIndex.toUInt32 * 12345

/-- The 64 words of the filter. -/
abbrev Bloom := Nat → BitVec 64

def bloomBit (bloom : Bloom) (h : Nat) : Bool := bloom (h / 64) &&& (1#64 <<< (h % 64)) ≠ 0#64

def bloomTest (bloom : Bloom) (rid : RecordId) : Bool :=
  bloomBit bloom ((bloomHash1 rid).toNat % 4096) && bloomBit bloom ((bloomHash2 rid).toNat % 4096)

def setBloomBit (bloom : Bloom) (h : Nat) : Bloom :=
  Function.update bloom (h / 64) (bloom (h / 64) ||| (1#64 <<< (h % 64)))

def bloomSet (bloom : Bloom) (rid : RecordId) : Bloom :=
  setBloomBit (setBloomBit bloom ((bloomHash1 rid).toNat % 4096)) ((bloomHash2 rid).toNat % 4096)

/-! ## The result sets -/

structure QueryResultSet extends ResultArrays RecordId where
  bloom : Bloom

def resultDefaultCapacity : Nat := 100

/-- `query_result_create` -/
def queryResultCreate (capacity : Nat) : QueryResultSet where
  keys := fun _ => ⟨0, 0⟩
  createdAt := fun _ => 0
  count := 0
  capacity := if capacity = 0 then resultDefaultCapacity else capacity
  bloom := fun _ => 0

/-- `query_result_add` -/
def queryResultAdd (rs : QueryResultSet) (rid : RecordId) (createdAt : Int) : Option (Int × QueryResultSet) :=
  if bloomTest rs.bloom rid && rs.contains rid then some (1, rs)
  else (rs.push rid createdAt).map fun r =>
    (r.1, ⟨r.2, if r.1 = 0 then bloomSet rs.bloom rid else rs.bloom⟩)

/-- `query_result_sort` -/
def queryResultSort (rs : QueryResultSet) : Option QueryResultSet :=
  rs.sort.map fun arrays => ⟨arrays, rs.bloom⟩

/-- `query_result_apply_limit` -/
def queryResultApplyLimit (rs : QueryResultSet) (limit : Nat) : QueryResultSet :=
  ⟨rs.applyLimit limit, rs.bloom⟩

/-- `NostrDBResultSet` -/
abbrev NostrDBResultSet := ResultArrays UInt64

/-- `nostr_db_result_create` -/
def nostrDbResultCreate (capacity : Nat) : NostrDBResultSet where
  keys := fun _ => 0
  createdAt := fun _ => 0
  count := 0
  capacity := if capacity = 0 then resultDefaultCapacity else capacity

/-- `nostr_db_result_add` -/
def nostrDbResultAdd (rs : NostrDBResultSet) (offset : UInt64) (createdAt : Int) :
    Option (Int × NostrDBResultSet) :=
  if rs.contains offset then some (1, rs) else rs.push offset createdAt

/-! ## What the operations do to the pairs -/

namespace ResultArrays

variable {ρ : Type} {rs : ResultArrays ρ}

@[simp] theorem length_entries : rs.entries.length = rs.count := length_filled _ _

theorem entry_put (i : Nat) (key : ρ) (createdAt : Int) :
    (rs.put i key createdAt).entry = Function.update rs.entry i (key, createdAt) := by
  funext j
  by_cases hj : j = i
  · subst hj
    simp [entry, put]
  · simp [entry, put, hj]

theorem contains_iff [DecidableEq ρ] {key : ρ} : rs.contains key = true ↔ key ∈ rs.entries.map Prod.fst := by
  rw [contains, List.any_eq_true, entries, filled, List.map_map, List.mem_map]
  simp only [decide_eq_true_eq, Function.comp_apply, entry]

theorem entries_push (key : ρ) (createdAt : Int) (capacity : Nat) :
    ResultArrays.entries { rs.put rs.count key createdAt with count := rs.count + 1, capacity := capacity } =
      rs.entries ++ [(key, createdAt)] := by
  have hentry : ResultArrays.entry { rs.put rs.count key createdAt with
      count := rs.count + 1, capacity := capacity } =
        Function.update rs.entry rs.count (key, createdAt) := entry_put rs.count key createdAt
  rw [entries, hentry, filled_succ, filled_update_of_le (Nat.le_refl _), Function.update_self]
  rfl

/-- The last capacity that doubling reaches. -/
def lastCapacity (capacity : Nat) : Nat := capacity * 2 ^ (31 - capacity.log2)

theorem lastCapacity_double {capacity : Nat} (hpos : 0 < capacity) (h : capacity * 2 < 2 ^ 32) :
    lastCapacity (capacity * 2) = lastCapacity capacity := by
  have hlog : capacity.log2 < 31 := (Nat.log2_lt hpos.ne').mpr (by omega)
  rw [lastCapacity, lastCapacity, Nat.mul_comm capacity 2, Nat.log2_two_mul hpos.ne', Nat.mul_comm 2,
    Nat.mul_assoc, ← Nat.pow_succ']
  congr 2
  omega

theorem lastCapacity_eq {capacity : Nat} (hpos : 0 < capacity) (hlt : capacity < 2 ^ 32)
    (h : 2 ^ 32 ≤ capacity * 2) : lastCapacity capacity = capacity := by
  have hlog : 31 ≤ capacity.log2 := (Nat.le_log2 hpos.ne').mpr (by omega)
  rw [lastCapacity, Nat.sub_eq_zero_of_le hlog, Nat.pow_zero, Nat.mul_one]

theorem le_lastCapacity (capacity : Nat) : capacity ≤ lastCapacity capacity :=
  Nat.le_mul_of_pos_right _ (Nat.pow_pos (by decide))

/-- Arrays that began with `first` places. -/
structure GrownFrom (first : Nat) (rs : ResultArrays ρ) : Prop where
  last : lastCapacity rs.capacity = lastCapacity first
  pos : 0 < rs.capacity
  lt : rs.capacity < 2 ^ 32
  fits : rs.count ≤ rs.capacity

/-- A pair goes behind the others as long as the capacity does not wrap. -/
theorem GrownFrom.push_of_lt {first : Nat} (h : GrownFrom first rs) (hroom : rs.count < lastCapacity first)
    (key : ρ) (createdAt : Int) : ∃ rs' : ResultArrays ρ, rs.push key createdAt = some (0, rs') ∧
      rs'.entries = rs.entries ++ [(key, createdAt)] ∧ GrownFrom first rs' := by
  have hlast := h.last
  have hpos := h.pos
  have hlt := h.lt
  have hfits := h.fits
  rw [push]
  split
  · next hspace => exact ⟨_, rfl, entries_push key createdAt rs.capacity, hlast, hpos, hlt, hspace⟩
  · next hfull =>
    have hdouble : rs.capacity * 2 < 2 ^ 32 := by
      by_contra hwrap
      rw [← hlast, lastCapacity_eq hpos hlt (by omega)] at hroom
      exact hfull hroom
    dsimp only
    rw [Nat.mod_eq_of_lt hdouble, if_neg (by omega), if_neg (by omega)]
    refine ⟨_, rfl, entries_push key createdAt _, ?_, ?_, hdouble, ?_⟩
    · exact (lastCapacity_double hpos hdouble).trans hlast
    · exact Nat.mul_pos hpos (by decide)
    · show rs.count + 1 ≤ rs.capacity * 2
      omega

/-- The capacity wraps: nothing is added, or the new arrays are too short. -/
theorem GrownFrom.push_of_le {first : Nat} (h : GrownFrom first rs) (hfull : lastCapacity first ≤ rs.count)
    (key : ρ) (createdAt : Int) :
    rs.push key createdAt = none ∨ rs.push key createdAt = some (-1, rs) := by
  have hlast := h.last
  have hlt := h.lt
  have hfits := h.fits
  have hcapacity := le_lastCapacity rs.capacity
  have heq : rs.capacity = lastCapacity first := by omega
  have hwrap : 2 ^ 32 ≤ rs.capacity * 2 := by
    by_contra hdouble
    have hgrow := le_lastCapacity (rs.capacity * 2)
    rw [lastCapacity_double h.pos (by omega), hlast] at hgrow
    have hpos := h.pos
    omega
  rw [push, if_neg (by omega)]
  dsimp only
  split
  · exact .inr rfl
  · exact .inl (if_pos (by omega))

/-! ### The sort -/

theorem shift_entry (keyTime : Int) : ∀ (i : Nat) (rs : ResultArrays ρ),
    ((shift keyTime i rs).1, (shift keyTime i rs).2.entry) =
        shiftUp (fun x => decide (x.2 < keyTime)) i rs.entry ∧
      (shift keyTime i rs).2.count = rs.count ∧ (shift keyTime i rs).2.capacity = rs.capacity := by
  intro i
  induction i with
  | zero => exact fun rs => ⟨rfl, rfl, rfl⟩
  | succ i ih =>
    intro rs
    rw [shift, shiftUp]
    by_cases hmove : rs.createdAt i < keyTime
    · rw [if_pos hmove, if_pos (show decide ((rs.entry i).2 < keyTime) = true from decide_eq_true hmove)]
      obtain ⟨hloop, hcount, hcapacity⟩ := ih (rs.put (i + 1) (rs.keys i) (rs.createdAt i))
      rw [entry_put] at hloop
      exact ⟨hloop, hcount, hcapacity⟩
    · rw [if_neg hmove, if_neg (show ¬ decide ((rs.entry i).2 < keyTime) = true from fun h => hmove (of_decide_eq_true h))]
      exact ⟨rfl, rfl, rfl⟩

/-- What is older is moved. -/
def Older (key x : ρ × Int) : Bool := decide (x.2 < key.2)

/-- The rounds do to the pairs what the sort of one array does. -/
theorem sortRounds_entry : ∀ (left i : Nat) (rs : ResultArrays ρ),
    (sortRounds left i rs).entry = sortFrom Older left i rs.entry ∧
      (sortRounds left i rs).count = rs.count ∧ (sortRounds left i rs).capacity = rs.capacity := by
  intro left
  induction left with
  | zero => exact fun i rs => ⟨rfl, rfl, rfl⟩
  | succ left ih =>
    intro i rs
    obtain ⟨hloop, hcount, hcapacity⟩ := shift_entry (rs.createdAt i) i rs
    rw [sortRounds, sortFrom]
    obtain ⟨hrounds, hcount', hcapacity'⟩ := ih (i + 1)
      ((shift (rs.createdAt i) i rs).2.put (shift (rs.createdAt i) i rs).1 (rs.keys i) (rs.createdAt i))
    refine ⟨?_, hcount'.trans hcount, hcapacity'.trans hcapacity⟩
    rw [hrounds, entry_put, insertAt]
    have hgap := congrArg Prod.fst hloop
    have harray := congrArg Prod.snd hloop
    dsimp only at hgap harray
    rw [hgap, harray]
    rfl

/-- **The sort**: the same pairs, newest first. -/
theorem sort_spec (h : rs.count ≤ 2 ^ 31) : ∃ rs' : ResultArrays ρ, rs.sort = some rs' ∧
    rs'.entries.Perm rs.entries ∧ rs'.entries.Pairwise (fun x y => y.2 ≤ x.2) ∧
      rs'.count = rs.count ∧ rs'.capacity = rs.capacity := by
  obtain ⟨hentry, hcount, hcapacity⟩ := sortRounds_entry (rs.count - 1) 1 rs
  refine ⟨_, if_neg (Nat.not_lt.mpr h), ?_⟩
  rw [entries, entries, hentry, hcount, hcapacity]
  cases hn : rs.count with
  | zero => exact ⟨List.Perm.refl _, List.Pairwise.nil, rfl, rfl⟩
  | succ n =>
    obtain ⟨hperm, hsorted⟩ := @filled_sortFrom _ (fun x y : ρ × Int => x.2 ≤ y.2) Older
      (fun x y z hxy hyz => le_trans hxy hyz) (fun key x hx => (of_decide_eq_true hx).le)
      (fun key x hx => not_lt.mp (of_decide_eq_false hx)) n 1 rs.entry
      (by rw [filled_succ]; exact List.pairwise_singleton _ _)
    rw [Nat.add_comm 1 n] at hperm hsorted
    exact ⟨hperm, hsorted, rfl, rfl⟩

theorem entries_applyLimit (rs : ResultArrays ρ) (limit : Nat) :
    (rs.applyLimit limit).entries = rs.entries.take limit := by
  rw [applyLimit]
  split
  · next h =>
    rw [entries, entries, filled, filled, ← List.map_take, List.take_range, Nat.min_eq_left h.le]
    rfl
  · next h => rw [List.take_of_length_le (by rw [length_entries]; omega)]

end ResultArrays

/-! ## The bloom filter has no false negative -/

theorem bloomBit_eq (bloom : Bloom) (h : Nat) : bloomBit bloom h = (bloom (h / 64)).getLsbD (h % 64) := by
  have hbit : h % 64 < 64 := Nat.mod_lt _ (by decide)
  have hne : BitVec.twoPow 64 (h % 64) ≠ 0#64 := by
    intro hzero
    have hlsb := BitVec.getLsbD_twoPow (w := 64) (h % 64) (h % 64)
    rw [hzero, decide_eq_true hbit, decide_eq_true rfl, BitVec.getLsbD_zero] at hlsb
    exact absurd hlsb (by decide)
  rw [bloomBit, ← BitVec.twoPow_eq, BitVec.and_twoPow]
  cases hword : (bloom (h / 64)).getLsbD (h % 64) with
  | true => simpa using hne
  | false => simp

theorem bloomBit_set (bloom : Bloom) (h h' : Nat) :
    bloomBit (setBloomBit bloom h) h' = (bloomBit bloom h' || decide (h = h')) := by
  have hbit : h % 64 < 64 := Nat.mod_lt _ (by decide)
  rw [bloomBit_eq, bloomBit_eq, setBloomBit]
  by_cases hword : h' / 64 = h / 64
  · rw [hword, Function.update_self, BitVec.getLsbD_or, ← BitVec.twoPow_eq, BitVec.getLsbD_twoPow,
      decide_eq_true hbit, Bool.true_and]
    congr 1
    rw [decide_eq_decide]
    omega
  · rw [Function.update_of_ne hword, decide_eq_false (fun heq => hword (by rw [heq])), Bool.or_false]

/-- Both bits of an id are set. -/
theorem bloomTest_set (bloom : Bloom) (rid rid' : RecordId) (h : bloomTest bloom rid' = true ∨ rid' = rid) :
    bloomTest (bloomSet bloom rid) rid' = true := by
  rw [bloomTest, bloomSet, bloomBit_set, bloomBit_set, bloomBit_set, bloomBit_set]
  rcases h with h | rfl
  · rw [bloomTest, Bool.and_eq_true] at h
    rw [h.1, h.2]
    rfl
  · simp

/-! ## The result set of a query -/

/-- A linear check for a duplicate, and the pair behind the others. -/
def linearAdd {ρ : Type} [DecidableEq ρ] (es : List (ρ × Int)) (e : ρ × Int) : List (ρ × Int) :=
  if e.1 ∈ es.map Prod.fst then es else es ++ [e]

/-- What a set is that began with room for `first` pairs. -/
structure Sound (first : Nat) (rs : QueryResultSet) : Prop where
  grown : rs.GrownFrom first
  bloom : ∀ e ∈ rs.entries, bloomTest rs.bloom e.1 = true

theorem sound_create {capacity : Nat} (h : capacity < 2 ^ 32) :
    Sound (queryResultCreate capacity).capacity (queryResultCreate capacity) := by
  have hpos : 0 < (queryResultCreate capacity).capacity := by
    rw [queryResultCreate]
    dsimp only
    split
    · decide
    · omega
  have hlt : (queryResultCreate capacity).capacity < 2 ^ 32 := by
    rw [queryResultCreate]
    dsimp only
    split
    · decide
    · exact h
  exact ⟨⟨rfl, hpos, hlt, Nat.zero_le _⟩, fun e he => absurd he List.not_mem_nil⟩

variable {first : Nat} {rs : QueryResultSet}

/-- **One addition** is that of the linear check, as long as the capacity does not wrap. -/
theorem Sound.add (h : Sound first rs) (rid : RecordId) (createdAt : Int)
    (hroom : rid ∈ rs.entries.map Prod.fst ∨ rs.count < ResultArrays.lastCapacity first) :
    ∃ (code : Int) (rs' : QueryResultSet), queryResultAdd rs rid createdAt = some (code, rs') ∧
      rs'.entries = linearAdd rs.entries (rid, createdAt) ∧ Sound first rs' := by
  rw [queryResultAdd]
  by_cases hmem : rid ∈ rs.entries.map Prod.fst
  · have htest : bloomTest rs.bloom rid = true := by
      obtain ⟨e, he, rfl⟩ := List.mem_map.mp hmem
      exact h.bloom e he
    rw [htest, ResultArrays.contains_iff.mpr hmem, Bool.and_self, if_pos rfl]
    exact ⟨1, rs, rfl, (if_pos hmem).symm, h⟩
  · have hnot : rs.contains rid = false := Bool.eq_false_iff.mpr fun hc => hmem (ResultArrays.contains_iff.mp hc)
    obtain ⟨arrays, hpush, hentries, hgrown⟩ := h.grown.push_of_lt (hroom.resolve_left hmem) rid createdAt
    rw [hnot, Bool.and_false, if_neg Bool.false_ne_true, hpush]
    refine ⟨0, _, rfl, hentries.trans (if_neg hmem).symm, hgrown, fun e he => ?_⟩
    refine bloomTest_set _ _ _ ?_
    rw [show (ResultArrays.entries _ : List (RecordId × Int)) = rs.entries ++ [(rid, createdAt)] from hentries] at he
    rcases List.mem_append.mp he with he | he
    · exact .inl (h.bloom e he)
    · exact .inr (congrArg Prod.fst (List.mem_singleton.mp he))

/-- An addition to a set that cannot grow any more. -/
theorem Sound.add_of_full (h : Sound first rs) {rid : RecordId} (createdAt : Int)
    (hnew : rid ∉ rs.entries.map Prod.fst) (hfull : ResultArrays.lastCapacity first ≤ rs.count) :
    queryResultAdd rs rid createdAt = none ∨ queryResultAdd rs rid createdAt = some (-1, rs) := by
  have hnot : rs.contains rid = false := Bool.eq_false_iff.mpr fun hc => hnew (ResultArrays.contains_iff.mp hc)
  rw [queryResultAdd, hnot, Bool.and_false, if_neg Bool.false_ne_true]
  rcases h.grown.push_of_le hfull rid createdAt with hpush | hpush
  · exact .inl (by rw [hpush]; rfl)
  · exact .inr (by rw [hpush]; rfl)

/-! ## Sequences of additions -/

def linearAdds {ρ : Type} [DecidableEq ρ] (es added : List (ρ × Int)) : List (ρ × Int) :=
  added.foldl linearAdd es

/-- `query_result_add` for one pair after the other. -/
def addAll (rs : QueryResultSet) (added : List (RecordId × Int)) : Option QueryResultSet :=
  added.foldlM (fun rs e => (queryResultAdd rs e.1 e.2).map Prod.snd) rs

section Linear

variable {ρ : Type} [DecidableEq ρ]

theorem length_linearAdd_le (es : List (ρ × Int)) (e : ρ × Int) : es.length ≤ (linearAdd es e).length := by
  rw [linearAdd]
  split <;> simp

theorem length_linearAdds_le (es added : List (ρ × Int)) : es.length ≤ (linearAdds es added).length := by
  induction added generalizing es with
  | nil => exact Nat.le_refl _
  | cons e added ih => exact Nat.le_trans (length_linearAdd_le es e) (ih _)

theorem nodup_linearAdd {es : List (ρ × Int)} (h : (es.map Prod.fst).Nodup) (e : ρ × Int) :
    ((linearAdd es e).map Prod.fst).Nodup := by
  rw [linearAdd]
  split
  · exact h
  · next hnew =>
    rw [List.map_append, List.nodup_append]
    refine ⟨h, List.nodup_singleton _, fun a ha b hb => ?_⟩
    rintro rfl
    exact hnew (List.mem_singleton.mp hb ▸ ha)

theorem nodup_linearAdds {es : List (ρ × Int)} (h : (es.map Prod.fst).Nodup) (added : List (ρ × Int)) :
    ((linearAdds es added).map Prod.fst).Nodup := by
  induction added generalizing es with
  | nil => exact h
  | cons e added ih => exact ih (nodup_linearAdd h e)

theorem linearAdds_cons (es : List (ρ × Int)) (e : ρ × Int) (added : List (ρ × Int)) :
    linearAdds es (e :: added) = linearAdds (linearAdd es e) added := rfl

end Linear

theorem addAll_cons (rs : QueryResultSet) (e : RecordId × Int) (added : List (RecordId × Int)) :
    addAll rs (e :: added) = ((queryResultAdd rs e.1 e.2).map Prod.snd).bind fun rs => addAll rs added := rfl

/-- A set never has more pairs than it can grow to. -/
theorem Sound.addAll_of_full (h : Sound first rs) (hfull : rs.count = ResultArrays.lastCapacity first) :
    ∀ (added : List (RecordId × Int)) (rs' : QueryResultSet), addAll rs added = some rs' → rs' = rs := by
  intro added
  induction added with
  | nil => exact fun rs' h' => (Option.some.inj h').symm
  | cons e added ih =>
    intro rs' h'
    rw [addAll_cons] at h'
    by_cases hmem : e.1 ∈ rs.entries.map Prod.fst
    · have htest : bloomTest rs.bloom e.1 = true := by
        obtain ⟨e', he', heq⟩ := List.mem_map.mp hmem
        exact heq ▸ h.bloom e' he'
      rw [queryResultAdd, htest, ResultArrays.contains_iff.mpr hmem, Bool.and_self, if_pos rfl] at h'
      exact ih rs' h'
    · rcases h.add_of_full e.2 hmem hfull.ge with hadd | hadd
      · rw [hadd] at h'
        exact absurd h' (by simp)
      · rw [hadd] at h'
        exact ih rs' h'

/-- **The bloom filter and the growth leave no trace**: a sequence of additions is that of
the linear check, exactly as long as its pairs fit into the last capacity. -/
theorem Sound.addAll_iff (h : Sound first rs) (added : List (RecordId × Int)) :
    (∃ rs', addAll rs added = some rs' ∧ rs'.entries = linearAdds rs.entries added) ↔
      (linearAdds rs.entries added).length ≤ ResultArrays.lastCapacity first := by
  induction added generalizing rs with
  | nil =>
    refine iff_of_true ⟨rs, rfl, rfl⟩ ?_
    rw [linearAdds, List.foldl_nil, ResultArrays.length_entries, ← h.grown.last]
    exact Nat.le_trans h.grown.fits (ResultArrays.le_lastCapacity _)
  | cons e added ih =>
    by_cases hroom : e.1 ∈ rs.entries.map Prod.fst ∨ rs.count < ResultArrays.lastCapacity first
    · obtain ⟨code, rs', hadd, hentries, hsound⟩ := h.add e.1 e.2 hroom
      have hih := ih hsound
      rw [hentries] at hih
      rw [addAll_cons, linearAdds_cons, hadd]
      exact hih
    · obtain ⟨hnew, hfull⟩ := not_or.mp hroom
      have hfits := h.grown.fits
      have hle := ResultArrays.le_lastCapacity rs.capacity
      rw [h.grown.last] at hle
      have hcount : rs.count = ResultArrays.lastCapacity first := by omega
      have hlong : rs.count + 1 ≤ (linearAdds rs.entries (e :: added)).length := by
        refine Nat.le_trans ?_ (length_linearAdds_le _ added)
        rw [linearAdd, if_neg hnew, List.length_append, ResultArrays.length_entries, List.length_singleton]
      refine iff_of_false ?_ (by omega)
      rintro ⟨rs', hadds, hentries⟩
      obtain rfl := h.addAll_of_full hcount _ _ hadds
      rw [← hentries, ResultArrays.length_entries] at hlong
      omega

end OnionRelay.Db.Engine
