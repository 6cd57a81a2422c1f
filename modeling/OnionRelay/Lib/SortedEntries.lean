import Mathlib.Data.List.InsertIdx
import Mathlib.Data.List.TakeWhile
import Mathlib.Data.Set.Card
import Mathlib.Order.Basic
import Mathlib.Tactic.Common

/-!
# Sorted entries

A list of entries with strictly increasing keys stands for a finite map: `k` is
mapped to `v` if `(k, v)` is in the list.  `lowerBound k` is the position where
an entry of `k` is or belongs; inserting and erasing there changes the map at
`k` alone.  `searchLoop` is binary search for that position.
-/

namespace OnionRelay.Lib

variable {K V : Type} [LinearOrder K]

/-- Strictly increasing keys. -/
def Sorted (es : List (K × V)) : Prop := es.Pairwise fun a b => a.1 < b.1

/-- The number of leading keys below `k`. -/
def lowerBound (k : K) (ks : List K) : Nat := (ks.takeWhile (· < k)).length

/-- Binary search between `lo` and `hi`, for at most `fuel` rounds. -/
def searchLoop (less : Nat → Bool) : Nat → Nat → Nat → Nat
  | 0, lo, _ => lo
  | fuel + 1, lo, hi =>
    if lo < hi then
      let mid := lo + (hi - lo) / 2
      if less mid then searchLoop less fuel (mid + 1) hi else searchLoop less fuel lo mid
    else lo

theorem searchLoop_eq (less : Nat → Bool) {r : Nat} : ∀ (fuel lo hi : Nat), hi - lo ≤ fuel →
    lo ≤ r → r ≤ hi → (∀ i < r, less i = true) → (∀ i, r ≤ i → i < hi → less i = false) →
      searchLoop less fuel lo hi = r := by
  intro fuel
  induction fuel with
  | zero =>
    intro lo hi hfuel hlo hhi _ _
    rw [searchLoop]
    omega
  | succ fuel ih =>
    intro lo hi hfuel hlo hhi hbelow habove
    rw [searchLoop]
    by_cases hlt : lo < hi
    · rw [if_pos hlt]
      dsimp only
      have hmid : lo + (hi - lo) / 2 < hi := by omega
      cases hless : less (lo + (hi - lo) / 2) with
      | true =>
        have hr : lo + (hi - lo) / 2 < r := by
          by_contra hnot
          rw [habove _ (by omega) hmid] at hless
          exact absurd hless (by decide)
        rw [if_pos rfl]
        exact ih _ _ (by omega) hr hhi hbelow habove
      | false =>
        have hr : r ≤ lo + (hi - lo) / 2 := by
          by_contra hnot
          rw [hbelow _ (by omega)] at hless
          exact absurd hless (by decide)
        rw [if_neg (by decide)]
        exact ih _ _ (by omega) hlo hr hbelow fun i hi' hlt' => habove i hi' (by omega)
    · rw [if_neg hlt]
      omega

/-! ## Positions -/

theorem lowerBound_le (k : K) (ks : List K) : lowerBound k ks ≤ ks.length :=
  (List.takeWhile_sublist _).length_le

theorem lt_of_lt_lowerBound {k : K} {ks : List K} {i : Nat} (hi : i < lowerBound k ks)
    (h : i < ks.length) : ks[i] < k := by
  have hprefix := List.takeWhile_prefix (l := ks) (fun j => decide (j < k))
  have hmem : ks[i] ∈ ks.takeWhile (· < k) := by
    rw [← hprefix.getElem hi]
    exact List.getElem_mem hi
  simpa using List.mem_takeWhile_imp hmem

/-- From the lower bound on, the keys of a sorted list are not below `k`. -/
theorem le_of_lowerBound_le {k : K} : ∀ {ks : List K}, ks.Pairwise (· < ·) → ∀ {i : Nat},
    lowerBound k ks ≤ i → ∀ h : i < ks.length, k ≤ ks[i] := by
  intro ks
  induction ks with
  | nil => intro _ i _ h; exact absurd h (Nat.not_lt_zero i)
  | cons j ks ih =>
    intro hsorted i hi h
    obtain ⟨hhead, htail⟩ := List.pairwise_cons.mp hsorted
    rw [lowerBound, List.takeWhile_cons] at hi
    by_cases hj : j < k
    · rw [if_pos (by simpa using hj), List.length_cons] at hi
      obtain ⟨i, rfl⟩ : ∃ i', i = i' + 1 := ⟨i - 1, by omega⟩
      rw [List.getElem_cons_succ]
      exact ih htail (Nat.le_of_succ_le_succ hi) _
    · cases i with
      | zero => exact not_lt.mp hj
      | succ i =>
        rw [List.getElem_cons_succ]
        exact le_trans (not_lt.mp hj) (hhead _ (List.getElem_mem _)).le

/-- Binary search over sorted keys finds the lower bound. -/
theorem searchLoop_lowerBound {k : K} {ks : List K} (hsorted : ks.Pairwise (· < ·))
    {less : Nat → Bool} (hless : ∀ i, ∀ h : i < ks.length, less i = true ↔ ks[i] < k) :
    searchLoop less ks.length 0 ks.length = lowerBound k ks := by
  refine searchLoop_eq less _ _ _ (by omega) (Nat.zero_le _) (lowerBound_le k ks) ?_ ?_
  · intro i hi
    have h : i < ks.length := by
      have := lowerBound_le k ks
      omega
    exact (hless i h).mpr (lt_of_lt_lowerBound hi h)
  · intro i hi h
    rw [← Bool.not_eq_true, hless i h]
    exact not_lt.mpr (le_of_lowerBound_le hsorted hi h)

/-- A key is in a sorted list if and only if it is at its lower bound. -/
theorem getElem?_lowerBound {k : K} {ks : List K} (hsorted : ks.Pairwise (· < ·)) :
    ks[lowerBound k ks]? = some k ↔ k ∈ ks := by
  constructor
  · exact List.mem_of_getElem?
  · intro hk
    obtain ⟨i, hi, rfl⟩ := List.getElem_of_mem hk
    have hle : lowerBound ks[i] ks ≤ i := by
      by_contra hnot
      exact lt_irrefl _ (lt_of_lt_lowerBound (by omega) hi)
    have hge : i ≤ lowerBound ks[i] ks := by
      by_contra hnot
      have hlt : lowerBound ks[i] ks < i := by omega
      have hb := le_of_lowerBound_le hsorted (le_refl (lowerBound ks[i] ks)) (by omega)
      have hord := List.pairwise_iff_getElem.mp hsorted _ _ (by omega) hi hlt
      exact absurd hb (not_le.mpr hord)
    rw [Nat.le_antisymm hle hge, List.getElem?_eq_getElem hi]

/-- From the lower bound on are the entries that are not below the key. -/
theorem drop_lowerBound {k : K} {es : List (K × V)} (hsorted : Sorted es) :
    es.drop (lowerBound k (es.map Prod.fst)) = es.filter fun e => decide (k ≤ e.1) := by
  induction es with
  | nil => rfl
  | cons e es ih =>
    obtain ⟨hhead, htail⟩ := List.pairwise_cons.mp hsorted
    rw [List.map_cons, lowerBound, List.takeWhile_cons]
    by_cases he : e.1 < k
    · rw [if_pos (by simpa using he), List.length_cons, List.drop_succ_cons,
        List.filter_cons_of_neg (by simpa using he)]
      exact ih htail
    · rw [if_neg (by simpa using he), List.length_nil, List.drop_zero]
      refine (List.filter_eq_self.mpr fun e' he' => ?_).symm
      rcases List.mem_cons.mp he' with rfl | he'
      · simpa using he
      · exact decide_eq_true ((not_lt.mp he).trans (hhead e' he').le)

/-- In sorted entries, those up to a key come first. -/
theorem takeWhile_le {k : K} {es : List (K × V)} (hsorted : Sorted es) :
    es.takeWhile (fun e => decide (e.1 ≤ k)) = es.filter fun e => decide (e.1 ≤ k) := by
  induction es with
  | nil => rfl
  | cons e es ih =>
    obtain ⟨hhead, htail⟩ := List.pairwise_cons.mp hsorted
    rw [List.takeWhile_cons, List.filter_cons]
    by_cases he : e.1 ≤ k
    · rw [if_pos (by simpa using he), if_pos (by simpa using he), ih htail]
    · rw [if_neg (by simpa using he), if_neg (by simpa using he)]
      refine (List.filter_eq_nil_iff.mpr fun e' he' => ?_).symm
      simpa using (not_le.mp he).trans (hhead e' he')

theorem lowerBound_eq_zero {k : K} {ks : List K} (h : ∀ j ∈ ks, k < j) : lowerBound k ks = 0 := by
  cases ks with
  | nil => rfl
  | cons j ks =>
    rw [lowerBound, List.takeWhile_cons,
      if_neg (by simpa using (h j List.mem_cons_self).le), List.length_nil]

/-! ## Entries -/

theorem insertIdx_eq_append {α : Type} {x : α} : ∀ {l : List α} {i : Nat}, i ≤ l.length →
    l.insertIdx i x = l.take i ++ x :: l.drop i := by
  intro l i hi
  induction i generalizing l with
  | zero => rfl
  | succ i ih =>
    cases l with
    | nil => exact absurd hi (Nat.not_succ_le_zero i)
    | cons a l =>
      rw [List.insertIdx_succ_cons, ih (Nat.le_of_succ_le_succ hi)]
      rfl

theorem Sorted.keys {es : List (K × V)} (h : Sorted es) : (es.map Prod.fst).Pairwise (· < ·) :=
  List.pairwise_map.mpr h

theorem Sorted.eq_of_key_eq {es : List (K × V)} (h : Sorted es) {a b : K × V} (ha : a ∈ es)
    (hb : b ∈ es) (hkey : a.1 = b.1) : a = b := by
  by_contra hne
  rcases List.pairwise_iff_getElem.mp h with hpair
  obtain ⟨i, hi, rfl⟩ := List.getElem_of_mem ha
  obtain ⟨j, hj, rfl⟩ := List.getElem_of_mem hb
  rcases Nat.lt_trichotomy i j with hlt | rfl | hgt
  · exact absurd hkey (hpair i j hi hj hlt).ne
  · exact hne rfl
  · exact absurd hkey (hpair j i hj hi hgt).ne'

theorem sorted_append {es fs : List (K × V)} :
    Sorted (es ++ fs) ↔ Sorted es ∧ Sorted fs ∧ ∀ e ∈ es, ∀ f ∈ fs, e.1 < f.1 :=
  List.pairwise_append

/-- The entries with one more at its lower bound. -/
def insertEntry (k : K) (v : V) (es : List (K × V)) : List (K × V) :=
  es.insertIdx (lowerBound k (es.map Prod.fst)) (k, v)

theorem mem_insertEntry {k : K} {v : V} {es : List (K × V)} {e : K × V} :
    e ∈ insertEntry k v es ↔ e = (k, v) ∨ e ∈ es := by
  have hle := lowerBound_le k (es.map Prod.fst)
  rw [List.length_map] at hle
  exact List.mem_insertIdx hle

theorem length_insertEntry (k : K) (v : V) (es : List (K × V)) :
    (insertEntry k v es).length = es.length + 1 := by
  have hle := lowerBound_le k (es.map Prod.fst)
  rw [List.length_map] at hle
  rw [insertEntry, List.length_insertIdx, if_pos hle]

theorem sorted_insertEntry {k : K} (v : V) {es : List (K × V)} (h : Sorted es)
    (hnew : ∀ e ∈ es, e.1 ≠ k) : Sorted (insertEntry k v es) := by
  have hle := lowerBound_le k (es.map Prod.fst)
  rw [List.length_map] at hle
  have hsplit := List.take_append_drop (lowerBound k (es.map Prod.fst)) es
  have hboth := hsplit ▸ h
  rw [sorted_append] at hboth
  have hbelow : ∀ e ∈ es.take (lowerBound k (es.map Prod.fst)), e.1 < k := by
    intro e he
    obtain ⟨i, hi, rfl⟩ := List.getElem_of_mem he
    rw [List.length_take] at hi
    have hkey := lt_of_lt_lowerBound (k := k) (show i < lowerBound k (es.map Prod.fst) by omega)
      (by rw [List.length_map]; omega)
    simpa using hkey
  have habove : ∀ e ∈ es.drop (lowerBound k (es.map Prod.fst)), k < e.1 := by
    intro e he
    refine lt_of_le_of_ne ?_ (hnew e (List.mem_of_mem_drop he)).symm
    obtain ⟨i, hi, rfl⟩ := List.getElem_of_mem he
    rw [List.length_drop] at hi
    have hkey := le_of_lowerBound_le h.keys (k := k)
      (Nat.le_add_right (lowerBound k (es.map Prod.fst)) i) (by simp; omega)
    simpa using hkey
  rw [insertEntry, insertIdx_eq_append hle, sorted_append]
  refine ⟨hboth.1, List.pairwise_cons.mpr ⟨habove, hboth.2.1⟩, fun e he f hf => ?_⟩
  rcases List.mem_cons.mp hf with rfl | hf
  · exact hbelow e he
  · exact hboth.2.2 e he f hf

theorem sorted_eraseIdx {es : List (K × V)} (h : Sorted es) (i : Nat) : Sorted (es.eraseIdx i) :=
  h.sublist (List.eraseIdx_sublist es i)

/-- Erasing an entry takes its key out. -/
theorem mem_eraseIdx_sorted {es : List (K × V)} (h : Sorted es) {i : Nat} (hi : i < es.length)
    {e : K × V} : e ∈ es.eraseIdx i ↔ e ∈ es ∧ e.1 ≠ es[i].1 := by
  rw [List.mem_eraseIdx_iff_getElem]
  constructor
  · rintro ⟨j, hj, hne, rfl⟩
    refine ⟨List.getElem_mem hj, fun hkey => hne ?_⟩
    by_contra hij
    rcases Nat.lt_or_gt_of_ne hij with hlt | hgt
    · exact absurd hkey (List.pairwise_iff_getElem.mp h j i hj hi hlt).ne
    · exact absurd hkey (List.pairwise_iff_getElem.mp h i j hi hj hgt).ne'
  · rintro ⟨he, hne⟩
    obtain ⟨j, hj, rfl⟩ := List.getElem_of_mem he
    refine ⟨j, hj, ?_, rfl⟩
    rintro rfl
    exact hne rfl

omit [LinearOrder K] in
theorem keys_setValue {es : List (K × V)} {i : Nat} (hi : i < es.length) (v : V) :
    (es.set i (es[i].1, v)).map Prod.fst = es.map Prod.fst := by
  refine List.ext_getElem (by simp) fun j _ _ => ?_
  rw [List.getElem_map, List.getElem_map, List.getElem_set]
  split
  · rename_i heq
    subst heq
    rfl
  · rfl

theorem sorted_setValue {es : List (K × V)} (h : Sorted es) {i : Nat} (hi : i < es.length) (v : V) :
    Sorted (es.set i (es[i].1, v)) := by
  have hkeys := h.keys
  rw [← keys_setValue hi v] at hkeys
  exact List.pairwise_map.mp hkeys

/-- Overwriting a value takes the old entry out and puts the new one in. -/
theorem mem_setValue_sorted {es : List (K × V)} (h : Sorted es) {i : Nat} (hi : i < es.length)
    (v : V) {e : K × V} :
    e ∈ es.set i (es[i].1, v) ↔ e = (es[i].1, v) ∨ e ∈ es ∧ e.1 ≠ es[i].1 := by
  rw [← mem_eraseIdx_sorted h hi]
  have hsplit : es.set i (es[i].1, v) = es.take i ++ (es[i].1, v) :: es.drop (i + 1) := by
    rw [List.set_eq_take_append_cons_drop, if_pos hi]
  rw [hsplit, List.eraseIdx_eq_take_drop_succ]
  simp only [List.mem_append, List.mem_cons]
  tauto

/-- The entries before `mid`, with `x` if it is below the cut `k`. -/
def lowerHalf (x : K) (v : V) (k : K) (mid : Nat) (es : List (K × V)) : List (K × V) :=
  if x < k then insertEntry x v (es.take mid) else es.take mid

/-- The entries from `mid` on, with `x` if it is not below the cut `k`. -/
def upperHalf (x : K) (v : V) (k : K) (mid : Nat) (es : List (K × V)) : List (K × V) :=
  if x < k then es.drop mid else insertEntry x v (es.drop mid)

theorem mem_halves {x k : K} {v : V} {mid : Nat} {es : List (K × V)} {e : K × V} :
    e ∈ lowerHalf x v k mid es ++ upperHalf x v k mid es ↔ e = (x, v) ∨ e ∈ es := by
  have hsplit : e ∈ es ↔ e ∈ es.take mid ∨ e ∈ es.drop mid := by
    rw [← List.mem_append, List.take_append_drop]
  rw [List.mem_append, lowerHalf, upperHalf, hsplit]
  split
  · rw [mem_insertEntry, or_assoc]
  · rw [mem_insertEntry, or_left_comm]

theorem length_halves (x k : K) (v : V) (mid : Nat) (es : List (K × V)) :
    (lowerHalf x v k mid es ++ upperHalf x v k mid es).length = es.length + 1 := by
  rw [List.length_append, lowerHalf, upperHalf]
  split <;> rw [length_insertEntry, List.length_take, List.length_drop] <;> omega

/-- A key taken out between smaller and larger ones. -/
theorem mem_between_of_erased {x : K} {pre es es' post : List (K × V)} (hpre : ∀ e ∈ pre, e.1 < x)
    (hpost : ∀ e ∈ post, x < e.1) {e : K × V} (hes : e ∈ es' ↔ e ∈ es ∧ e.1 ≠ x) :
    e ∈ pre ++ es' ++ post ↔ e ∈ pre ++ es ++ post ∧ e.1 ≠ x := by
  have hne : e ∈ pre ∨ e ∈ post → e.1 ≠ x := fun h => h.elim (fun h => (hpre e h).ne)
    fun h => (hpost e h).ne'
  simp only [List.mem_append, hes]
  tauto

omit [LinearOrder K] in
/-- A new entry between others. -/
theorem mem_between_of_inserted {a e : K × V} {pre es es' post : List (K × V)}
    (hes : e ∈ es' ↔ e = a ∨ e ∈ es) :
    e ∈ pre ++ es' ++ post ↔ e = a ∨ e ∈ pre ++ es ++ post := by
  simp only [List.mem_append, hes]
  tauto

/-- There are as many entries as keys mapped. -/
theorem ncard_keys {es : List (K × V)} (h : Sorted es) {m : K → Option V}
    (hm : ∀ k v, m k = some v ↔ (k, v) ∈ es) : {k | m k ≠ none}.ncard = es.length := by
  have hset : {k | m k ≠ none} = {k | k ∈ (es.map Prod.fst).toFinset} := by
    ext k
    simp only [Set.mem_ofPred_eq, List.mem_toFinset, List.mem_map, Option.ne_none_iff_exists']
    constructor
    · rintro ⟨v, hv⟩
      exact ⟨(k, v), (hm k v).mp hv, rfl⟩
    · rintro ⟨⟨j, v⟩, he, rfl⟩
      exact ⟨v, (hm j v).mpr he⟩
  have hnodup : (es.map Prod.fst).Nodup := h.keys.imp fun h => h.ne
  rw [hset, Finset.setOfPred_mem, Set.ncard_coe_finset, List.toFinset_card_of_nodup hnodup,
    List.length_map]

end OnionRelay.Lib
