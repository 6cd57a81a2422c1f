import Mathlib.Data.List.Perm.Basic
import OnionRelay.Lib.SortedEntries

/-!
# Rows

A `Row` is what an inner node of a search tree holds: items with separators
between them.  `Row.Chain p lo row hi` says that each item has `p` between its
separators, `Row.expand x g` replaces the item on the way to the key `x` by a row.

* `chain_pick`, `chain_expand`: the item on the way has `x` between its bounds,
  and a row over the same bounds may take its place.
* `index_eq`: the position of that item, from the lower bound of `x` among the
  separators.
* `keys_expand`, `map_items_expand`: an item replaced by two is a separator and an
  item inserted.
-/

namespace OnionRelay.Lib

variable {K V T : Type}

/-! ## Bounds -/

section Bounds

variable [LinearOrder K]

def AtLeast (lo : Option K) (k : K) : Prop := ∀ l ∈ lo, l ≤ k

def Under (hi : Option K) (k : K) : Prop := ∀ u ∈ hi, k < u

/-- There is room between the bounds. -/
def Apart (lo hi : Option K) : Prop := ∀ l ∈ lo, ∀ u ∈ hi, l < u

@[simp] theorem atLeast_none (k : K) : AtLeast none k := by simp [AtLeast]

@[simp] theorem atLeast_some {l k : K} : AtLeast (some l) k ↔ l ≤ k := by simp [AtLeast]

@[simp] theorem under_none (k : K) : Under none k := by simp [Under]

@[simp] theorem under_some {u k : K} : Under (some u) k ↔ k < u := by simp [Under]

@[simp] theorem apart_none_left (hi : Option K) : Apart none hi := by simp [Apart]

@[simp] theorem apart_none_right (lo : Option K) : Apart lo none := by simp [Apart]

@[simp] theorem apart_some_right {lo : Option K} {u : K} :
    Apart lo (some u) ↔ ∀ l ∈ lo, l < u := by simp [Apart]

@[simp] theorem apart_some_left {l : K} {hi : Option K} :
    Apart (some l) hi ↔ Under hi l := by simp [Apart, Under]

theorem AtLeast.trans_lt {lo : Option K} {k j : K} (h : ∀ l ∈ lo, l < k) (hkj : k ≤ j) :
    AtLeast lo j := fun l hl => (h l hl).le.trans hkj

end Bounds

/-! ## Rows -/

/-- Items with separators between them. -/
inductive Row (K T : Type) : Type
  | last (t : T) : Row K T
  | cons (t : T) (k : K) (r : Row K T) : Row K T

namespace Row

def keys : Row K T → List K
  | last _ => []
  | cons _ k r => k :: r.keys

def items : Row K T → List T
  | last t => [t]
  | cons t _ r => t :: r.items

/-- Two rows with a separator between them. -/
def join : Row K T → K → Row K T → Row K T
  | last t, k, s => cons t k s
  | cons t j r, k, s => cons t j (r.join k s)

/-- Each item has `p` between its separators. -/
def Chain (p : Option K → Option K → T → Prop) : Option K → Row K T → Option K → Prop
  | lo, last t, hi => p lo hi t
  | lo, cons t k r, hi => p lo (some k) t ∧ Chain p (some k) r hi

section Keys

variable [LinearOrder K]

/-- The number of separators not above `x`. -/
def index (x : K) : Row K T → Nat
  | last _ => 0
  | cons _ k r => if k ≤ x then r.index x + 1 else 0

/-- The item on the way to `x`. -/
def pick (x : K) : Row K T → T
  | last t => t
  | cons t k r => if k ≤ x then r.pick x else t

/-- The row with the item on the way to `x` replaced by a row. -/
def expand (x : K) (g : T → Row K T) : Row K T → Row K T
  | last t => g t
  | cons t k r => if k ≤ x then cons t k (r.expand x g) else (g t).join k r

end Keys

theorem length_items (r : Row K T) : r.items.length = r.keys.length + 1 := by
  induction r with
  | last t => rfl
  | cons t k r ih => rw [items, keys, List.length_cons, List.length_cons, ih]

theorem items_ne_nil (r : Row K T) : r.items ≠ [] := by
  cases r <;> simp [items]

@[simp] theorem keys_join (r : Row K T) (k : K) (s : Row K T) :
    (r.join k s).keys = r.keys ++ k :: s.keys := by
  induction r with
  | last t => rfl
  | cons t j r ih => rw [join, keys, ih, keys, List.cons_append]

@[simp] theorem items_join (r : Row K T) (k : K) (s : Row K T) :
    (r.join k s).items = r.items ++ s.items := by
  induction r with
  | last t => rfl
  | cons t j r ih => rw [join, items, ih, items, List.cons_append]

variable {p q : Option K → Option K → T → Prop} {lo hi : Option K}

theorem Chain.mono (hpq : ∀ a b t, p a b t → q a b t) : ∀ {lo : Option K} {r : Row K T},
    Chain p lo r hi → Chain q lo r hi := by
  intro lo r
  induction r generalizing lo with
  | last t => exact hpq _ _ _
  | cons t k r ih => exact fun h => ⟨hpq _ _ _ h.1, ih h.2⟩

theorem chain_join {r s : Row K T} {k : K} :
    Chain p lo (r.join k s) hi ↔ Chain p lo r (some k) ∧ Chain p (some k) s hi := by
  induction r generalizing lo with
  | last t => exact Iff.rfl
  | cons t j r ih => rw [join, Chain, Chain, ih, and_assoc]

variable [LinearOrder K]

theorem index_le (x : K) (r : Row K T) : r.index x ≤ r.keys.length := by
  induction r with
  | last t => exact Nat.le_refl 0
  | cons t k r ih =>
    rw [index, keys, List.length_cons]
    split <;> omega

theorem getElem?_items_index (x : K) (r : Row K T) : r.items[r.index x]? = some (r.pick x) := by
  induction r with
  | last t => rfl
  | cons t k r ih =>
    rw [items, index, pick]
    split
    · rw [List.getElem?_cons_succ, ih]
    · rfl

theorem pick_mem (x : K) (r : Row K T) : r.pick x ∈ r.items :=
  List.mem_of_getElem? (getElem?_items_index x r)

/-- The items after an update: those of the new row in place of the picked one. -/
theorem exists_items_expand (x : K) (r : Row K T) : ∃ pre post : List T,
    r.items = pre ++ r.pick x :: post ∧
      ∀ g : T → Row K T, (r.expand x g).items = pre ++ (g (r.pick x)).items ++ post := by
  induction r with
  | last t => exact ⟨[], [], rfl, fun g => by simp [expand, pick]⟩
  | cons t k r ih =>
    rw [items, pick]
    by_cases hk : k ≤ x
    · obtain ⟨pre, post, heq, hexp⟩ := ih
      refine ⟨t :: pre, post, by simp [hk, heq], fun g => ?_⟩
      simp [expand, hk, items, hexp]
    · refine ⟨[], r.items, by simp [hk], fun g => ?_⟩
      simp [expand, hk]

theorem Chain.apart (hp : ∀ a b t, p a b t → Apart a b) : ∀ {lo : Option K} {r : Row K T},
    Chain p lo r hi → Apart lo hi := by
  intro lo r
  induction r generalizing lo with
  | last t => exact hp _ _ _
  | cons t k r ih =>
    rintro ⟨hfirst, hrest⟩
    intro l hl u hu
    exact lt_trans (hp _ _ _ hfirst l hl k rfl) (ih hrest k rfl u hu)

theorem Chain.exists_pick (x : K) : ∀ {lo : Option K} {r : Row K T}, Chain p lo r hi →
    ∃ a b, p a b (r.pick x) := by
  intro lo r
  induction r generalizing lo with
  | last t => exact fun h => ⟨lo, hi, h⟩
  | cons t k r ih =>
    rintro ⟨hfirst, hrest⟩
    rw [pick]
    split
    · exact ih hrest
    · exact ⟨lo, some k, hfirst⟩

theorem chain_pick {x : K} : ∀ {lo : Option K} {r : Row K T}, Chain p lo r hi → AtLeast lo x →
    Under hi x → ∃ a b, AtLeast a x ∧ Under b x ∧ p a b (r.pick x) := by
  intro lo r
  induction r generalizing lo with
  | last t => exact fun h hlo hhi => ⟨lo, hi, hlo, hhi, h⟩
  | cons t k r ih =>
    rintro ⟨hfirst, hrest⟩ hlo hhi
    rw [pick]
    split
    · rename_i hk
      exact ih hrest (atLeast_some.mpr hk) hhi
    · rename_i hk
      exact ⟨lo, some k, hlo, under_some.mpr (not_le.mp hk), hfirst⟩

/-- **A row over the same bounds may take the place of an item.** -/
theorem chain_expand {x : K} {g : T → Row K T} : ∀ {lo : Option K} {r : Row K T},
    Chain p lo r hi → AtLeast lo x → Under hi x →
      (∀ a b, AtLeast a x → Under b x → p a b (r.pick x) → Chain p a (g (r.pick x)) b) →
        Chain p lo (r.expand x g) hi := by
  intro lo r
  induction r generalizing lo with
  | last t => exact fun h hlo hhi hg => hg lo hi hlo hhi h
  | cons t k r ih =>
    rintro ⟨hfirst, hrest⟩ hlo hhi hg
    rw [pick] at hg
    rw [expand]
    by_cases hk : k ≤ x
    · rw [if_pos hk] at hg ⊢
      exact ⟨hfirst, ih hrest (atLeast_some.mpr hk) hhi hg⟩
    · rw [if_neg hk] at hg ⊢
      exact chain_join.mpr ⟨hg _ _ hlo (under_some.mpr (not_le.mp hk)) hfirst, hrest⟩

/-- What holds of the items between their bounds holds of all between the outer ones. -/
theorem Chain.forall_items {f : K → T → Prop} (hp : ∀ a b t, p a b t → Apart a b)
    (hlow : ∀ a b t, p a b t → ∀ k, f k t → AtLeast a k)
    (hhigh : ∀ a b t, p a b t → ∀ k, f k t → Under b k) : ∀ {lo : Option K} {r : Row K T},
    Chain p lo r hi → ∀ t ∈ r.items, ∀ k, f k t → AtLeast lo k ∧ Under hi k := by
  intro lo r
  induction r generalizing lo with
  | last t =>
    intro h s hs k hk
    obtain rfl := List.mem_singleton.mp hs
    exact ⟨hlow _ _ _ h k hk, hhigh _ _ _ h k hk⟩
  | cons t j r ih =>
    rintro ⟨hfirst, hrest⟩ s hs k hk
    rcases List.mem_cons.mp hs with rfl | hs
    · have hkj := under_some.mp (hhigh _ _ _ hfirst k hk)
      refine ⟨hlow _ _ _ hfirst k hk, fun u hu => ?_⟩
      exact lt_trans hkj (Chain.apart hp hrest j rfl u hu)
    · obtain ⟨hge, hlt⟩ := ih hrest s hs k hk
      refine ⟨fun l hl => ?_, hlt⟩
      exact (hp _ _ _ hfirst l hl j rfl).le.trans (atLeast_some.mp hge)

/-- The items before the one on the way to `x` are below `x`, those behind it above: `f` says
which keys an item has. -/
theorem Chain.exists_items_pick {x : K} {f : K → T → Prop} (hp : ∀ a b t, p a b t → Apart a b)
    (hlow : ∀ a b t, p a b t → ∀ k, f k t → AtLeast a k)
    (hhigh : ∀ a b t, p a b t → ∀ k, f k t → Under b k) : ∀ {lo : Option K} {r : Row K T},
    Chain p lo r hi → ∃ pre post : List T, r.items = pre ++ r.pick x :: post ∧
      (∀ t ∈ pre, ∀ k, f k t → k < x) ∧ ∀ t ∈ post, ∀ k, f k t → x < k := by
  intro lo r
  induction r generalizing lo with
  | last t => exact fun _ => ⟨[], [], rfl, by simp, by simp⟩
  | cons t j r ih =>
    rintro ⟨hfirst, hrest⟩
    rw [items, pick]
    by_cases hj : j ≤ x
    · rw [if_pos hj]
      obtain ⟨pre, post, heq, hpre, hpost⟩ := ih hrest
      refine ⟨t :: pre, post, by rw [heq, List.cons_append], fun s hs k hk => ?_, hpost⟩
      rcases List.mem_cons.mp hs with rfl | hs
      · exact (under_some.mp (hhigh _ _ _ hfirst k hk)).trans_le hj
      · exact hpre s hs k hk
    · rw [if_neg hj]
      refine ⟨[], r.items, rfl, by simp, fun s hs k hk => ?_⟩
      have hbound := Chain.forall_items hp hlow hhigh hrest s hs k hk
      exact (not_le.mp hj).trans_le (atLeast_some.mp hbound.1)

/-- The entries of a row: those before the item on the way to `x` are below `x`,
those behind it above. -/
theorem exists_flatMap_expand {x : K} (f : T → List (K × V))
    (hp : ∀ a b t, p a b t → Apart a b)
    (hf : ∀ a b t, p a b t → ∀ e ∈ f t, AtLeast a e.1 ∧ Under b e.1) :
    ∀ {lo : Option K} {r : Row K T}, Chain p lo r hi → ∃ pre post : List (K × V),
      r.items.flatMap f = pre ++ f (r.pick x) ++ post ∧
      (∀ g : T → Row K T,
        (r.expand x g).items.flatMap f = pre ++ (g (r.pick x)).items.flatMap f ++ post) ∧
      (∀ e ∈ pre, e.1 < x) ∧ ∀ e ∈ post, x < e.1 := by
  intro lo r
  induction r generalizing lo with
  | last t =>
    intro _
    exact ⟨[], [], by simp [items, pick], fun g => by simp [expand, pick], by simp, by simp⟩
  | cons t k r ih =>
    rintro ⟨hfirst, hrest⟩
    by_cases hk : k ≤ x
    · obtain ⟨pre, post, heq, hexp, hpre, hpost⟩ := ih hrest
      refine ⟨f t ++ pre, post, by simp [items, pick, hk, heq], fun g => ?_, fun e he => ?_, hpost⟩
      · simp [expand, pick, hk, items, hexp]
      · rcases List.mem_append.mp he with he | he
        · exact lt_of_lt_of_le (under_some.mp (hf _ _ _ hfirst e he).2) hk
        · exact hpre e he
    · refine ⟨[], r.items.flatMap f, by simp [items, pick, hk], fun g => ?_, by simp, fun e he => ?_⟩
      · simp [expand, hk, pick]
      · obtain ⟨s, hs, hes⟩ := List.mem_flatMap.mp he
        have hbound := Chain.forall_items (f := fun j t => ∃ e ∈ f t, e.1 = j) hp
          (fun a b t h j ⟨e, he, hj⟩ => hj ▸ (hf a b t h e he).1)
          (fun a b t h j ⟨e, he, hj⟩ => hj ▸ (hf a b t h e he).2) hrest s hs e.1 ⟨e, hes, rfl⟩
        exact lt_of_lt_of_le (not_le.mp hk) (atLeast_some.mp hbound.1)

/-! ## Separators -/

/-- The separators increase, and are above the lower bound. -/
theorem Chain.keys (hp : ∀ a b t, p a b t → Apart a b) : ∀ {lo : Option K} {r : Row K T},
    Chain p lo r hi → r.keys.Pairwise (· < ·) ∧ ∀ k ∈ r.keys, ∀ l ∈ lo, l < k := by
  intro lo r
  induction r generalizing lo with
  | last t => exact fun _ => ⟨List.Pairwise.nil, by simp [Row.keys]⟩
  | cons t j r ih =>
    rintro ⟨hfirst, hrest⟩
    obtain ⟨hsorted, habove⟩ := ih hrest
    have hj := hp _ _ _ hfirst
    refine ⟨List.pairwise_cons.mpr ⟨fun k hk => habove k hk j rfl, hsorted⟩, fun k hk l hl => ?_⟩
    rcases List.mem_cons.mp hk with rfl | hk
    · exact hj l hl k rfl
    · exact (hj l hl j rfl).trans (habove k hk j rfl)

theorem Chain.keys_under (hp : ∀ a b t, p a b t → Apart a b) : ∀ {lo : Option K} {r : Row K T},
    Chain p lo r hi → ∀ k ∈ r.keys, Under hi k := by
  intro lo r
  induction r generalizing lo with
  | last t => intro _ k hk; exact absurd hk List.not_mem_nil
  | cons t j r ih =>
    rintro ⟨-, hrest⟩ k hk
    rcases List.mem_cons.mp hk with rfl | hk
    · exact apart_some_left.mp (Chain.apart hp hrest)
    · exact ih hrest k hk

theorem index_eq_length {x : K} {r : Row K T} (h : ∀ k ∈ r.keys, k ≤ x) :
    r.index x = r.keys.length := by
  induction r with
  | last t => rfl
  | cons t j r ih =>
    rw [index, if_pos (h j List.mem_cons_self), ih fun k hk => h k (List.mem_cons_of_mem _ hk)]
    rfl

/-- What is above the bound of the item on the way is above that of the row. -/
theorem Chain.above_pick {x k : K} (hp : ∀ a b t, p a b t → Apart a b) :
    ∀ {lo : Option K} {r : Row K T}, Chain p lo r hi →
      (∀ a b, p a b (r.pick x) → ∀ l ∈ a, l < k) → ∀ l ∈ lo, l < k := by
  intro lo r
  induction r generalizing lo with
  | last t => exact fun h habove => habove _ _ h
  | cons t j r ih =>
    rintro ⟨hfirst, hrest⟩ habove l hl
    rw [pick] at habove
    by_cases hj : j ≤ x
    · rw [if_pos hj] at habove
      exact (hp _ _ _ hfirst l hl j rfl).trans (ih hrest habove j rfl)
    · rw [if_neg hj] at habove
      exact habove _ _ hfirst l hl

/-- **The way to `x`**: from its lower bound, one further if it is a separator. -/
theorem index_eq {x : K} : ∀ {r : Row K T}, r.keys.Pairwise (· < ·) → r.index x =
    if r.keys[lowerBound x r.keys]? = some x then lowerBound x r.keys + 1
    else lowerBound x r.keys := by
  intro r
  induction r with
  | last t => intro _; simp [index, Row.keys, lowerBound]
  | cons t j r ih =>
    intro hsorted
    obtain ⟨hhead, htail⟩ := List.pairwise_cons.mp hsorted
    rw [index, Row.keys, lowerBound, List.takeWhile_cons]
    rcases lt_trichotomy j x with hlt | rfl | hgt
    · simp only [hlt.le, hlt, decide_true, if_true, List.length_cons, List.getElem?_cons_succ]
      rw [ih htail, lowerBound]
      split <;> rfl
    · have hrest : r.index j = 0 := by
        cases r with
        | last t => rfl
        | cons t k r => exact if_neg (not_le.mpr (hhead k (List.mem_cons_self ..)))
      simp [hrest]
    · simp [not_le.mpr hgt, not_lt.mpr hgt.le, hgt.ne']

/-- A key strictly between the bounds of the item on the way belongs behind it. -/
theorem Chain.lowerBound_keys {x k : K} (hp : ∀ a b t, p a b t → Apart a b) :
    ∀ {lo : Option K} {r : Row K T}, Chain p lo r hi →
      (∀ a b, p a b (r.pick x) → (∀ l ∈ a, l < k) ∧ Under b k) →
        lowerBound k r.keys = r.index x := by
  intro lo r
  induction r generalizing lo with
  | last t => exact fun _ _ => rfl
  | cons t j r ih =>
    rintro ⟨hfirst, hrest⟩ hk
    rw [pick] at hk
    rw [index, Row.keys, lowerBound, List.takeWhile_cons]
    by_cases hj : j ≤ x
    · rw [if_pos hj] at hk ⊢
      have habove : j < k := Chain.above_pick hp hrest (fun a b hab => (hk a b hab).1) j rfl
      rw [if_pos (by simpa using habove), List.length_cons, ← ih hrest hk, lowerBound]
    · rw [if_neg hj] at hk ⊢
      have hbelow : k < j := under_some.mp (hk _ _ hfirst).2
      rw [if_neg (by simpa using hbelow.le), List.length_nil]

section Expand

variable {x k : K} {g : T → Row K T} {l t : T} {β : Type} (f : T → β)

theorem keys_expand_last : ∀ {r : Row K T}, g (r.pick x) = last t → (r.expand x g).keys = r.keys := by
  intro r
  induction r with
  | last s => intro hg; rw [expand, show g s = last t from hg]; rfl
  | cons s j r ih =>
    intro hg
    rw [pick] at hg
    rw [expand]
    by_cases hj : j ≤ x
    · rw [if_pos hj] at hg ⊢
      rw [Row.keys, ih hg, Row.keys]
    · rw [if_neg hj] at hg ⊢
      rw [hg]
      rfl

theorem map_items_expand_last : ∀ {r : Row K T}, g (r.pick x) = last t → f t = f (r.pick x) →
    (r.expand x g).items.map f = r.items.map f := by
  intro r
  induction r with
  | last s =>
    intro hg hf
    rw [expand, show g s = last t from hg, items, items, List.map_singleton, hf]
    rfl
  | cons s j r ih =>
    intro hg hf
    rw [pick] at hg hf
    rw [expand]
    by_cases hj : j ≤ x
    · rw [if_pos hj] at hg hf ⊢
      rw [items, List.map_cons, ih hg hf, items, List.map_cons]
    · rw [if_neg hj] at hg hf ⊢
      rw [hg, join, items, List.map_cons, hf, items, List.map_cons]

/-- **An item replaced by two**: a new separator. -/
theorem keys_expand : ∀ {r : Row K T}, g (r.pick x) = cons l k (last t) →
    (r.expand x g).keys = r.keys.insertIdx (r.index x) k := by
  intro r
  induction r with
  | last s => intro hg; rw [expand, show g s = _ from hg]; rfl
  | cons s j r ih =>
    intro hg
    rw [pick] at hg
    rw [expand, index]
    by_cases hj : j ≤ x
    · rw [if_pos hj] at hg ⊢
      rw [if_pos hj, Row.keys, ih hg, Row.keys, List.insertIdx_succ_cons]
    · rw [if_neg hj] at hg ⊢
      rw [if_neg hj, hg]
      rfl

/-- **An item replaced by two**: a new item behind the old one. -/
theorem map_items_expand : ∀ {r : Row K T}, g (r.pick x) = cons l k (last t) →
    f l = f (r.pick x) →
      (r.expand x g).items.map f = (r.items.map f).insertIdx (r.index x + 1) (f t) := by
  intro r
  induction r with
  | last s =>
    intro hg hf
    rw [expand, show g s = _ from hg]
    simp only [items, index, List.map_cons, List.map_nil, List.insertIdx_succ_cons,
      List.insertIdx_zero, hf]
    rfl
  | cons s j r ih =>
    intro hg hf
    rw [pick] at hg hf
    rw [expand, index]
    by_cases hj : j ≤ x
    · rw [if_pos hj] at hg hf ⊢
      rw [if_pos hj, items, List.map_cons, ih hg hf, items, List.map_cons, List.insertIdx_succ_cons]
    · rw [if_neg hj] at hg hf ⊢
      rw [if_neg hj, hg]
      simp only [join, items, List.map_cons, List.insertIdx_succ_cons, List.insertIdx_zero, hf]

end Expand

end Row

end OnionRelay.Lib
