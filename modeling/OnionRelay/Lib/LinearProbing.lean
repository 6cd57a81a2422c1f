import Mathlib.Data.List.Perm.Subperm
import Mathlib.Data.List.Nodup
import Mathlib.Logic.Function.Basic
import Mathlib.Order.Nat
import Mathlib.Tactic.Common

/-!
# Linear probing on a circle

A table of `n` slots in a circle, each empty or with an entry.  An entry has a home slot and
is looked for from there on.

* `Chained`: no slot between the home of an entry and its own is empty.
* `probe`: the search for the first slot at which a condition holds.
* `Gap`: deletion by shifting entries back.  The slot of the gap counts as full until it is
  closed, and no entry that was passed needs it.
-/

namespace OnionRelay.Lib

variable {α : Type} {n : Nat}

/-! ## Distances -/

/-- The steps from slot `a` to slot `b`. -/
def steps (n a b : Nat) : Nat := if a ≤ b then b - a else n + b - a

section Dist

variable {a b c i : Nat}

@[simp] theorem steps_self (n a : Nat) : steps n a a = 0 := by
  rw [steps, if_pos (Nat.le_refl a), Nat.sub_self]

theorem steps_lt (ha : a < n) (hb : b < n) : steps n a b < n := by
  rw [steps]
  split <;> omega

theorem steps_injective (ha : a < n) (hb : b < n) (hc : c < n) (h : steps n a b = steps n a c) : b = c := by
  rw [steps, steps] at h
  split_ifs at h <;> omega

theorem steps_eq_zero (ha : a < n) (hb : b < n) (h : steps n a b = 0) : b = a :=
  steps_injective ha hb ha (h.trans (steps_self n a).symm)

/-- The way from `a` to `c` by `b`. -/
theorem steps_add (ha : a < n) (hb : b < n) (hc : c < n) (h : steps n a b ≤ steps n a c) :
    steps n a b + steps n b c = steps n a c := by
  rw [steps, steps] at h
  rw [steps, steps, steps]
  split_ifs at h ⊢ <;> omega

/-- A slot between `b` and `c` is between `a` and `c` when `b` is. -/
theorem steps_le_of_between {x : Nat} (ha : a < n) (hb : b < n) (hc : c < n) (hx : x < n)
    (h : steps n a b ≤ steps n a c) (h' : steps n b x ≤ steps n b c) : steps n a x ≤ steps n a c := by
  rw [steps, steps] at h h'
  rw [steps, steps]
  split_ifs at h h' ⊢ <;> omega

theorem mod_lt (hi : i < n) : (i + 1) % n < n := Nat.mod_lt _ (Nat.lt_of_le_of_lt (Nat.zero_le i) hi)

theorem steps_next (ha : a < n) (hi : i < n) (hne : (i + 1) % n ≠ a) : steps n a ((i + 1) % n) = steps n a i + 1 := by
  rcases Nat.lt_or_ge (i + 1) n with hlt | hge
  · rw [Nat.mod_eq_of_lt hlt] at hne ⊢
    rw [steps, steps]
    split_ifs <;> omega
  · obtain rfl : n = i + 1 := by omega
    rw [Nat.mod_self] at hne ⊢
    rw [steps, steps]
    split_ifs <;> omega

/-- The circle is closed behind the last slot. -/
theorem steps_of_next_eq (ha : a < n) (hi : i < n) (h : (i + 1) % n = a) : steps n a i + 1 = n := by
  rcases Nat.lt_or_ge (i + 1) n with hlt | hge
  · rw [Nat.mod_eq_of_lt hlt] at h
    rw [steps]
    split <;> omega
  · obtain rfl : n = i + 1 := by omega
    rw [Nat.mod_self] at h
    rw [steps]
    split <;> omega

end Dist

/-! ## The search -/

/-- The first slot from `i` on at which the search stops, within `fuel` rounds. -/
def probe (n : Nat) (stop : Nat → Bool) : Nat → Nat → Option Nat
  | 0, _ => none
  | fuel + 1, i => if stop i then some i else probe n stop fuel ((i + 1) % n)

/-- Slot `i` is the first from `a` on at which the search stops. -/
structure IsFirst (n : Nat) (stop : Nat → Bool) (a i : Nat) : Prop where
  lt : i < n
  stops : stop i = true
  before : ∀ x < n, steps n a x < steps n a i → stop x = false

theorem IsFirst.probe_eq {stop : Nat → Bool} {a i : Nat} (ha : a < n) (h : IsFirst n stop a i) :
    ∀ fuel j, j < n → steps n a j ≤ steps n a i → steps n a i < steps n a j + fuel → probe n stop fuel j = some i := by
  intro fuel
  induction fuel with
  | zero =>
    intro j _ hle hlt
    omega
  | succ fuel ih =>
    intro j hj hle hlt
    rw [probe]
    by_cases heq : steps n a j = steps n a i
    · obtain rfl := steps_injective ha hj h.lt heq
      rw [if_pos h.stops]
    · have hgo := h.before j hj (by omega)
      rw [hgo, if_neg Bool.false_ne_true]
      have hin := steps_lt ha h.lt
      have hne : (j + 1) % n ≠ a := fun hnext => by
        have hlast := steps_of_next_eq ha hj hnext
        omega
      have hnext := steps_next ha hj hne
      exact ih _ (mod_lt hj) (by omega) (by omega)

theorem IsFirst.probe {stop : Nat → Bool} {a i : Nat} (ha : a < n) (h : IsFirst n stop a i) :
    probe n stop n a = some i := by
  have hin := steps_lt ha h.lt
  exact h.probe_eq ha n a ha (by rw [steps_self]; omega) (by rw [steps_self]; omega)

/-- A search that can stop has a first slot to stop at. -/
theorem exists_isFirst {stop : Nat → Bool} {a : Nat} (h : ∃ i < n, stop i = true) : ∃ i, IsFirst n stop a i := by
  classical
  have hd : ∃ d, ∃ i < n, stop i = true ∧ steps n a i = d := by
    obtain ⟨i, hi, hstop⟩ := h
    exact ⟨_, i, hi, hstop, rfl⟩
  obtain ⟨i, hi, hstop, hdist⟩ := Nat.find_spec hd
  refine ⟨i, hi, hstop, fun x hx hlt => ?_⟩
  by_contra hnot
  refine Nat.find_min hd (show steps n a x < Nat.find hd by omega) ⟨x, hx, ?_, rfl⟩
  exact (Bool.not_eq_false _).mp hnot

/-- The search of a loop that also gives up when it is at its first slot again; `none` while
it is still running. -/
def probeLoop (n : Nat) (stop : Nat → Bool) (start : Nat) : Nat → Nat → Option (Option Nat)
  | 0, _ => none
  | fuel + 1, i =>
    if stop i then some (some i)
    else if (i + 1) % n = start then some none
    else probeLoop n stop start fuel ((i + 1) % n)

theorem IsFirst.probeLoop_eq {stop : Nat → Bool} {a i : Nat} (ha : a < n) (h : IsFirst n stop a i) :
    ∀ fuel j, j < n → steps n a j ≤ steps n a i → steps n a i < steps n a j + fuel →
      probeLoop n stop a fuel j = some (some i) := by
  intro fuel
  induction fuel with
  | zero =>
    intro j _ hle hlt
    omega
  | succ fuel ih =>
    intro j hj hle hlt
    rw [probeLoop]
    by_cases heq : steps n a j = steps n a i
    · obtain rfl := steps_injective ha hj h.lt heq
      rw [if_pos h.stops]
    · have hgo := h.before j hj (by omega)
      have hin := steps_lt ha h.lt
      have hne : (j + 1) % n ≠ a := fun hnext => by
        have hlast := steps_of_next_eq ha hj hnext
        omega
      rw [hgo, if_neg Bool.false_ne_true, if_neg hne]
      have hnext := steps_next ha hj hne
      exact ih _ (mod_lt hj) (by omega) (by omega)

theorem IsFirst.probeLoop {stop : Nat → Bool} {a i : Nat} (ha : a < n) (h : IsFirst n stop a i) :
    probeLoop n stop a n a = some (some i) := by
  have hin := steps_lt ha h.lt
  exact h.probeLoop_eq ha n a ha (by rw [steps_self]; omega) (by rw [steps_self]; omega)

/-! ## The table -/

section Table

variable (home : α → Nat) (t : Nat → Option α)

/-- No slot between the home of an entry and its own is empty. -/
def Chained (n : Nat) : Prop :=
  ∀ i < n, ∀ a, t i = some a → ∀ x < n, steps n (home a) x < steps n (home a) i → t x ≠ none

/-- The table has the entries `S`, each in one slot. -/
structure Stores (n : Nat) (t : Nat → Option α) (S : α → Prop) : Prop where
  mem : ∀ a, S a ↔ ∃ i < n, t i = some a
  unique : ∀ i < n, ∀ j < n, ∀ a, t i = some a → t j = some a → i = j

variable {home t} {S : α → Prop}

/-- The search for an entry ends at its slot when no other entry on the way stops it. -/
theorem Chained.isFirst {stop : Nat → Bool} (hchain : Chained home t n) {i : Nat} {a : α} (hi : i < n)
    (hentry : t i = some a) (hstop : stop i = true)
    (hother : ∀ x < n, x ≠ i → t x ≠ none → stop x = false) : IsFirst n stop (home a) i := by
  refine ⟨hi, hstop, fun x hx hlt => hother x hx (fun heq => ?_) (hchain i hi a hentry x hx hlt)⟩
  subst heq
  exact Nat.lt_irrefl _ hlt

theorem Chained.congr {home' : α → Nat} (hchain : Chained home t n)
    (hsame : ∀ i < n, ∀ a, t i = some a → home' a = home a) : Chained home' t n := by
  intro i hi a hentry
  rw [hsame i hi a hentry]
  exact hchain i hi a hentry

/-- An entry put into the first empty slot from its home on is reached. -/
theorem Chained.update (hchain : Chained home t n) {i : Nat} {a : α} (hempty : t i = none)
    (hway : ∀ x < n, steps n (home a) x < steps n (home a) i → t x ≠ none) :
    Chained home (Function.update t i (some a)) n := by
  intro j hj b hentry x hx hlt
  by_cases hxi : x = i
  · rw [hxi, Function.update_self]
    exact Option.some_ne_none a
  rw [Function.update_of_ne hxi]
  by_cases hji : j = i
  · subst hji
    rw [Function.update_self] at hentry
    cases hentry
    exact hway x hx hlt
  · rw [Function.update_of_ne hji] at hentry
    exact hchain j hj b hentry x hx hlt

theorem Stores.update (h : Stores n t S) {i : Nat} {a : α} (hi : i < n) (hempty : t i = none) (hnew : ¬ S a) :
    Stores n (Function.update t i (some a)) (fun b => b = a ∨ S b) where
  mem b := by
    constructor
    · rintro (rfl | hb)
      · exact ⟨i, hi, Function.update_self ..⟩
      · obtain ⟨j, hj, hentry⟩ := (h.mem b).mp hb
        have hji : j ≠ i := fun heq => by
          rw [heq, hempty] at hentry
          cases hentry
        exact ⟨j, hj, by rw [Function.update_of_ne hji, hentry]⟩
    · rintro ⟨j, hj, hentry⟩
      by_cases hji : j = i
      · rw [hji, Function.update_self] at hentry
        exact Or.inl (Option.some.inj hentry).symm
      · rw [Function.update_of_ne hji] at hentry
        exact Or.inr ((h.mem b).mpr ⟨j, hj, hentry⟩)
  unique j hj k hk b hentry hentry' := by
    have hold : ∀ l, l < n → l ≠ i → Function.update t i (some a) l = some b → b ≠ a := by
      rintro l hl hli hentryL rfl
      rw [Function.update_of_ne hli] at hentryL
      exact hnew ((h.mem b).mpr ⟨l, hl, hentryL⟩)
    by_cases hji : j = i
    · by_cases hki : k = i
      · rw [hji, hki]
      · rw [hji, Function.update_self] at hentry
        exact absurd (Option.some.inj hentry).symm (hold k hk hki hentry')
    · by_cases hki : k = i
      · rw [hki, Function.update_self] at hentry'
        exact absurd (Option.some.inj hentry').symm (hold j hj hji hentry)
      · rw [Function.update_of_ne hji] at hentry
        rw [Function.update_of_ne hki] at hentry'
        exact h.unique j hj k hk b hentry hentry'

/-- A table with more slots than entries has an empty slot. -/
theorem Stores.exists_empty {entries : List α} (h : Stores n t (· ∈ entries)) (hlen : entries.length < n) :
    ∃ e < n, t e = none := by
  by_contra hnot
  have hfull : ∀ i < n, ∃ a, t i = some a := fun i hi => by
    refine Option.ne_none_iff_exists'.mp fun hnone => hnot ⟨i, hi, hnone⟩
  have hnodup : ((List.range n).map t).Nodup := by
    refine List.Nodup.map_on (fun i hi j hj heq => ?_) List.nodup_range
    obtain ⟨a, ha⟩ := hfull i (List.mem_range.mp hi)
    exact h.unique i (List.mem_range.mp hi) j (List.mem_range.mp hj) a ha (heq ▸ ha)
  have hsub : (List.range n).map t ⊆ entries.map some := by
    intro o ho
    obtain ⟨i, hi, rfl⟩ := List.mem_map.mp ho
    obtain ⟨a, ha⟩ := hfull i (List.mem_range.mp hi)
    rw [ha]
    exact List.mem_map_of_mem ((h.mem a).mpr ⟨i, List.mem_range.mp hi, ha⟩)
  have hle := (hnodup.subperm hsub).length_le
  rw [List.length_map, List.length_map, List.length_range] at hle
  omega

/-- An entry taken out of its slot. -/
theorem Stores.erase (h : Stores n t S) {i : Nat} {a : α} (hi : i < n) (hentry : t i = some a) :
    Stores n (Function.update t i none) (fun b => S b ∧ b ≠ a) where
  mem b := by
    constructor
    · rintro ⟨hb, hne⟩
      obtain ⟨j, hj, hentryJ⟩ := (h.mem b).mp hb
      have hji : j ≠ i := fun heq => by
        rw [heq, hentry] at hentryJ
        exact hne (Option.some.inj hentryJ).symm
      exact ⟨j, hj, by rw [Function.update_of_ne hji, hentryJ]⟩
    · rintro ⟨j, hj, hentryJ⟩
      have hji : j ≠ i := fun heq => by
        rw [heq, Function.update_self] at hentryJ
        cases hentryJ
      rw [Function.update_of_ne hji] at hentryJ
      refine ⟨(h.mem b).mpr ⟨j, hj, hentryJ⟩, ?_⟩
      rintro rfl
      exact hji (h.unique j hj i hi b hentryJ hentry)
  unique j hj k hk b hentryJ hentryK := by
    have hne : ∀ l, Function.update t i none l = some b → l ≠ i := by
      rintro l hentryL rfl
      rw [Function.update_self] at hentryL
      cases hentryL
    rw [Function.update_of_ne (hne j hentryJ)] at hentryJ
    rw [Function.update_of_ne (hne k hentryK)] at hentryK
    exact h.unique j hj k hk b hentryJ hentryK

/-- An entry put from its slot into another, which counted as empty. -/
theorem Stores.move {g j : Nat} {b : α} (h : Stores n (Function.update t g none) S) (hg : g < n) (hj : j < n)
    (hne : j ≠ g) (hentry : t j = some b) :
    Stores n (Function.update (Function.update t g (some b)) j none) S := by
  have hentry' : Function.update t g none j = some b := by rw [Function.update_of_ne hne, hentry]
  have hb : S b := (h.mem b).mpr ⟨j, hj, hentry'⟩
  have hempty : Function.update (Function.update t g none) j none g = none := by
    rw [Function.update_of_ne hne.symm, Function.update_self]
  have hput := (h.erase hj hentry').update hg hempty (fun hmem => hmem.2 rfl)
  have hsame : Function.update (Function.update (Function.update t g none) j none) g (some b) =
      Function.update (Function.update t g (some b)) j none := by
    rw [Function.update_comm hne.symm none none t, Function.update_idem, Function.update_comm hne]
  rw [hsame] at hput
  refine ⟨fun a => ⟨fun ha => (hput.mem a).mp ?_, fun ha => ?_⟩, hput.unique⟩
  · by_cases hab : a = b
    · exact Or.inl hab
    · exact Or.inr ⟨ha, hab⟩
  · rcases (hput.mem a).mpr ha with rfl | ha
    · exact hb
    · exact ha.1

/-! ## Deletion by shifting back -/

/-- An entry was taken out of slot `g`, which is not emptied yet; the entries up to `j` do not
need it, and slot `e` behind them is empty. -/
structure Gap (home : α → Nat) (n : Nat) (t : Nat → Option α) (e g j : Nat) : Prop where
  gap_lt : g < n
  lt : j < n
  end_lt : e < n
  empty : t e = none
  before : steps n g j < steps n g e
  full : t g ≠ none
  way : ∀ i < n, i ≠ g → ∀ a, t i = some a → ∀ x < n, steps n (home a) x < steps n (home a) i → t x ≠ none
  passed : ∀ i < n, ∀ a, t i = some a → 0 < steps n g i → steps n g i ≤ steps n g j →
    steps n (home a) i < steps n (home a) g

namespace Gap

variable {e g j : Nat}

theorem start (hchain : Chained home t n) {i : Nat} {a : α} (hi : i < n) (hentry : t i = some a) (he : e < n)
    (hempty : t e = none) : Gap home n t e i i where
  gap_lt := hi
  lt := hi
  end_lt := he
  empty := hempty
  before := by
    rw [steps_self]
    refine Nat.pos_of_ne_zero fun hzero => ?_
    rw [← steps_eq_zero hi he hzero, hempty] at hentry
    cases hentry
  full := by
    rw [hentry]
    exact Option.some_ne_none a
  way i hi _ a := hchain i hi a
  passed x _ b _ hpos hle := by
    rw [steps_self] at hle
    omega

theorem next_ne (h : Gap home n t e g j) : (j + 1) % n ≠ g := by
  intro heq
  have hlast := steps_of_next_eq h.gap_lt h.lt heq
  have hend := steps_lt h.gap_lt h.end_lt
  have hbefore := h.before
  omega

theorem steps_next (h : Gap home n t e g j) : steps n g ((j + 1) % n) = steps n g j + 1 :=
  Lib.steps_next h.gap_lt h.lt h.next_ne

/-- A slot in use comes before the empty slot. -/
theorem before_next (h : Gap home n t e g j) (hfull : t ((j + 1) % n) ≠ none) :
    steps n g ((j + 1) % n) < steps n g e := by
  have hnext := h.steps_next
  have hbefore := h.before
  refine Nat.lt_of_le_of_ne (by omega) fun heq => hfull ?_
  rw [steps_injective h.gap_lt (mod_lt h.lt) h.end_lt heq, h.empty]

/-- The empty slot is one step nearer. -/
theorem steps_end (h : Gap home n t e g j) : steps n ((j + 1) % n) e + 1 = steps n j e := by
  have hnext := h.steps_next
  have hbefore := h.before
  have hto := steps_add h.gap_lt h.lt h.end_lt (by omega)
  have hto' := steps_add h.gap_lt (mod_lt h.lt) h.end_lt (by omega)
  omega

/-- An entry whose way leads over the gap and that was not passed lies behind the next slot. -/
theorem next_on_way (h : Gap home n t e g j) (hhome : ∀ a, home a < n) {i : Nat} {a : α} (hi : i < n)
    (hentry : t i = some a) (hover : steps n (home a) g < steps n (home a) i) (hne : i ≠ (j + 1) % n) :
    steps n (home a) ((j + 1) % n) < steps n (home a) i := by
  have hnext := h.steps_next
  have hmore := steps_add (hhome a) h.gap_lt hi (Nat.le_of_lt hover)
  have hpos : 0 < steps n g i := by omega
  have hbehind : steps n g j < steps n g i := by
    by_contra hnot
    have hpassed := h.passed i hi a hentry hpos (by omega)
    omega
  have hapart : steps n g i ≠ steps n g ((j + 1) % n) := fun heq => hne (steps_injective h.gap_lt hi (mod_lt h.lt) heq)
  have hle := steps_le_of_between (hhome a) h.gap_lt hi (mod_lt h.lt) (Nat.le_of_lt hover) (by omega)
  exact Nat.lt_of_le_of_ne hle fun heq => hne (steps_injective (hhome a) (mod_lt h.lt) hi heq).symm

/-- **Closing.**  When the next slot is empty, no entry needs the gap. -/
theorem close (h : Gap home n t e g j) (hhome : ∀ a, home a < n) (hnone : t ((j + 1) % n) = none) :
    Chained home (Function.update t g none) n := by
  intro i hi a hentry x hx hlt
  have hig : i ≠ g := fun heq => by
    rw [heq, Function.update_self] at hentry
    cases hentry
  rw [Function.update_of_ne hig] at hentry
  by_cases hxg : x = g
  · subst hxg
    have hij : i ≠ (j + 1) % n := fun heq => by
      rw [heq, hnone] at hentry
      cases hentry
    have hon := h.next_on_way hhome hi hentry hlt hij
    exact absurd hnone (h.way i hi hig a hentry _ (mod_lt h.lt) hon)
  · rw [Function.update_of_ne hxg]
    exact h.way i hi hig a hentry x hx hlt

/-- An entry that does not need the gap stays. -/
theorem skip (h : Gap home n t e g j) {b : α} (hentry : t ((j + 1) % n) = some b)
    (hstay : ¬ steps n (home b) g < steps n (home b) ((j + 1) % n)) (hhome : ∀ a, home a < n) :
    Gap home n t e g ((j + 1) % n) where
  gap_lt := h.gap_lt
  lt := mod_lt h.lt
  end_lt := h.end_lt
  empty := h.empty
  before := h.before_next (by rw [hentry]; exact Option.some_ne_none b)
  full := h.full
  way := h.way
  passed i hi a hentryI hpos hle := by
    have hnext := h.steps_next
    by_cases hij : i = (j + 1) % n
    · subst hij
      rw [hentry] at hentryI
      cases hentryI
      refine Nat.lt_of_le_of_ne (by omega) fun heq => ?_
      exact h.next_ne (steps_injective (hhome b) hi h.gap_lt heq)
    · have hapart : steps n g i ≠ steps n g ((j + 1) % n) :=
        fun heq => hij (steps_injective h.gap_lt hi (mod_lt h.lt) heq)
      exact h.passed i hi a hentryI hpos (by omega)

/-- An entry that needs the gap fills it, and its slot is the gap. -/
theorem move (h : Gap home n t e g j) {b : α} (hentry : t ((j + 1) % n) = some b)
    (hover : steps n (home b) g < steps n (home b) ((j + 1) % n)) :
    Gap home n (Function.update t g (some b)) e ((j + 1) % n) ((j + 1) % n) := by
  have hfull : ∀ x, t x ≠ none → Function.update t g (some b) x ≠ none := by
    intro x hx
    by_cases hxg : x = g
    · rw [hxg, Function.update_self]
      exact Option.some_ne_none b
    · rwa [Function.update_of_ne hxg]
  have hnext : t ((j + 1) % n) ≠ none := by
    rw [hentry]
    exact Option.some_ne_none b
  have heg : e ≠ g := fun heq => h.full (heq ▸ h.empty)
  refine ⟨mod_lt h.lt, mod_lt h.lt, h.end_lt, ?_, ?_, hfull _ hnext, ?_, ?_⟩
  · rw [Function.update_of_ne heg, h.empty]
  · rw [steps_self]
    refine Nat.pos_of_ne_zero fun hzero => hnext ?_
    rw [← steps_eq_zero (mod_lt h.lt) h.end_lt hzero, h.empty]
  · intro i hi hne a hentryI x hx hlt
    by_cases hig : i = g
    · subst hig
      rw [Function.update_self] at hentryI
      cases hentryI
      exact hfull x (h.way _ (mod_lt h.lt) h.next_ne b hentry x hx (Nat.lt_trans hlt hover))
    · rw [Function.update_of_ne hig] at hentryI
      exact hfull x (h.way i hi hig a hentryI x hx hlt)
  · intro i _ a _ hpos hle
    rw [steps_self] at hle
    omega

end Gap

end Table

end OnionRelay.Lib
