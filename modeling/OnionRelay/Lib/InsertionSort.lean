import Mathlib.Data.List.DropRight
import Mathlib.Logic.Function.Basic
import Mathlib.Tactic.Common

/-!
# Insertion sort in an array

An array of which `n` entries are used is a function on the indices, and `filled n` the
list of these entries.  The loop of the sort moves the entries that go behind the new one
up by one place, from the last to the first, and puts it into the gap.

On the list this is `insertLast`: the new entry goes behind the last one that need not be
moved (`filled_insertAt`).  When what is moved is what is less, a descending list stays so
(`pairwise_insertLast`).
-/

namespace OnionRelay.Lib

variable {α : Type}

/-- The first `n` entries. -/
def filled (n : Nat) (a : Nat → α) : List α := (List.range n).map a

/-- The entries that `moves` up to a gap; the gap and the array. -/
def shiftUp (moves : α → Bool) : Nat → (Nat → α) → Nat × (Nat → α)
  | 0, a => (0, a)
  | j + 1, a =>
    if moves (a j) then shiftUp moves j (Function.update a (j + 1) (a j)) else (j + 1, a)

/-- Entry `i` goes to its place among those in front. -/
def insertAt (moves : α → α → Bool) (i : Nat) (a : Nat → α) : Nat → α :=
  let r := shiftUp (moves (a i)) i a
  Function.update r.2 r.1 (a i)

/-- The key behind the last entry that is not moved. -/
def insertLast (moves : α → α → Bool) (sorted : List α) (key : α) : List α :=
  sorted.rdropWhile (moves key) ++ key :: sorted.rtakeWhile (moves key)

@[simp] theorem length_filled (n : Nat) (a : Nat → α) : (filled n a).length = n := by
  rw [filled, List.length_map, List.length_range]

theorem filled_succ (n : Nat) (a : Nat → α) : filled (n + 1) a = filled n a ++ [a n] := by
  rw [filled, List.range_succ, List.map_append]
  rfl

theorem filled_congr {n : Nat} {a b : Nat → α} (h : ∀ i < n, a i = b i) : filled n a = filled n b :=
  List.map_congr_left fun i hi => h i (List.mem_range.mp hi)

theorem filled_update_of_le {n i : Nat} (hi : n ≤ i) (a : Nat → α) (x : α) :
    filled n (Function.update a i x) = filled n a :=
  filled_congr fun _ hj => Function.update_of_ne (Nat.ne_of_lt (Nat.lt_of_lt_of_le hj hi)) _ _

/-- The loop over the entries in front of `i`, put together with the key. -/
theorem filled_shiftUp (moves : α → Bool) (key : α) : ∀ (i : Nat) (a : Nat → α),
    filled (i + 1) (Function.update (shiftUp moves i a).2 (shiftUp moves i a).1 key) =
        (filled i a).rdropWhile moves ++ key :: (filled i a).rtakeWhile moves ∧
      ∀ j, i < j → Function.update (shiftUp moves i a).2 (shiftUp moves i a).1 key j = a j := by
  intro i
  induction i with
  | zero =>
    intro a
    refine ⟨?_, fun j hj => Function.update_of_ne (Nat.ne_of_gt hj) _ _⟩
    rw [shiftUp, filled_succ, Function.update_self]
    rfl
  | succ i ih =>
    intro a
    rw [shiftUp, filled_succ i a]
    by_cases hmoves : moves (a i) = true
    · rw [if_pos hmoves, List.rdropWhile_concat_pos _ _ _ hmoves, List.rtakeWhile_concat_pos _ _ _ hmoves]
      obtain ⟨hfilled, hframe⟩ := ih (Function.update a (i + 1) (a i))
      refine ⟨?_, fun j hj => ?_⟩
      · rw [filled_succ, hfilled, hframe (i + 1) (Nat.lt_succ_self i), Function.update_self,
          filled_update_of_le (Nat.le_succ i), List.append_assoc, List.cons_append]
      · rw [hframe j (Nat.lt_of_succ_lt hj), Function.update_of_ne (Nat.ne_of_gt hj)]
    · rw [if_neg hmoves, List.rdropWhile_concat_neg _ _ _ hmoves, List.rtakeWhile_concat_neg _ _ _ hmoves]
      refine ⟨?_, fun j hj => Function.update_of_ne (Nat.ne_of_gt hj) _ _⟩
      rw [filled_succ, Function.update_self, filled_update_of_le (Nat.le_refl _), filled_succ]

/-- **One round of the sort** is an insertion into the list. -/
theorem filled_insertAt (moves : α → α → Bool) (i : Nat) (a : Nat → α) :
    filled (i + 1) (insertAt moves i a) = insertLast moves (filled i a) (a i) :=
  (filled_shiftUp (moves (a i)) (a i) i a).1

theorem insertAt_of_lt (moves : α → α → Bool) {i j : Nat} (hj : i < j) (a : Nat → α) :
    insertAt moves i a j = a j := (filled_shiftUp (moves (a i)) (a i) i a).2 j hj

/-! ## The sort -/

/-- The rounds for the entries `i` to `i + left - 1`. -/
def sortFrom (moves : α → α → Bool) : Nat → Nat → (Nat → α) → Nat → α
  | 0, _, a => a
  | left + 1, i, a => sortFrom moves left (i + 1) (insertAt moves i a)

theorem perm_insertLast (moves : α → α → Bool) (sorted : List α) (key : α) :
    (insertLast moves sorted key).Perm (key :: sorted) := by
  rw [insertLast]
  refine List.perm_middle.trans (List.Perm.cons key ?_)
  rw [List.rdropWhile_append_rtakeWhile]

/-- Where exactly what is less is moved, descending lists stay descending. -/
theorem pairwise_insertLast {le : α → α → Prop} {moves : α → α → Bool}
    (htrans : ∀ x y z, le x y → le y z → le x z) (hmoves : ∀ key x, moves key x = true → le x key)
    (hstays : ∀ key x, moves key x = false → le key x) {sorted : List α}
    (h : sorted.Pairwise fun x y => le y x) (key : α) :
    (insertLast moves sorted key).Pairwise fun x y => le y x := by
  have hsplit : sorted.rdropWhile (moves key) ++ sorted.rtakeWhile (moves key) = sorted :=
    List.rdropWhile_append_rtakeWhile
  rw [← hsplit, List.pairwise_append] at h
  obtain ⟨hfront, hbehind, hcross⟩ := h
  have hmoved : ∀ x ∈ sorted.rtakeWhile (moves key), le x key := fun x hx =>
    hmoves key x (List.mem_rtakeWhile_imp hx)
  -- the last entry that stays is not less than the key, and those in front of it neither
  have hstayed : ∀ x ∈ sorted.rdropWhile (moves key), le key x := by
    intro x hx
    have hne := List.ne_nil_of_mem hx
    have hlast := hstays key _ (Bool.eq_false_iff.mpr (List.rdropWhile_last_not (moves key) sorted hne))
    rw [← List.dropLast_append_getLast hne, List.mem_append, List.mem_singleton] at hx
    rcases hx with hx | rfl
    · rw [← List.dropLast_append_getLast hne, List.pairwise_append] at hfront
      exact htrans _ _ _ hlast (hfront.2.2 x hx _ (List.mem_singleton_self _))
    · exact hlast
  rw [insertLast, List.pairwise_append, List.pairwise_cons]
  refine ⟨hfront, ⟨hmoved, hbehind⟩, fun x hx y hy => ?_⟩
  rcases List.mem_cons.mp hy with rfl | hy
  · exact hstayed x hx
  · exact hcross x hx y hy

/-- **The sort**: the entries in some order, and those in order stay in order. -/
theorem filled_sortFrom {le : α → α → Prop} {moves : α → α → Bool}
    (htrans : ∀ x y z, le x y → le y z → le x z) (hmoves : ∀ key x, moves key x = true → le x key)
    (hstays : ∀ key x, moves key x = false → le key x) : ∀ (left i : Nat) (a : Nat → α),
    (filled i a).Pairwise (fun x y => le y x) →
      (filled (i + left) (sortFrom moves left i a)).Perm (filled (i + left) a) ∧
        (filled (i + left) (sortFrom moves left i a)).Pairwise fun x y => le y x := by
  intro left
  induction left with
  | zero => exact fun i a h => ⟨List.Perm.refl _, h⟩
  | succ left ih =>
    intro i a h
    have hround : (filled (i + 1) (insertAt moves i a)).Pairwise fun x y => le y x := by
      rw [filled_insertAt]
      exact pairwise_insertLast htrans hmoves hstays h (a i)
    have hperm : (filled (i + 1) (insertAt moves i a)).Perm (filled (i + 1) a) := by
      rw [filled_insertAt, filled_succ]
      exact (perm_insertLast moves _ _).trans (List.perm_append_singleton _ _).symm
    have hall : ∀ n, (filled (i + 1 + n) (insertAt moves i a)).Perm (filled (i + 1 + n) a) := by
      intro n
      induction n with
      | zero => exact hperm
      | succ n ihn =>
        rw [← Nat.add_assoc, filled_succ, filled_succ, insertAt_of_lt moves (by omega)]
        exact ihn.append_right _
    obtain ⟨hsorted, hpairwise⟩ := ih (i + 1) (insertAt moves i a) hround
    rw [sortFrom, show i + (left + 1) = i + 1 + left by omega]
    exact ⟨hsorted.trans (hall left), hpairwise⟩

end OnionRelay.Lib
