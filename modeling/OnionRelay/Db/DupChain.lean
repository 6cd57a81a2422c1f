import Mathlib.Data.List.Perm.Basic
import Mathlib.Tactic.Common

/-!
# Duplicate chains

A duplicate index keeps, for each key, a chain of overflow pages, and each page
an array of record ids.  Seen as a list of lists, `btree_insert_dup` appends to
the first page with room, or to a new page behind the last (`chainInsert`), and
`btree_delete_dup` overwrites the entry by the last one of its page and drops a
page that becomes empty (`chainDelete`).

The order of the ids changes under deletion; as a multiset the chain gains and
loses exactly the id (`perm_chainInsert`, `perm_chainDelete`).
-/

namespace OnionRelay.Db

variable {α : Type}

/-- `BTREE_OVERFLOW_MAX_ENTRIES`: `(4096 - 8) / sizeof(RecordId)`, with
`sizeof(RecordId) = 8`. -/
def overflowMaxEntries : Nat := 511

/-- The chain after `btree_insert_dup`. -/
def chainInsert (rid : α) : List (List α) → List (List α)
  | [] => [[rid]]
  | page :: pages =>
    if page.length < overflowMaxEntries then (page ++ [rid]) :: pages
    else page :: chainInsert rid pages

/-- The swap with the last entry that removes entry `i` of a page. -/
def swapRemove (page : List α) (i : Nat) : List α :=
  if h : i < page.length - 1 then
    (page.set i (page.get ⟨page.length - 1, by omega⟩)).dropLast
  else page.dropLast

/-- The chain after `btree_delete_dup`; unchanged when the id is in no page. -/
def chainDelete [DecidableEq α] (rid : α) : List (List α) → List (List α)
  | [] => []
  | page :: pages =>
    match page.idxOf? rid with
    | none => page :: chainDelete rid pages
    | some i => if swapRemove page i = [] then pages else swapRemove page i :: pages

/-- The pages in front of the first with the id stay. -/
theorem chainDelete_append [DecidableEq α] {rid : α} {front : List (List α)}
    (h : rid ∉ front.flatten) (pages : List (List α)) :
    chainDelete rid (front ++ pages) = front ++ chainDelete rid pages := by
  induction front with
  | nil => rfl
  | cons page front ih =>
    rw [List.flatten_cons, List.mem_append, not_or] at h
    rw [List.cons_append, chainDelete, List.idxOf?_eq_none_iff.mpr h.1, ih h.2, List.cons_append]

theorem perm_chainInsert (rid : α) (pages : List (List α)) :
    (chainInsert rid pages).flatten.Perm (rid :: pages.flatten) := by
  induction pages with
  | nil => simp [chainInsert]
  | cons page pages ih =>
    rw [chainInsert]
    split
    · simp only [List.flatten_cons, List.append_assoc, List.singleton_append]
      exact List.perm_middle
    · simp only [List.flatten_cons]
      exact (ih.append_left page).trans List.perm_middle

theorem perm_swapRemove {page : List α} {i : Nat} (h : i < page.length) :
    (page.get ⟨i, h⟩ :: swapRemove page i).Perm page := by
  have hne : page ≠ [] := List.ne_nil_of_length_pos (by omega)
  obtain ⟨front, last, rfl⟩ : ∃ front last, page = front ++ [last] :=
    ⟨page.dropLast, page.getLast hne, (List.dropLast_append_getLast hne).symm⟩
  have hlen : (front ++ [last]).length - 1 = front.length := by
    rw [List.length_append, List.length_singleton, Nat.add_sub_cancel]
  rw [swapRemove]
  split
  · rename_i hi
    rw [hlen] at hi
    have hlast : (front ++ [last]).get ⟨(front ++ [last]).length - 1, by rw [hlen]; simp⟩ = last := by
      simp
    have hset : (front ++ [last]).set i last = front.set i last ++ [last] := by
      rw [List.set_append_left _ _ hi]
    rw [hlast, hset, List.dropLast_concat]
    have hfront : front = front.take i ++ front.get ⟨i, hi⟩ :: front.drop (i + 1) := by
      rw [List.get_eq_getElem, List.getElem_cons_drop, List.take_append_drop]
    have hswap : front.set i last = front.take i ++ last :: front.drop (i + 1) := by
      rw [List.set_eq_take_append_cons_drop, if_pos hi]
    have hget : (front ++ [last]).get ⟨i, h⟩ = front.get ⟨i, hi⟩ := by
      simp only [List.get_eq_getElem, List.getElem_append_left hi]
    rw [hget, hswap]
    conv_rhs => rw [hfront]
    refine (List.Perm.cons _ List.perm_middle).trans ?_
    refine (List.Perm.swap _ _ _).trans ?_
    refine (List.perm_append_singleton last _).symm.trans ?_
    exact List.perm_middle.symm.append_right _
  · rename_i hi
    rw [hlen] at hi
    have hi' : i = front.length := by simp at h; omega
    subst hi'
    simp only [List.dropLast_concat, List.get_eq_getElem, List.getElem_concat_length]
    exact (List.perm_append_singleton last front).symm

/-- **A deletion takes the id out of the chain once.** -/
theorem perm_chainDelete [DecidableEq α] (rid : α) (pages : List (List α)) :
    (chainDelete rid pages).flatten.Perm (pages.flatten.erase rid) := by
  induction pages with
  | nil => simp [chainDelete]
  | cons page pages ih =>
    rw [chainDelete]
    cases hi : page.idxOf? rid with
    | none =>
      have hnot : rid ∉ page := by simpa using hi
      simp only [List.flatten_cons]
      rw [List.erase_append_right _ hnot]
      exact ih.append_left page
    | some i =>
      obtain ⟨hlt, hget, -⟩ := List.idxOf?_eq_some_iff.mp hi
      have hmem : rid ∈ page := hget ▸ List.getElem_mem hlt
      have hp : (swapRemove page i).Perm (page.erase rid) := by
        have h1 := perm_swapRemove hlt
        simp only [List.get_eq_getElem, hget] at h1
        exact (List.cons_perm_iff_perm_erase.mp h1).2
      simp only [List.flatten_cons]
      rw [List.erase_append_left _ hmem]
      split
      · rename_i hnil
        rw [hnil] at hp
        rw [List.nil_perm.mp hp, List.nil_append]
      · exact hp.append_right _

end OnionRelay.Db
