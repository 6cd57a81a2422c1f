import Mathlib.Data.List.Nodup
import Mathlib.Logic.Function.Basic
import Mathlib.Tactic.Common

/-!
# Linked lists in a store

A store of nodes is seen through one function, `next`.  `Seg next a l b` says that
the nodes of `l`, taken in order, lead from `a` to `b`, and `Linked next null head l`
that the list at `head` is `l` and ends in `null`.

A list that ends does not come back to a node it passed: `Linked.nodup`.
-/

namespace OnionRelay.Lib

variable {α : Type} {next next' : α → α}

/-- From `a` the nodes of `l` lead to `b`. -/
def Seg (next : α → α) : α → List α → α → Prop
  | a, [], b => a = b
  | a, x :: l, b => a = x ∧ Seg next (next x) l b

@[simp] theorem seg_nil {a b : α} : Seg next a [] b ↔ a = b := Iff.rfl

@[simp] theorem seg_cons {a x b : α} {l : List α} :
    Seg next a (x :: l) b ↔ a = x ∧ Seg next (next x) l b := Iff.rfl

theorem seg_append {a b : α} {l l' : List α} :
    Seg next a (l ++ l') b ↔ ∃ c, Seg next a l c ∧ Seg next c l' b := by
  induction l generalizing a with
  | nil => simp
  | cons x l ih => simp [ih, and_assoc]

/-- Only the nodes of the segment count. -/
theorem Seg.congr {a b : α} {l : List α} (h : Seg next a l b) (heq : ∀ x ∈ l, next' x = next x) :
    Seg next' a l b := by
  induction l generalizing a with
  | nil => exact h
  | cons x l ih =>
    refine ⟨h.1, ?_⟩
    rw [heq x List.mem_cons_self]
    exact ih h.2 fun y hy => heq y (List.mem_cons_of_mem x hy)

/-- The list at `head` is `l`. -/
structure Linked (next : α → α) (null head : α) (l : List α) : Prop where
  seg : Seg next head l null
  ne_null : null ∉ l

namespace Linked

variable {null head : α} {l : List α}

theorem empty : Linked next null null [] := ⟨rfl, List.not_mem_nil⟩

theorem congr (h : Linked next null head l) (heq : ∀ x ∈ l, next' x = next x) :
    Linked next' null head l := ⟨h.seg.congr heq, h.ne_null⟩

theorem tail {x : α} (h : Linked next null head (x :: l)) : Linked next null (next x) l :=
  ⟨h.seg.2, fun hmem => h.ne_null (List.mem_cons_of_mem x hmem)⟩

/-- A segment in front of a list is part of the list. -/
theorem prepend {a : α} {s : List α} (h : Linked next null head l) (hs : Seg next a s head)
    (hnull : null ∉ s) : Linked next null a (s ++ l) :=
  ⟨seg_append.mpr ⟨head, hs, h.seg⟩, fun hmem => (List.mem_append.mp hmem).elim hnull h.ne_null⟩

theorem eq_nil (h : Linked next null null l) : l = [] := by
  cases l with
  | nil => rfl
  | cons x l =>
    have hx : null = x := h.seg.1
    exact absurd (hx ▸ List.mem_cons_self) h.ne_null

theorem ne_nil (h : Linked next null head l) (hne : head ≠ null) : ∃ rest, l = head :: rest := by
  cases l with
  | nil => exact absurd h.seg hne
  | cons x l => exact ⟨l, by rw [h.seg.1]⟩

/-- The store says which nodes there are. -/
theorem unique {l' : List α} (h : Linked next null head l) (h' : Linked next null head l') :
    l = l' := by
  induction l generalizing head l' with
  | nil =>
    obtain rfl : head = null := h.seg
    exact h'.eq_nil.symm
  | cons x l ih =>
    obtain rfl : head = x := h.seg.1
    have hne : head ≠ null := fun heq => h.ne_null (heq ▸ List.mem_cons_self)
    obtain ⟨rest, rfl⟩ := h'.ne_nil hne
    rw [ih h.tail h'.tail]

/-- **A list that ends has no node twice.** -/
theorem nodup (h : Linked next null head l) : l.Nodup := by
  induction l generalizing head with
  | nil => exact List.nodup_nil
  | cons x l ih =>
    refine List.nodup_cons.mpr ⟨fun hmem => ?_, ih h.tail⟩
    -- from the second `x` on there would be all that follows the first
    obtain ⟨s, u, rfl⟩ := List.append_of_mem hmem
    obtain rfl : head = x := h.seg.1
    obtain ⟨c, hs, hu⟩ := seg_append.mp h.tail.seg
    obtain rfl : c = head := hu.1
    have hback : Linked next null c (c :: u) :=
      ⟨hu, fun hnull => h.tail.ne_null (List.mem_append_right s hnull)⟩
    have hlen := congrArg List.length (h.unique hback)
    simp only [List.length_cons, List.length_append] at hlen
    omega

/-- Inside the list each node points to the one behind it, and the last to `null`. -/
theorem next_eq {pre post : List α} {x : α} (h : Linked next null head (pre ++ x :: post)) :
    next x = post.headD null := by
  obtain ⟨c, -, hc⟩ := seg_append.mp h.seg
  cases post with
  | nil => exact hc.2
  | cons y post => exact hc.2.1

/-- What stands behind a node is a list of its own. -/
theorem suffix {pre post : List α} (h : Linked next null head (pre ++ post)) :
    Linked next null (post.headD null) post := by
  obtain ⟨c, -, hc⟩ := seg_append.mp h.seg
  have hnull : null ∉ post := fun hmem => h.ne_null (List.mem_append_right pre hmem)
  cases post with
  | nil => exact empty
  | cons y post => exact ⟨⟨rfl, hc.2⟩, hnull⟩

/-- **Another tail behind a node.** -/
theorem relink {pre post post' : List α} {x : α} (h : Linked next null head (pre ++ x :: post))
    (hpre : ∀ y ∈ pre, next' y = next y) (htail : Linked next' null (next' x) post') :
    Linked next' null head (pre ++ x :: post') := by
  obtain ⟨c, hseg, hc⟩ := seg_append.mp h.seg
  obtain rfl : c = x := hc.1
  refine ⟨seg_append.mpr ⟨c, hseg.congr hpre, rfl, htail.seg⟩, fun hmem => ?_⟩
  rcases List.mem_append.mp hmem with hmem | hmem
  · exact h.ne_null (List.mem_append_left _ hmem)
  · rcases List.mem_cons.mp hmem with heq | hmem
    · exact h.ne_null (heq ▸ List.mem_append_right pre List.mem_cons_self)
    · exact htail.ne_null hmem

end Linked

end OnionRelay.Lib
