import Mathlib.Data.List.Basic
import Mathlib.Tactic.Common

/-!
# Nested spans and forests

A reader of brackets goes over a text and notes where each piece starts and where it
ends.  `Nested pos spans` are the pieces it has met in front of `pos`: their starts go up,
and a piece that ends contains a later one or ends in front of it; a leaf contains none.
A new piece at `pos` keeps this (`Nested.push`), and so does the end of the last piece
that is open (`Nested.close`).

`Forest sizes` are the numbers of children of nodes that were added one after another, as
roots or below earlier ones.
-/

namespace OnionRelay.Lib

/-! ## Spans -/

/-- A piece of a text; without an end it is still open. -/
structure Span where
  leaf : Bool
  start : Nat
  stop : Option Nat

/-- How an earlier piece lies to a later one. -/
structure Span.Before (a b : Span) : Prop where
  start : a.start < b.start
  stop : ∀ e, a.stop = some e → e ≤ b.start ∨ ∃ e', b.stop = some e' ∧ e' < e
  leaf : a.leaf = true → ∃ e, a.stop = some e ∧ e ≤ b.start

/-- A piece in front of `pos`. -/
structure Span.InFront (pos : Nat) (s : Span) : Prop where
  start : s.start < pos
  stop : ∀ e, s.stop = some e → s.start ≤ e ∧ e ≤ pos
  leaf : s.leaf = true → s.stop ≠ none

structure Nested (pos : Nat) (spans : List Span) : Prop where
  inFront : ∀ s ∈ spans, s.InFront pos
  before : spans.Pairwise Span.Before

theorem Span.InFront.mono {pos pos' : Nat} {s : Span} (h : s.InFront pos) (hpos : pos ≤ pos') :
    s.InFront pos' :=
  ⟨Nat.lt_of_lt_of_le h.start hpos,
    fun e he => ⟨(h.stop e he).1, Nat.le_trans (h.stop e he).2 hpos⟩, h.leaf⟩

namespace Nested

variable {pos pos' : Nat} {spans pre done : List Span} {s : Span}

theorem nil (pos : Nat) : Nested pos [] := ⟨nofun, .nil⟩

theorem mono (h : Nested pos spans) (hpos : pos ≤ pos') : Nested pos' spans :=
  ⟨fun s hs => (h.inFront s hs).mono hpos, h.before⟩

/-- A new piece. -/
theorem push (h : Nested pos spans) (hstart : pos ≤ s.start) (hs : s.InFront pos') :
    Nested pos' (spans ++ [s]) := by
  have hpos : pos ≤ pos' := Nat.le_trans hstart (Nat.le_of_lt hs.start)
  refine ⟨fun t ht => ?_, List.pairwise_append.mpr ⟨h.before, List.pairwise_singleton .., ?_⟩⟩
  · rcases List.mem_append.mp ht with ht | ht
    · exact (h.inFront t ht).mono hpos
    · exact List.mem_singleton.mp ht ▸ hs
  · intro a ha b hb
    obtain rfl := List.mem_singleton.mp hb
    have hfront := h.inFront a ha
    have hend : ∀ e, a.stop = some e → e ≤ b.start := fun e he =>
      Nat.le_trans (hfront.stop e he).2 hstart
    refine ⟨Nat.lt_of_lt_of_le hfront.start hstart, fun e he => .inl (hend e he), fun hleaf => ?_⟩
    obtain ⟨e, he⟩ := Option.ne_none_iff_exists'.mp (hfront.leaf hleaf)
    exact ⟨e, he, hend e he⟩

/-- **The last open piece ends**, around all that came behind it. -/
theorem close (h : Nested pos (pre ++ s :: done)) (hopen : s.stop = none)
    (hdone : ∀ t ∈ done, t.stop ≠ none) :
    Nested (pos + 1) (pre ++ { s with stop := some (pos + 1) } :: done) := by
  obtain ⟨hpre, hbehind, hacross⟩ := List.pairwise_append.mp h.before
  obtain ⟨hfirst, hrest⟩ := List.pairwise_cons.mp hbehind
  have hs := h.inFront s (List.mem_append_right _ List.mem_cons_self)
  have hleaf : s.leaf ≠ true := fun hleaf => hs.leaf hleaf hopen
  have hfront := fun t ht => (h.inFront t ht).mono (Nat.le_succ pos)
  refine ⟨fun t ht => ?_, List.pairwise_append.mpr ⟨hpre, List.pairwise_cons.mpr ⟨?_, hrest⟩, ?_⟩⟩
  · rcases List.mem_append.mp ht with ht | ht
    · exact hfront t (List.mem_append_left _ ht)
    · rcases List.mem_cons.mp ht with rfl | ht
      · refine ⟨Nat.lt_succ_of_lt hs.start, fun e he => ?_, fun _ => Option.some_ne_none _⟩
        obtain rfl := Option.some.inj he
        exact ⟨Nat.le_of_lt (Nat.lt_succ_of_lt hs.start), Nat.le_refl _⟩
      · exact hfront t (List.mem_append_right _ (List.mem_cons_of_mem _ ht))
  · intro t ht
    have htfront := h.inFront t (List.mem_append_right _ (List.mem_cons_of_mem _ ht))
    refine ⟨(hfirst t ht).start, fun e he => .inr ?_, fun hleaf' => absurd hleaf' hleaf⟩
    obtain rfl := Option.some.inj he
    obtain ⟨e', he'⟩ := Option.ne_none_iff_exists'.mp (hdone t ht)
    exact ⟨e', he', Nat.lt_succ_of_le (htfront.stop e' he').2⟩
  · intro a ha b hb
    rcases List.mem_cons.mp hb with rfl | hb
    · have hbefore := hacross a ha s List.mem_cons_self
      refine ⟨hbefore.start, fun e he => ?_, hbefore.leaf⟩
      rcases hbefore.stop e he with hle | ⟨e', he', -⟩
      · exact .inl hle
      · rw [hopen] at he'
        exact absurd he' nofun
    · exact hacross a ha b (List.mem_cons_of_mem _ hb)

end Nested

/-! ## Lists changed in one place -/

section Modify

variable {α β : Type}

theorem modify_append_left {f : α → α} : ∀ {l : List α} {i : Nat} (more : List α),
    i < l.length → (l ++ more).modify i f = l.modify i f ++ more
  | _ :: _, 0, _, _ => rfl
  | a :: _, _ + 1, more, h => congrArg (a :: ·) (modify_append_left more (Nat.lt_of_succ_lt_succ h))

theorem modify_append_cons (f : α → α) : ∀ (pre : List α) (a : α) (done : List α),
    (pre ++ a :: done).modify pre.length f = pre ++ f a :: done
  | [], _, _ => rfl
  | first :: pre, a, done => congrArg (first :: ·) (modify_append_cons f pre a done)

theorem map_modify (f : α → α) (g : α → β) (f' : β → β) (h : ∀ a, g (f a) = f' (g a)) :
    ∀ (l : List α) (i : Nat), (l.modify i f).map g = (l.map g).modify i f'
  | [], i => by rw [List.modify_nil, List.map_nil, List.modify_nil]
  | a :: l, 0 => congrArg (· :: l.map g) (h a)
  | a :: l, i + 1 => congrArg (g a :: ·) (map_modify f g f' h l i)

end Modify

/-! ## Forests -/

/-- The numbers of children in a forest, in the order in which its nodes were added. -/
inductive Forest : List Nat → Prop
  | nil : Forest []
  | root {sizes : List Nat} : Forest sizes → Forest (sizes ++ [0])
  | child {sizes : List Nat} {i : Nat} : Forest sizes → i < sizes.length →
      Forest (sizes.modify i (· + 1) ++ [0])

end OnionRelay.Lib
