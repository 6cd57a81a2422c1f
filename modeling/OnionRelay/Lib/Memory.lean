import Mathlib.Algebra.Order.Ring.Nat
import Mathlib.Data.List.Basic
import Mathlib.Data.List.InsertIdx
import Mathlib.Tactic.Common

/-!
# Byte memories and arrays of cells

A memory is a function from addresses to bytes.  `readAt` and `writeAt` move
byte strings out of it and into it, `moveUp` and `copyForward` are the byte loops
that shift a range within it.  `cells m off size n` reads `n` cells of `size`
bytes each, one behind the other.

`insertCell` shifts the tail of an array up and writes a cell into the gap,
`eraseCell` copies the tail down.  `cells_insertCell` and `cells_eraseCell` say
what they do to the cells, `insertCell_outside` and `eraseCell_outside` that they
do nothing elsewhere.
-/

namespace OnionRelay.Lib

/-- A byte memory. -/
abbrev Mem := Nat → UInt8

def readAt (m : Mem) (off n : Nat) : List UInt8 := (List.range n).map fun i => m (off + i)

def writeAt (m : Mem) (off : Nat) (bytes : List UInt8) : Mem := fun a =>
  if off ≤ a ∧ a < off + bytes.length then bytes.getD (a - off) 0 else m a

/-- The loop that moves the `n` bytes at `off` up by `d`, the last byte first. -/
def moveUp (m : Mem) (off d : Nat) : Nat → Mem
  | 0 => m
  | n + 1 => moveUp (writeAt m (off + n + d) [m (off + n)]) off d n

/-- The loop that copies `n` bytes from `src` to `dst`, the first byte first. -/
def copyForward (m : Mem) (dst src : Nat) : Nat → Mem
  | 0 => m
  | n + 1 => copyForward (writeAt m dst [m src]) (dst + 1) (src + 1) n

/-- `n` cells of `size` bytes. -/
def cells (m : Mem) (off size n : Nat) : List (List UInt8) :=
  (List.range n).map fun i => readAt m (off + i * size) size

/-- Insert a cell at position `pos` of an array of `n`. -/
def insertCell (m : Mem) (off size n pos : Nat) (cell : List UInt8) : Mem :=
  writeAt (if pos < n then moveUp m (off + pos * size) size ((n - pos) * size) else m)
    (off + pos * size) cell

/-- Erase the cell at position `pos` of an array of `n`. -/
def eraseCell (m : Mem) (off size n pos : Nat) : Mem :=
  if pos + 1 < n then
    copyForward m (off + pos * size) (off + (pos + 1) * size) ((n - pos - 1) * size)
  else m

/-! ## Reading and writing -/

@[simp] theorem length_readAt (m : Mem) (off n : Nat) : (readAt m off n).length = n := by
  simp [readAt]

theorem getElem_readAt (m : Mem) (off n : Nat) {i : Nat} (h : i < (readAt m off n).length) :
    (readAt m off n)[i] = m (off + i) := by
  simp [readAt]

theorem getD_readAt {m : Mem} {off n i : Nat} (h : i < n) : (readAt m off n).getD i 0 = m (off + i) := by
  rw [List.getD_eq_getElem?_getD, List.getElem?_eq_getElem (by rwa [length_readAt]), getElem_readAt,
    Option.getD_some]

theorem readAt_congr {m m' : Mem} {off off' n : Nat} (h : ∀ i < n, m (off + i) = m' (off' + i)) :
    readAt m off n = readAt m' off' n := by
  refine List.map_congr_left fun i hi => ?_
  exact h i (List.mem_range.mp hi)

theorem readAt_add (m : Mem) (off n k : Nat) :
    readAt m off (n + k) = readAt m off n ++ readAt m (off + n) k := by
  simp only [readAt, List.range_add, List.map_append, List.map_map]
  congr 1
  refine List.map_congr_left fun i _ => ?_
  simp [Nat.add_assoc]

theorem readAt_take (m : Mem) (off : Nat) {n k : Nat} (h : k ≤ n) :
    (readAt m off n).take k = readAt m off k := by
  obtain ⟨j, rfl⟩ := Nat.exists_eq_add_of_le h
  rw [readAt_add, List.take_left' (length_readAt m off k)]

theorem readAt_drop (m : Mem) (off : Nat) {n k : Nat} (h : k ≤ n) :
    (readAt m off n).drop k = readAt m (off + k) (n - k) := by
  obtain ⟨j, rfl⟩ := Nat.exists_eq_add_of_le h
  rw [readAt_add, List.drop_left' (length_readAt m off k), Nat.add_sub_cancel_left]

theorem writeAt_of_lt {m : Mem} {off a : Nat} {bytes : List UInt8} (h : a < off) :
    writeAt m off bytes a = m a := by
  rw [writeAt, if_neg (by omega)]

theorem writeAt_of_ge {m : Mem} {off a : Nat} {bytes : List UInt8} (h : off + bytes.length ≤ a) :
    writeAt m off bytes a = m a := by
  rw [writeAt, if_neg (by omega)]

theorem writeAt_inside {m : Mem} {off i : Nat} {bytes : List UInt8} (h : i < bytes.length) :
    writeAt m off bytes (off + i) = bytes[i] := by
  rw [writeAt, if_pos (by omega), Nat.add_sub_cancel_left]
  simp [List.getD, h]

/-- What was written is read back. -/
@[simp] theorem readAt_writeAt_same (m : Mem) (off : Nat) (bytes : List UInt8) {n : Nat}
    (h : n = bytes.length) : readAt (writeAt m off bytes) off n = bytes := by
  subst h
  refine List.ext_getElem (length_readAt _ _ _) fun i hi hi' => ?_
  rw [getElem_readAt, writeAt_inside hi']

/-- A part of what was copied from another memory. -/
theorem readAt_writeAt_readAt (m src : Mem) {base k off n : Nat} (hlow : base ≤ off)
    (hhigh : off + n ≤ base + k) : readAt (writeAt m base (readAt src base k)) off n = readAt src off n := by
  refine readAt_congr fun i hi => ?_
  obtain ⟨d, rfl⟩ := Nat.exists_eq_add_of_le hlow
  have hlt : d + i < (readAt src base k).length := by
    rw [length_readAt]
    omega
  rw [Nat.add_assoc, writeAt_inside hlt, getElem_readAt]

/-- A write elsewhere is not seen. -/
theorem readAt_writeAt_of_disjoint {m : Mem} {off off' n : Nat} {bytes : List UInt8}
    (h : off' + n ≤ off ∨ off + bytes.length ≤ off') :
    readAt (writeAt m off bytes) off' n = readAt m off' n := by
  refine readAt_congr fun i hi => ?_
  rcases h with h | h
  · exact writeAt_of_lt (by omega)
  · exact writeAt_of_ge (by omega)

theorem writeAt_nil (m : Mem) (off : Nat) : writeAt m off [] = m := by
  funext a
  rcases Nat.lt_or_ge a off with hlt | hge
  · exact writeAt_of_lt hlt
  · exact writeAt_of_ge hge

/-- Two writes, one behind the other, are one. -/
theorem writeAt_append (m : Mem) (off : Nat) (a b : List UInt8) {off' : Nat}
    (h : off' = off + a.length) :
    writeAt (writeAt m off a) off' b = writeAt m off (a ++ b) := by
  subst h
  funext i
  rcases Nat.lt_or_ge i off with hlt | hge
  · rw [writeAt_of_lt (by omega), writeAt_of_lt hlt, writeAt_of_lt hlt]
  obtain ⟨j, rfl⟩ := Nat.exists_eq_add_of_le hge
  by_cases ha : j < a.length
  · rw [writeAt_of_lt (by omega), writeAt_inside ha, writeAt_inside (by simp; omega),
      List.getElem_append_left ha]
  obtain ⟨k, rfl⟩ := Nat.exists_eq_add_of_le (Nat.le_of_not_lt ha)
  by_cases hb : k < b.length
  · rw [← Nat.add_assoc, writeAt_inside hb, Nat.add_assoc, writeAt_inside (by simp; omega),
      List.getElem_append_right (Nat.le_add_right _ _)]
    simp only [Nat.add_sub_cancel_left]
  · rw [writeAt_of_ge (by omega), writeAt_of_ge (by omega),
      writeAt_of_ge (by rw [List.length_append]; omega)]

/-- What was read is written back to no effect. -/
theorem writeAt_readAt (m : Mem) (off n : Nat) : writeAt m off (readAt m off n) = m := by
  funext a
  rcases Nat.lt_or_ge a off with hlt | hge
  · exact writeAt_of_lt hlt
  obtain ⟨i, rfl⟩ := Nat.exists_eq_add_of_le hge
  by_cases hi : i < n
  · rw [writeAt_inside (by rwa [length_readAt]), getElem_readAt]
  · exact writeAt_of_ge (by rw [length_readAt]; omega)

theorem writeAt_one (m : Mem) (off : Nat) (b : UInt8) (a : Nat) : writeAt m off [b] a = if a = off then b else m a := by
  by_cases ha : a = off
  · rw [if_pos ha, ha]
    exact @writeAt_inside m off 0 [b] Nat.one_pos
  · rw [if_neg ha, writeAt, if_neg (by rw [List.length_singleton]; omega)]

/-- The first part of what was written is read back. -/
theorem readAt_writeAt_append (m : Mem) (off : Nat) (a b : List UInt8) {n : Nat} (h : n = a.length) :
    readAt (writeAt m off (a ++ b)) off n = a := by
  rw [← writeAt_append m off a b rfl, readAt_writeAt_of_disjoint (.inl (by omega)), readAt_writeAt_same m off a h]

/-- One byte of what was written is changed. -/
theorem writeAt_set (m : Mem) (off : Nat) {bytes : List UInt8} {i : Nat} (h : i < bytes.length) (b : UInt8) :
    writeAt (writeAt m off bytes) (off + i) [b] = writeAt m off (bytes.set i b) := by
  funext a
  by_cases ha : off ≤ a ∧ a < off + bytes.length
  · obtain ⟨j, rfl⟩ := Nat.exists_eq_add_of_le ha.1
    have hj : j < bytes.length := by omega
    rw [@writeAt_inside m off j (bytes.set i b) (by rwa [List.length_set]), List.getElem_set]
    by_cases hji : i = j
    · subst hji
      rw [if_pos rfl]
      exact @writeAt_inside _ (off + i) 0 [b] Nat.one_pos
    · rw [if_neg hji, ← @writeAt_inside m off j bytes hj]
      rcases Nat.lt_or_gt_of_ne hji with hlt | hgt
      · exact writeAt_of_ge (by rw [List.length_singleton]; omega)
      · exact writeAt_of_lt (by omega)
  · rw [writeAt, if_neg (by rw [List.length_singleton]; omega), writeAt, if_neg ha, writeAt,
      if_neg (by rwa [List.length_set])]

/-- What is written into every memory alike is known. -/
theorem writeAt_injective {off : Nat} {a b : List UInt8}
    (h : ∀ m, writeAt m off a = writeAt m off b) : a = b := by
  have hle : ∀ {a b : List UInt8}, (∀ m, writeAt m off a = writeAt m off b) →
      b.length ≤ a.length := by
    intro a b h
    by_contra hlt
    have hb : a.length < b.length := Nat.lt_of_not_le hlt
    -- a memory that differs from `b` where `a` has ended
    have hbyte := congrFun (h fun _ => b[a.length] + 1) (off + a.length)
    rw [writeAt_of_ge (Nat.le_refl _), writeAt_inside hb] at hbyte
    exact absurd hbyte (by simp)
  have hlen : a.length = b.length := Nat.le_antisymm (hle fun m => (h m).symm) (hle h)
  rw [← readAt_writeAt_same (fun _ => 0) off a rfl, h, hlen, readAt_writeAt_same _ _ _ rfl]

/-- A range is read in two parts. -/
theorem readAt_eq_append {m : Mem} {off n : Nat} {a b : List UInt8}
    (h : readAt m off n = a ++ b) :
    readAt m off a.length = a ∧ readAt m (off + a.length) b.length = b := by
  have hn : n = a.length + b.length := by
    rw [← length_readAt m off n, h, List.length_append]
  rw [hn, readAt_add] at h
  exact List.append_inj h (length_readAt m off _)

theorem readAt_cons {m : Mem} {off : Nat} {b : UInt8} {bs : List UInt8}
    (h : readAt m off (b :: bs).length = b :: bs) :
    m off = b ∧ readAt m (off + 1) bs.length = bs := by
  obtain ⟨hb, hbs⟩ := readAt_eq_append (a := [b]) (b := bs) h
  exact ⟨by simpa [readAt] using hb, hbs⟩

theorem readAt_one (m : Mem) (off : Nat) : readAt m off 1 = [m off] := by
  simp [readAt]

theorem readAt_singleton {m : Mem} {off : Nat} {b : UInt8} (h : readAt m off 1 = [b]) :
    m off = b := by
  simpa [readAt] using h

theorem moveUp_apply (m : Mem) (off d n a : Nat) : moveUp m off d n a =
    if off + d ≤ a ∧ a < off + d + n then m (a - d) else m a := by
  induction n generalizing m with
  | zero => rw [moveUp, if_neg (by omega)]
  | succ n ih =>
    rw [moveUp, ih]
    by_cases hlast : a = off + n + d
    · subst hlast
      have hwritten : writeAt m (off + n + d) [m (off + n)] (off + n + d) = m (off + n) :=
        writeAt_inside (i := 0) (by simp)
      rw [if_neg (by omega), if_pos (by omega), hwritten, Nat.add_sub_cancel]
    · have hother : ∀ b, b ≠ off + n + d → writeAt m (off + n + d) [m (off + n)] b = m b := by
        intro b hb
        rw [writeAt, if_neg (by rw [List.length_singleton]; omega)]
      rw [hother a hlast]
      by_cases hin : off + d ≤ a ∧ a < off + d + n
      · rw [if_pos hin, if_pos (by omega), hother (a - d) (by omega)]
      · rw [if_neg hin, if_neg (by omega)]

theorem copyForward_apply {m : Mem} {dst src : Nat} (h : dst ≤ src) (n a : Nat) :
    copyForward m dst src n a =
      if dst ≤ a ∧ a < dst + n then m (src + (a - dst)) else m a := by
  induction n generalizing m dst src with
  | zero => rw [copyForward, if_neg (by omega)]
  | succ n ih =>
    have hfirst : writeAt m dst [m src] dst = m src := writeAt_inside (i := 0) (by simp)
    have hother : ∀ b, b ≠ dst → writeAt m dst [m src] b = m b := by
      intro b hb
      rw [writeAt, if_neg (by rw [List.length_singleton]; omega)]
    rw [copyForward, ih (Nat.add_le_add_right h 1)]
    by_cases hin : dst + 1 ≤ a ∧ a < dst + 1 + n
    · rw [if_pos hin, if_pos (by omega), hother _ (by omega)]
      congr 1
      omega
    · rw [if_neg hin]
      by_cases hdst : a = dst
      · subst hdst
        rw [if_pos (by omega), hfirst, Nat.sub_self, Nat.add_zero]
      · rw [if_neg (by omega), hother a hdst]

/-! ## Cells -/

@[simp] theorem length_cells (m : Mem) (off size n : Nat) : (cells m off size n).length = n := by
  simp [cells]

theorem getElem_cells (m : Mem) (off size n : Nat) {i : Nat} (h : i < (cells m off size n).length) :
    (cells m off size n)[i] = readAt m (off + i * size) size := by
  simp [cells]

theorem getElem?_cells (m : Mem) (off size : Nat) {n i : Nat} (h : i < n) :
    (cells m off size n)[i]? = some (readAt m (off + i * size) size) := by
  rw [List.getElem?_eq_getElem (by rwa [length_cells]), getElem_cells]

theorem cells_congr {m m' : Mem} {off off' size n : Nat}
    (h : ∀ i < n * size, m (off + i) = m' (off' + i)) :
    cells m off size n = cells m' off' size n := by
  refine List.map_congr_left fun i hi => readAt_congr fun j hj => ?_
  have hi' : i + 1 ≤ n := List.mem_range.mp hi
  have hle : (i + 1) * size ≤ n * size := Nat.mul_le_mul_right size hi'
  rw [Nat.succ_mul] at hle
  rw [Nat.add_assoc, Nat.add_assoc]
  exact h _ (by omega)

/-- A write behind or before the cells is not seen. -/
theorem cells_writeAt_of_disjoint {m : Mem} {off off' size n : Nat} {bytes : List UInt8}
    (h : off' + n * size ≤ off ∨ off + bytes.length ≤ off') :
    cells (writeAt m off bytes) off' size n = cells m off' size n := by
  refine cells_congr fun i hi => ?_
  rcases h with h | h
  · exact writeAt_of_lt (by omega)
  · exact writeAt_of_ge (by omega)

theorem cells_take (m : Mem) (off size : Nat) {n k : Nat} (h : k ≤ n) :
    (cells m off size n).take k = cells m off size k := by
  rw [cells, ← List.map_take, List.take_range, Nat.min_eq_left h]
  rfl

theorem cells_drop (m : Mem) (off size n k : Nat) :
    (cells m off size n).drop k = cells m (off + k * size) size (n - k) := by
  refine List.ext_getElem (by simp) fun i hi hi' => ?_
  rw [List.getElem_drop, getElem_cells, getElem_cells, Nat.add_mul, Nat.add_assoc]

/-- Cells copied as one byte string. -/
theorem cells_writeAt_readAt (m src : Mem) (off from' size n : Nat) :
    cells (writeAt m off (readAt src from' (n * size))) off size n = cells src from' size n := by
  refine cells_congr fun i hi => ?_
  rw [writeAt_inside (by rwa [length_readAt]), getElem_readAt]

/-- Two cells of one array do not overlap. -/
theorem cell_apart {i j size : Nat} (h : i ≠ j) :
    i * size + size ≤ j * size ∨ j * size + size ≤ i * size := by
  rcases Nat.lt_or_gt_of_ne h with hlt | hgt
  · have hle := Nat.mul_le_mul_right size (Nat.succ_le_of_lt hlt)
    rw [Nat.succ_mul] at hle
    exact .inl hle
  · have hle := Nat.mul_le_mul_right size (Nat.succ_le_of_lt hgt)
    rw [Nat.succ_mul] at hle
    exact .inr hle

/-- **Overwriting one cell.** -/
theorem cells_writeAt_cell (m : Mem) (off size n i : Nat) {cell : List UInt8}
    (hcell : cell.length = size) :
    cells (writeAt m (off + i * size) cell) off size n = (cells m off size n).set i cell := by
  refine List.ext_getElem (by simp) fun j hj _ => ?_
  rw [getElem_cells, List.getElem_set, getElem_cells]
  by_cases hij : i = j
  · subst hij
    rw [if_pos rfl, readAt_writeAt_same _ _ _ hcell.symm]
  · rw [if_neg hij]
    refine readAt_writeAt_of_disjoint ?_
    rcases @cell_apart i j size hij with h | h
    · exact .inr (by omega)
    · exact .inl (by omega)

theorem mul_add_lt {i j n size : Nat} (hi : i < n) (hj : j < size) : i * size + j < n * size := by
  have hle : (i + 1) * size ≤ n * size := Nat.mul_le_mul_right size hi
  rw [Nat.succ_mul] at hle
  omega

theorem insertCell_eq (m : Mem) (off size n pos : Nat) (cell : List UInt8) :
    insertCell m off size n pos cell =
      writeAt (moveUp m (off + pos * size) size ((n - pos) * size)) (off + pos * size) cell := by
  rw [insertCell]
  split
  · rfl
  · rw [Nat.sub_eq_zero_of_le (by omega), Nat.zero_mul, moveUp]

theorem insertCell_outside {m : Mem} {off size n pos : Nat} {cell : List UInt8} {a : Nat}
    (hcell : cell.length = size) (hpos : pos ≤ n)
    (ha : a < off ∨ off + (n + 1) * size ≤ a) : insertCell m off size n pos cell a = m a := by
  have htail : pos * size + (n - pos) * size = n * size := by
    rw [← Nat.add_mul, Nat.add_sub_cancel' hpos]
  rw [insertCell_eq]
  rcases ha with ha | ha
  · rw [writeAt_of_lt (by omega), moveUp_apply, if_neg (by omega)]
  · rw [Nat.succ_mul] at ha
    rw [writeAt_of_ge (by omega), moveUp_apply, if_neg (by omega)]

/-- **Shifting the tail up and writing into the gap inserts.** -/
theorem cells_insertCell (m : Mem) (off : Nat) {size n pos : Nat} (hpos : pos ≤ n)
    {cell : List UInt8} (hcell : cell.length = size) :
    cells (insertCell m off size n pos cell) off size (n + 1) =
      (cells m off size n).insertIdx pos cell := by
  rw [insertCell_eq]
  have htail : pos * size + (n - pos) * size = n * size := by
    rw [← Nat.add_mul, Nat.add_sub_cancel' hpos]
  refine List.ext_getElem ?_ fun i hi _ => ?_
  · rw [length_cells, List.length_insertIdx, length_cells, if_pos hpos]
  rw [length_cells] at hi
  rw [getElem_cells, List.getElem_insertIdx]
  rcases Nat.lt_trichotomy i pos with hlt | rfl | hgt
  · -- before the gap
    rw [dif_pos hlt, getElem_cells]
    refine readAt_congr fun j hj => ?_
    have hbound := mul_add_lt hlt hj
    rw [writeAt_of_lt (by omega), moveUp_apply, if_neg (by omega)]
  · -- the gap itself
    rw [dif_neg (Nat.lt_irrefl i), dif_pos rfl]
    exact readAt_writeAt_same _ _ _ hcell.symm
  · -- behind the gap
    rw [dif_neg (by omega), dif_neg (by omega), getElem_cells]
    obtain ⟨k, rfl⟩ : ∃ k, i = k + 1 := ⟨i - 1, by omega⟩
    rw [Nat.add_sub_cancel]
    refine readAt_congr fun j hj => ?_
    have hlow : pos * size ≤ k * size := Nat.mul_le_mul_right size (by omega)
    have hbound := mul_add_lt (show k < n by omega) hj
    rw [Nat.succ_mul, writeAt_of_ge (by omega), moveUp_apply, if_pos (by omega)]
    congr 1
    omega

theorem eraseCell_eq {m : Mem} {off size n pos : Nat} : eraseCell m off size n pos =
    copyForward m (off + pos * size) (off + (pos + 1) * size) ((n - pos - 1) * size) := by
  rw [eraseCell]
  split
  · rfl
  · rw [show n - pos - 1 = 0 by omega, Nat.zero_mul, copyForward]

theorem eraseCell_outside {m : Mem} {off size n pos : Nat} {a : Nat} (hpos : pos < n)
    (ha : a < off ∨ off + n * size ≤ a) : eraseCell m off size n pos a = m a := by
  have htail : pos * size + (n - pos - 1) * size + size = n * size := by
    rw [← Nat.add_mul, ← Nat.succ_mul]
    congr 1
    omega
  have hle : off + pos * size ≤ off + (pos + 1) * size := by rw [Nat.succ_mul]; omega
  rw [eraseCell_eq, copyForward_apply hle, if_neg (by omega)]

/-- **Copying the tail down erases.** -/
theorem cells_eraseCell (m : Mem) (off : Nat) {size n pos : Nat} (hpos : pos < n) :
    cells (eraseCell m off size n pos) off size (n - 1) = (cells m off size n).eraseIdx pos := by
  rw [eraseCell_eq]
  have htail : pos * size + (n - pos - 1) * size = (n - 1) * size := by
    rw [← Nat.add_mul]
    congr 1
    omega
  have hle : off + pos * size ≤ off + (pos + 1) * size := by rw [Nat.succ_mul]; omega
  refine List.ext_getElem ?_ fun i hi _ => ?_
  · rw [length_cells, List.length_eraseIdx, length_cells, if_pos hpos]
  rw [length_cells] at hi
  rw [getElem_cells, List.getElem_eraseIdx]
  by_cases hlt : i < pos
  · rw [dif_pos hlt, getElem_cells]
    refine readAt_congr fun j hj => ?_
    have hbound := mul_add_lt hlt hj
    rw [copyForward_apply hle, if_neg (by omega)]
  · rw [dif_neg hlt, getElem_cells]
    refine readAt_congr fun j hj => ?_
    have hlow : pos * size ≤ i * size := Nat.mul_le_mul_right size (by omega)
    have hbound := mul_add_lt hi hj
    rw [copyForward_apply hle, if_pos (by omega), Nat.succ_mul, Nat.succ_mul]
    congr 1
    omega

end OnionRelay.Lib
