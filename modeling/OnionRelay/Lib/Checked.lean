import OnionRelay.Lib.Memory

/-!
# Programs that stop at an access outside

A `Checked` program loads from byte strings and stores into arrays of a fixed capacity.  The
first access outside ends it with a `Fault`; it `Runs` when there is none.  `copy` is the loop
that copies bytes from a string into an array.
-/

namespace OnionRelay.Lib

/-- An access to cell `index` of an array of `size`. -/
structure Fault where
  index : Nat
  size : Nat
deriving DecidableEq

abbrev Checked (α : Type) := Except Fault α

namespace Checked

variable {α β : Type}

def load (cells : List α) (i : Nat) : Checked α :=
  match cells[i]? with
  | some cell => .ok cell
  | none => .error ⟨i, cells.length⟩

def store (capacity : Nat) (m : Mem) (i : Nat) (b : UInt8) : Checked Mem :=
  if i < capacity then .ok (writeAt m i [b]) else .error ⟨i, capacity⟩

/-- The address of cell `i` of an array of `capacity`. -/
def cell (capacity i : Nat) : Checked Nat := if i < capacity then .ok i else .error ⟨i, capacity⟩

/-- `n` more bytes from `src[base + j]` on, into the array from cell `j` on. -/
def copyFrom (src : List UInt8) (base capacity : Nat) : Nat → Nat → Mem → Checked Mem
  | 0, _, m => .ok m
  | n + 1, j, m => do
    let b ← load src (base + j)
    let m ← store capacity m j b
    copyFrom src base capacity n (j + 1) m

/-- The first `n` bytes from `src[base]` on. -/
def copy (src : List UInt8) (base capacity n : Nat) (m : Mem) : Checked Mem := copyFrom src base capacity n 0 m

/-- All of `bytes`, from cell `i` on. -/
def storeAll (capacity : Nat) : List UInt8 → Nat → Mem → Checked Mem
  | [], _, m => .ok m
  | b :: bytes, i, m => do
    let m ← store capacity m i b
    storeAll capacity bytes (i + 1) m

/-- There is no access outside. -/
def Runs (x : Checked α) : Prop := ∃ a, x = .ok a

instance : (x : Checked α) → Decidable (Runs x)
  | .ok a => .isTrue ⟨a, rfl⟩
  | .error _ => .isFalse fun h => nomatch h

theorem runs_ok (a : α) : Runs (.ok a) := ⟨a, rfl⟩

theorem not_runs_error (fault : Fault) : ¬ Runs (.error fault : Checked α) := by
  rintro ⟨a, h⟩
  cases h

@[simp] theorem bind_ok (a : α) (f : α → Checked β) : ((.ok a : Checked α) >>= f) = f a := rfl

@[simp] theorem pure_eq (a : α) : (pure a : Checked α) = .ok a := rfl

theorem runs_bind {x : Checked α} {f : α → Checked β} (h : Runs (x >>= f)) : ∃ a, x = .ok a ∧ Runs (f a) := by
  cases x with
  | error fault => exact absurd h (not_runs_error fault)
  | ok a => exact ⟨a, rfl, h⟩

theorem load_ok {cells : List α} {i : Nat} (h : i < cells.length) : load cells i = .ok cells[i] := by
  rw [load, List.getElem?_eq_getElem h]

theorem not_runs_load {cells : List α} {i : Nat} (h : cells.length ≤ i) : ¬ Runs (load cells i) := by
  rw [load, List.getElem?_eq_none h]
  exact not_runs_error _

theorem store_ok {capacity i : Nat} (h : i < capacity) (m : Mem) (b : UInt8) :
    store capacity m i b = .ok (writeAt m i [b]) := if_pos h

theorem lt_of_runs_store {capacity i : Nat} {m : Mem} {b : UInt8} (h : Runs (store capacity m i b)) : i < capacity := by
  by_contra hnot
  rw [store, if_neg hnot] at h
  exact not_runs_error _ h

theorem cell_ok {capacity i : Nat} (h : i < capacity) : cell capacity i = .ok i := if_pos h

theorem lt_of_cell {capacity i j : Nat} (h : cell capacity i = .ok j) : i < capacity ∧ i = j := by
  by_cases hlt : i < capacity
  · rw [cell_ok hlt] at h
    exact ⟨hlt, Except.ok.inj h⟩
  · rw [cell, if_neg hlt] at h
    cases h

theorem copyFrom_ok {src : List UInt8} {base capacity : Nat} : ∀ {n j : Nat} (m : Mem), j + n ≤ capacity →
    base + j + n ≤ src.length →
      copyFrom src base capacity n j m = .ok (writeAt m j ((src.drop (base + j)).take n)) := by
  intro n
  induction n with
  | zero =>
    intro j m _ _
    rw [List.take_zero, writeAt_nil, copyFrom]
  | succ n ih =>
    intro j m hcap hlen
    rw [copyFrom, load_ok (show base + j < src.length by omega), bind_ok, store_ok (by omega), bind_ok,
      ih _ (by omega) (by omega), List.drop_eq_getElem_cons (show base + j < src.length by omega), List.take_succ_cons]
    exact congrArg Except.ok (writeAt_append m j [src[base + j]] _ rfl)

theorem copy_ok {src : List UInt8} {base capacity n : Nat} (m : Mem) (hcap : n ≤ capacity)
    (hlen : base + n ≤ src.length) : copy src base capacity n m = .ok (writeAt m 0 ((src.drop base).take n)) :=
  copyFrom_ok m (by omega) hlen

/-- A copy that runs fits. -/
theorem le_of_runs_copyFrom {src : List UInt8} {base capacity : Nat} : ∀ {n j : Nat} {m : Mem}, j ≤ capacity →
    Runs (copyFrom src base capacity n j m) → j + n ≤ capacity := by
  intro n
  induction n with
  | zero => exact fun hj _ => hj
  | succ n ih =>
    intro j m _ h
    obtain ⟨b, -, h⟩ := runs_bind h
    obtain ⟨m', hstore, h⟩ := runs_bind h
    have hlt := lt_of_runs_store ⟨m', hstore⟩
    have hle := ih hlt h
    omega

theorem le_of_runs_copy {src : List UInt8} {base capacity n : Nat} {m : Mem}
    (h : Runs (copy src base capacity n m)) : n ≤ capacity := by
  have hle := le_of_runs_copyFrom (Nat.zero_le capacity) h
  omega

theorem storeAll_ok {capacity : Nat} : ∀ {bytes : List UInt8} {i : Nat} (m : Mem), i + bytes.length ≤ capacity →
    storeAll capacity bytes i m = .ok (writeAt m i bytes) := by
  intro bytes
  induction bytes with
  | nil =>
    intro i m _
    rw [storeAll, writeAt_nil]
  | cons b bytes ih =>
    intro i m h
    rw [List.length_cons] at h
    rw [storeAll, store_ok (by omega), bind_ok, ih _ (by omega)]
    exact congrArg Except.ok (writeAt_append m i [b] bytes rfl)

theorem le_of_runs_storeAll {capacity : Nat} : ∀ {bytes : List UInt8} {i : Nat} {m : Mem}, i ≤ capacity →
    Runs (storeAll capacity bytes i m) → i + bytes.length ≤ capacity := by
  intro bytes
  induction bytes with
  | nil => exact fun hi _ => hi
  | cons b bytes ih =>
    intro i m _ h
    obtain ⟨m', hstore, h⟩ := runs_bind h
    have hlt := lt_of_runs_store ⟨m', hstore⟩
    have hle := ih hlt h
    rw [List.length_cons]
    omega

end Checked

end OnionRelay.Lib
