import Mathlib.Data.List.Nodup
import Mathlib.Data.List.Perm.Subperm
import Mathlib.Logic.Function.Basic
import OnionRelay.Lib.Memory
import OnionRelay.Lib.Prog

/-!
# Pages and the page store

The trees and the record store are programs over `PageSig`: they pin and unpin
pages, allocate them, change the content of a pinned page and mark it dirty.  A
change through the pointer a pin returned is `write` here.

`flatStore` runs these programs against the plain map from page ids to pages that
the buffer pool stands for.  Two things are left open: which free page an
allocation hands out (`Allocator`) and which requests are granted.
-/

namespace OnionRelay.Db

open OnionRelay.Lib

/-- The bytes of a page; those below `DB_PAGE_SIZE` are used. -/
abbrev PageData := Mem

def dbPageSize : Nat := 4096

def dbMaxPages : Nat := 2 ^ 24

def zeroPage : PageData := fun _ => 0

inductive PageOp
  | pin (pid : Nat)
  | unpin (pid : Nat)
  | alloc
  | write (pid : Nat) (page : PageData)
  | markDirty (pid lsn : Nat)

def PageSig : Sig where
  Op := PageOp
  Resp
    | .pin _ => Option PageData
    | .unpin _ => Unit
    | .alloc => Option (Nat × PageData)
    | .write _ _ => Unit
    | .markDirty _ _ => Unit

abbrev PageM := Prog PageSig

/-- `buffer_pool_pin`; `none` is `NULL`. -/
def pinPage (pid : Nat) : PageM (Option PageData) := Prog.call (S := PageSig) (.pin pid)

/-- `buffer_pool_unpin`. -/
def unpinPage (pid : Nat) : PageM Unit := Prog.call (S := PageSig) (.unpin pid)

/-- `buffer_pool_alloc_page`; `none` is `PAGE_ID_NULL`. -/
def allocPage : PageM (Option (Nat × PageData)) := Prog.call (S := PageSig) .alloc

def writePage (pid : Nat) (page : PageData) : PageM Unit := Prog.call (S := PageSig) (.write pid page)

/-- `buffer_pool_mark_dirty`. -/
def markDirty (pid lsn : Nat) : PageM Unit := Prog.call (S := PageSig) (.markDirty pid lsn)

/-! ## The flat store -/

/-- Which page an allocation hands out, given those in use: one that is not, as
long as the file may grow. -/
structure Allocator where
  pick : List Nat → Nat
  fresh : ∀ used : List Nat, used.length + 1 < dbMaxPages →
    pick used ∉ used ∧ 0 < pick used ∧ pick used < dbMaxPages

/-- The lowest free page. -/
def lowestFree (used : List Nat) : Nat :=
  ((List.range (used.length + 1)).map (· + 1)).find? (fun pid => decide (pid ∉ used)) |>.getD 0

theorem lowestFree_fresh (used : List Nat) :
    lowestFree used ∉ used ∧ 0 < lowestFree used ∧ lowestFree used ≤ used.length + 1 := by
  rw [lowestFree]
  cases hfind : ((List.range (used.length + 1)).map (· + 1)).find?
      (fun pid => decide (pid ∉ used)) with
  | some pid =>
    have hmem := List.mem_of_find?_eq_some hfind
    have hfree := List.find?_some hfind
    rw [List.mem_map] at hmem
    obtain ⟨i, hi, rfl⟩ := hmem
    have hlt := List.mem_range.mp hi
    exact ⟨by simpa using hfree, Nat.succ_pos i, hlt⟩
  | none =>
    -- all of more pages than are in use would be in use
    exfalso
    have hsub : ((List.range (used.length + 1)).map (· + 1)) ⊆ used := by
      intro pid hpid
      simpa using List.find?_eq_none.mp hfind pid hpid
    have hnodup : ((List.range (used.length + 1)).map (· + 1)).Nodup :=
      List.Nodup.map (fun _ _ h => Nat.succ.inj h) List.nodup_range
    have hlen := (List.subperm_of_subset hnodup hsub).length_le
    rw [List.length_map, List.length_range] at hlen
    omega

def Allocator.lowest : Allocator where
  pick := lowestFree
  fresh := fun used h => by
    obtain ⟨hfree, hpos, hle⟩ := lowestFree_fresh used
    exact ⟨hfree, hpos, by omega⟩

structure FlatStore where
  pages : Nat → PageData
  used : List Nat
  requests : Nat

/-- A store of which no page is in use. -/
def FlatStore.empty : FlatStore := ⟨fun _ => zeroPage, [], 0⟩

def FlatStore.set (s : FlatStore) (pid : Nat) (page : PageData) : FlatStore :=
  { s with pages := Function.update s.pages pid page }

/-- The store after page `pid` was handed out. -/
def FlatStore.grow (s : FlatStore) (pid : Nat) : FlatStore :=
  ⟨Function.update s.pages pid zeroPage, pid :: s.used, s.requests + 1⟩

/-- The store after a request was turned down. -/
def FlatStore.refuse (s : FlatStore) : FlatStore := { s with requests := s.requests + 1 }

def FlatStore.fetch (s : FlatStore) (pid : Nat) : Option PageData :=
  if pid ≠ 0 ∧ pid ∈ s.used then some (s.pages pid) else none

def FlatStore.allocate (allocator : Allocator) (grants : Nat → Bool) (s : FlatStore) :
    Option (Nat × PageData) × FlatStore :=
  if grants s.requests then
    (some (allocator.pick s.used, zeroPage), s.grow (allocator.pick s.used))
  else (none, s.refuse)

def flatStore (allocator : Allocator) (grants : Nat → Bool) : Handler PageSig FlatStore
  | .pin pid, s => (s.fetch pid, s)
  | .unpin _, s => ((), s)
  | .alloc, s => s.allocate allocator grants
  | .write pid page, s => ((), s.set pid page)
  | .markDirty _ _, s => ((), s)

section Run

variable (allocator : Allocator) (grants : Nat → Bool) (s : FlatStore) (pid : Nat)

@[simp] theorem run_pinPage :
    (pinPage pid).run (flatStore allocator grants) s = (s.fetch pid, s) := (rfl)

@[simp] theorem run_unpinPage :
    (unpinPage pid).run (flatStore allocator grants) s = ((), s) := (rfl)

@[simp] theorem run_writePage (page : PageData) :
    (writePage pid page).run (flatStore allocator grants) s = ((), s.set pid page) := (rfl)

@[simp] theorem run_markDirty (lsn : Nat) :
    (markDirty pid lsn).run (flatStore allocator grants) s = ((), s) := (rfl)

@[simp] theorem run_allocPage :
    allocPage.run (flatStore allocator grants) s = s.allocate allocator grants := (rfl)

theorem allocate_of_granted (h : grants s.requests = true) : s.allocate allocator grants =
    (some (allocator.pick s.used, zeroPage), s.grow (allocator.pick s.used)) := if_pos h

theorem allocate_of_refused {allocator : Allocator} {grants : Nat → Bool} {s : FlatStore}
    (h : grants s.requests = false) : s.allocate allocator grants = (none, s.refuse) := by
  rw [FlatStore.allocate, h, if_neg (by decide)]

end Run

section Pages

variable (s : FlatStore) {pid other : Nat} (page : PageData)

@[simp] theorem used_set : (s.set pid page).used = s.used := rfl

@[simp] theorem requests_set : (s.set pid page).requests = s.requests := rfl

@[simp] theorem used_grow : (s.grow pid).used = pid :: s.used := rfl

@[simp] theorem requests_grow : (s.grow pid).requests = s.requests + 1 := rfl

@[simp] theorem pages_set_self : (s.set pid page).pages pid = page := by
  simp [FlatStore.set]

theorem pages_set_of_ne (h : other ≠ pid) : (s.set pid page).pages other = s.pages other := by
  simp [FlatStore.set, h]

theorem pages_grow_of_ne (h : other ≠ pid) : (s.grow pid).pages other = s.pages other := by
  simp [FlatStore.grow, h]

theorem fetch_of_mem {s : FlatStore} (h0 : pid ≠ 0) (h : pid ∈ s.used) :
    s.fetch pid = some (s.pages pid) := by
  rw [FlatStore.fetch, if_pos ⟨h0, h⟩]

end Pages

/-- None of the next requests is granted without room in the file. -/
def FlatStore.RoomFor (s : FlatStore) (grants : Nat → Bool) (n : Nat) : Prop :=
  ∀ i ≤ n, grants (s.requests + i) = true → s.used.length + i + 1 < dbMaxPages

/-- A page in use whose id is one of the file's. -/
structure FlatStore.Live (s : FlatStore) (pid : Nat) : Prop where
  mem : pid ∈ s.used
  pos : 0 < pid
  lt : pid < dbMaxPages

theorem FlatStore.Live.fetch {s : FlatStore} {pid : Nat} (h : s.Live pid) :
    s.fetch pid = some (s.pages pid) := fetch_of_mem h.pos.ne' h.mem

theorem FlatStore.Live.lt_word {s : FlatStore} {pid : Nat} (h : s.Live pid) : pid < 2 ^ 32 :=
  h.lt.trans (by decide)

theorem FlatStore.Live.set {s : FlatStore} {pid : Nat} (h : s.Live pid) (other : Nat)
    (page : PageData) : (s.set other page).Live pid := ⟨h.mem, h.pos, h.lt⟩

theorem FlatStore.Live.mono {s s' : FlatStore} {pid : Nat} (h : s.Live pid)
    (hused : s.used ⊆ s'.used) : s'.Live pid := ⟨hused h.mem, h.pos, h.lt⟩

end OnionRelay.Db
