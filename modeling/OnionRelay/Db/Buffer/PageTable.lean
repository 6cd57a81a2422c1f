import Mathlib.Algebra.Order.Ring.Nat
import Mathlib.Logic.Function.Basic
import Mathlib.Tactic.Common

/-!
# The page table

The hash table of `buffer_pool.c` from page ids to frames: open addressing with
linear probing, and deletion that shifts entries back.  A slot holds a frame, or `none`
for `BUFFER_FRAME_INVALID`; the page of a frame is looked up in `page_ids`, here `ids`.

A loop of the source that goes around the table at most once has the number of slots
as its fuel.  Those that would go around again and again when no slot is empty stop
there; with twice as many slots as frames this does not happen.
-/

namespace OnionRelay.Db

structure PageTable where
  slots : Nat → Option Nat
  size : Nat

/-- `hash_page_id` -/
def hashPageId (pid size : Nat) : Nat := pid * 2654435761 % 2 ^ 32 % size

namespace PageTable

variable (ids : Nat → Nat)

/-- The loop of `hash_lookup`. -/
def lookupFrom (table : PageTable) (pid : Nat) : Nat → Nat → Option Nat
  | 0, _ => none
  | fuel + 1, idx =>
    match table.slots idx with
    | none => none
    | some frame =>
      if ids frame = pid then some frame
      else lookupFrom table pid fuel ((idx + 1) % table.size)

/-- `hash_lookup` -/
def lookup (table : PageTable) (pid : Nat) : Option Nat :=
  table.lookupFrom ids pid table.size (hashPageId pid table.size)

def set (table : PageTable) (idx : Nat) (entry : Option Nat) : PageTable :=
  { table with slots := Function.update table.slots idx entry }

/-- The loop of `hash_insert`. -/
def insertFrom (table : PageTable) (pid frame : Nat) : Nat → Nat → PageTable
  | 0, _ => table
  | fuel + 1, idx =>
    match table.slots idx with
    | none => table.set idx (some frame)
    | some frame' =>
      if ids frame' = pid then table.set idx (some frame)
      else insertFrom table pid frame fuel ((idx + 1) % table.size)

/-- `hash_insert` -/
def insert (table : PageTable) (pid frame : Nat) : PageTable :=
  table.insertFrom ids pid frame table.size (hashPageId pid table.size)

/-- The slot at which `hash_remove` finds a page. -/
def slotFrom (table : PageTable) (pid : Nat) : Nat → Nat → Option Nat
  | 0, _ => none
  | fuel + 1, idx =>
    match table.slots idx with
    | none => none
    | some frame =>
      if ids frame = pid then some idx else slotFrom table pid fuel ((idx + 1) % table.size)

/-- Whether the entry at `j` with home slot `k` is moved to the gap. -/
def shouldMove (gap j k : Nat) : Bool :=
  if gap ≤ j then decide (k ≤ gap ∨ j < k) else decide (k ≤ gap ∧ j < k)

/-- The loop that slides entries back; the gap it ends with is emptied. -/
def shiftFrom (table : PageTable) : Nat → Nat → Nat → PageTable
  | 0, gap, _ => table.set gap none
  | fuel + 1, gap, j =>
    let j := (j + 1) % table.size
    match table.slots j with
    | none => table.set gap none
    | some frame =>
      if shouldMove gap j (hashPageId (ids frame) table.size) then
        shiftFrom (table.set gap (some frame)) fuel j j
      else shiftFrom table fuel gap j

/-- `hash_remove` -/
def remove (table : PageTable) (pid : Nat) : PageTable :=
  match table.slotFrom ids pid table.size (hashPageId pid table.size) with
  | none => table
  | some idx => table.shiftFrom ids table.size idx idx

end PageTable

end OnionRelay.Db
