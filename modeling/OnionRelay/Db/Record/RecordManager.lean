import OnionRelay.Db.Record.Overflow

/-!
# The record manager

`record_manager.c`, as programs over the page layer.  `record_insert` looks for a record
page among the pages in the pool, which it knows by a byte of their header, before it
takes a new one.

`recordStore` runs the programs on a flat page store.  What the environment may do is
open: which requests for a page or a pin are granted, and which frame a page that is
loaded takes (`PageLayer`).
-/

namespace OnionRelay.Db

open OnionRelay.Lib

/-! ## The operations -/

/-- The loop of `try_insert_existing` over the frames `i` to `pool_size - 1`. -/
def tryInsertLoop (data : List UInt8) : Nat → Nat → RecordM (Option (Nat × Nat))
  | 0, _ => return none
  | left + 1, i => do
    let pid ← poolPageId i
    if pid = 0 then tryInsertLoop data left (i + 1)
    else
      match ← poolPin pid with
      | none => tryInsertLoop data left (i + 1)
      | some page =>
        if pageType page ≠ pageTypeRecord then
          poolUnpin pid
          tryInsertLoop data left (i + 1)
        else if (data.length + slotEntrySize) % 2 ^ 16 ≤ slotPageFreeSpace page then
          match slotPageInsert page data with
          | (.ok slot, page) =>
            poolWrite pid page
            poolDirty pid 0
            poolUnpin pid
            return some (pid, slot)
          | (.error _, page) =>
            poolWrite pid page
            poolUnpin pid
            tryInsertLoop data left (i + 1)
        else
          poolUnpin pid
          tryInsertLoop data left (i + 1)

/-- `try_insert_existing`; `none` is `PAGE_ID_NULL`. -/
def tryInsertExisting (data : List UInt8) : RecordM (Option (Nat × Nat)) := do
  let size ← poolSize
  tryInsertLoop data size 0

def recordId (pid i : Nat) : RecordId := ⟨UInt32.ofNat pid, UInt16.ofNat i⟩

/-- `record_insert` -/
def recordInsert (data : List UInt8) : RecordM (Except NostrDBError RecordId) :=
  if data.length = 0 then return .error .nullParam
  else if maxInlineRecordSize < data.length then overflowInsert data
  else do
    match ← tryInsertExisting data with
    | some (pid, i) => return .ok (recordId pid i)
    | none =>
      match ← poolAlloc with
      | none => return .error .full
      | some (pid, _) =>
        match slotPageInsert (slotPageInit pid) data with
        | (.error err, page) =>
          poolWrite pid page
          poolUnpin pid
          return .error err
        | (.ok i, page) =>
          poolWrite pid page
          poolDirty pid 0
          poolUnpin pid
          return .ok (recordId pid i)

/-- `record_read` with an output of `capacity` bytes: the length of the record and the
bytes copied. -/
def recordRead (rid : RecordId) (capacity : Nat) : RecordM (Except NostrDBError (Nat × List UInt8)) :=
  if rid.pageId = 0 then return .error .nullParam
  else do
    let pid := rid.pageId.toNat
    let i := rid.slotIndex.toNat
    match ← poolPin pid with
    | none => return .error .notFound
    | some page =>
      let r ← if overflowIsSpanned page i then overflowRead page i capacity
        else pure (slotPageRead page i capacity)
      poolUnpin pid
      return r

/-- `record_delete` -/
def recordDelete (rid : RecordId) : RecordM NostrDBError :=
  if rid.pageId = 0 then return .nullParam
  else do
    let pid := rid.pageId.toNat
    let i := rid.slotIndex.toNat
    match ← poolPin pid with
    | none => return .notFound
    | some page =>
      if overflowIsSpanned page i then dropChain (spannedPrefix page i).overflowPage else pure ()
      let r := slotPageDelete page i
      poolWrite pid r.2
      if r.1 = .ok then poolDirty pid 0 else pure ()
      poolUnpin pid
      return r.1

/-- The end of `record_update` where the record does not stay in its place. -/
def deleteAndReinsert (rid : RecordId) (data : List UInt8) : RecordM (NostrDBError × RecordId) := do
  let err ← recordDelete rid
  if err ≠ .ok then return (err, rid)
  else
    match ← recordInsert data with
    | .ok rid => return (.ok, rid)
    | .error err => return (err, rid)

/-- `record_update`; the record id is an input and an output. -/
def recordUpdate (rid : RecordId) (data : List UInt8) : RecordM (NostrDBError × RecordId) :=
  if data.length = 0 ∨ rid.pageId = 0 then return (.nullParam, rid)
  else do
    let pid := rid.pageId.toNat
    let i := rid.slotIndex.toNat
    match ← poolPin pid with
    | none => return (.notFound, rid)
    | some page =>
      if overflowIsSpanned page i then
        poolUnpin pid
        deleteAndReinsert rid data
      else if slotCount page ≤ i ∨ SlotDeleted page i then
        poolUnpin pid
        return (.notFound, rid)
      else if data.length ≤ slotLength page i then
        poolWrite pid (updateInPlace page i data)
        poolDirty pid 0
        poolUnpin pid
        return (.ok, rid)
      else
        poolUnpin pid
        deleteAndReinsert rid data

/-! ## The store -/

/-- The pages, the page of each frame, the number of pins asked for, and the pages that
were handed out, which no program sees. -/
structure RecordStore where
  flat : FlatStore
  frames : List Nat
  pins : Nat
  handedOut : List Nat

/-- What the page layer is free to do. -/
structure PageLayer where
  allocator : Allocator
  grantsPage : Nat → Bool
  grantsPin : Nat → Bool
  load : List Nat → Nat → List Nat

/-- A page layer that grants everything. -/
def PageLayer.granting (allocator : Allocator) (load : List Nat → Nat → List Nat) : PageLayer :=
  ⟨allocator, fun _ => true, fun _ => true, load⟩

namespace RecordStore

def set (s : RecordStore) (pid : Nat) (page : PageData) : RecordStore :=
  { s with flat := s.flat.set pid page }

/-- The store after a pin of page `pid`, which is then in a frame. -/
def pinned (layer : PageLayer) (s : RecordStore) (pid : Nat) : RecordStore :=
  { s with frames := if pid ∈ s.frames then s.frames else layer.load s.frames pid, pins := s.pins + 1 }

/-- A page in a frame is always pinned, also when it was given back; others have to be read. -/
def pin (layer : PageLayer) (s : RecordStore) (pid : Nat) : Option PageData × RecordStore :=
  if pid ≠ 0 ∧ (pid ∈ s.frames ∨ layer.grantsPin s.pins = true) then
    (some (s.flat.pages pid), s.pinned layer pid)
  else (none, { s with pins := s.pins + 1 })

/-- The store with a new page. -/
def grow (layer : PageLayer) (s : RecordStore) : RecordStore :=
  let pid := layer.allocator.pick s.flat.used
  ⟨s.flat.grow pid, layer.load s.frames pid, s.pins, pid :: s.handedOut⟩

def allocate (layer : PageLayer) (s : RecordStore) : Option (Nat × PageData) × RecordStore :=
  if layer.grantsPage s.flat.requests then
    (some (layer.allocator.pick s.flat.used, zeroPage), s.grow layer)
  else (none, { s with flat := s.flat.refuse })

def release (s : RecordStore) (pid : Nat) : RecordStore :=
  { s with flat := { s.flat with used := s.flat.used.filter (· ≠ pid) } }

end RecordStore

def recordStore (layer : PageLayer) : Handler (PageSig.sum RecordSig) RecordStore
  | .inl (.pin pid), s => s.pin layer pid
  | .inl (.unpin _), s => ((), s)
  | .inl .alloc, s => s.allocate layer
  | .inl (.write pid page), s => ((), s.set pid page)
  | .inl (.markDirty _ _), s => ((), s)
  | .inr (.free pid), s => ((), s.release pid)
  | .inr .size, s => (s.frames.length, s)
  | .inr (.pageId i), s => (s.frames.getD i 0, s)

section Run

variable (layer : PageLayer) (s : RecordStore) (pid : Nat)

@[simp] theorem run_poolPin : (poolPin pid).run (recordStore layer) s = s.pin layer pid := (rfl)

@[simp] theorem run_poolUnpin : (poolUnpin pid).run (recordStore layer) s = ((), s) := (rfl)

@[simp] theorem run_poolAlloc : poolAlloc.run (recordStore layer) s = s.allocate layer := (rfl)

@[simp] theorem run_poolWrite (page : PageData) :
    (poolWrite pid page).run (recordStore layer) s = ((), s.set pid page) := (rfl)

@[simp] theorem run_poolDirty (lsn : Nat) : (poolDirty pid lsn).run (recordStore layer) s = ((), s) := (rfl)

@[simp] theorem run_poolFree : (poolFree pid).run (recordStore layer) s = ((), s.release pid) := (rfl)

@[simp] theorem run_poolSize : poolSize.run (recordStore layer) s = (s.frames.length, s) := (rfl)

@[simp] theorem run_poolPageId (i : Nat) :
    (poolPageId i).run (recordStore layer) s = (s.frames.getD i 0, s) := (rfl)

end Run

end OnionRelay.Db
