import OnionRelay.Db.Buffer.PageTable
import OnionRelay.Db.Disk

/-!
# The buffer pool

`buffer_pool.c`.  The arrays of the pool are one function from frame numbers to
`Frame`, a page pointer is the number of its frame.  `written` is no part of the
program: it lists the frames that were given to `disk_write_page`, in order.
-/

namespace OnionRelay.Db

open OnionRelay.Lib

structure Frame where
  pageId : Nat
  pinCount : UInt8
  dirty : Bool
  refBit : Bool
  page : PageData
  lsn : UInt64

/-- A frame that was written to disk: its page and its LSN. -/
structure FrameWrite where
  pageId : Nat
  lsn : UInt64
deriving DecidableEq

structure BufferPool where
  frames : Nat → Frame
  poolSize : Nat
  clockHand : Nat
  table : PageTable
  disk : DiskManager
  written : List FrameWrite

namespace BufferPool

def pageIds (pool : BufferPool) (frame : Nat) : Nat := (pool.frames frame).pageId

/-- A frame as it is when it is written. -/
def label (pool : BufferPool) (frame : Nat) : FrameWrite :=
  ⟨pool.pageIds frame, (pool.frames frame).lsn⟩

def setFrame (pool : BufferPool) (frame : Nat) (contents : Frame) : BufferPool :=
  { pool with frames := Function.update pool.frames frame contents }

/-- `hash_lookup` for the pool's own table. -/
def lookup (pool : BufferPool) (pid : Nat) : Option Nat := pool.table.lookup pool.pageIds pid

/-- The loop of `clock_evict`; `none` is `BUFFER_FRAME_INVALID`. -/
def clockFrom : Nat → BufferPool → Option Nat × BufferPool
  | 0, pool => (none, pool)
  | scans + 1, pool =>
    let frame := pool.clockHand
    let moved := { pool with clockHand := (pool.clockHand + 1) % pool.poolSize }
    if 0 < (pool.frames frame).pinCount then clockFrom scans moved
    else if (pool.frames frame).refBit then
      clockFrom scans (moved.setFrame frame { pool.frames frame with refBit := false })
    else (some frame, moved)

/-- `clock_evict` -/
def clockEvict (pool : BufferPool) : Option Nat × BufferPool :=
  clockFrom (pool.poolSize * 2 % 2 ^ 32) pool

/-- The test in front of a write to disk. -/
def NeedsWrite (pool : BufferPool) (frame : Nat) : Prop :=
  (pool.frames frame).dirty = true ∧ pool.pageIds frame ≠ 0

instance (pool : BufferPool) (frame : Nat) : Decidable (pool.NeedsWrite frame) :=
  inferInstanceAs (Decidable (_ ∧ _))

/-- `flush_frame` -/
def flushFrame (io : DiskIo) (pool : BufferPool) (frame : Nat) : NostrDBError × BufferPool :=
  if pool.NeedsWrite frame then
    let fr := pool.frames frame
    let pool := { pool with written := pool.written ++ [pool.label frame] }
    match pool.disk.writePage io fr.pageId fr.page with
    | (.ok, disk) => (.ok, { pool with disk := disk }.setFrame frame { fr with dirty := false })
    | (err, disk) => (err, { pool with disk := disk })
  else (.ok, pool)

/-- The first frame without a page. -/
def emptyFrame (pool : BufferPool) : Option Nat :=
  (List.range pool.poolSize).find? fun frame => pool.pageIds frame = 0

/-- The search for a frame in `buffer_pool_pin` and `buffer_pool_alloc_page`. -/
def freeFrame (io : DiskIo) (pool : BufferPool) : Option Nat × BufferPool :=
  match pool.emptyFrame with
  | some frame => (some frame, pool)
  | none =>
    match pool.clockEvict with
    | (none, pool) => (none, pool)
    | (some frame, pool) =>
      match pool.flushFrame io frame with
      | (.ok, pool) =>
        (some frame,
          { pool with table := pool.table.remove pool.pageIds (pool.pageIds frame) })
      | (_, pool) => (none, pool)

/-- The pool with a page in a frame. -/
def load (pool : BufferPool) (frame : Nat) (contents : Frame) : BufferPool :=
  let pool := pool.setFrame frame contents
  { pool with table := pool.table.insert pool.pageIds contents.pageId frame }

/-- `buffer_pool_init` after its allocations succeeded; the slots of the hash table are
a prime number, at least twice as many as the frames. -/
def init (disk : DiskManager) (poolSize hashSize : Nat) : BufferPool :=
  { frames := fun _ => ⟨0, 0, false, false, zeroPage, 0⟩
    poolSize := poolSize
    clockHand := 0
    table := ⟨fun _ => none, hashSize⟩
    disk := disk
    written := [] }

/-- `buffer_pool_pin`; `none` is `NULL`. -/
def pin (io : DiskIo) (pool : BufferPool) (pid : Nat) : Option Nat × BufferPool :=
  if pid = 0 then (none, pool)
  else
    match pool.lookup pid with
    | some frame =>
      let fr := pool.frames frame
      (some frame, pool.setFrame frame { fr with pinCount := fr.pinCount + 1, refBit := true })
    | none =>
      match pool.freeFrame io with
      | (none, pool) => (none, pool)
      | (some victim, pool) =>
        match pool.disk.readPage io pid with
        | (.ok page, disk) =>
          (some victim, { pool with disk := disk }.load victim ⟨pid, 1, false, true, page, 0⟩)
        | (.error _, disk) => (none, { pool with disk := disk })

/-- `buffer_pool_alloc_page`; the page id and the frame, `none` is `PAGE_ID_NULL`. -/
def allocPage (io : DiskIo) (pool : BufferPool) : Option (Nat × Nat) × BufferPool :=
  match pool.disk.allocPage io with
  | (newPid, disk) =>
    let pool := { pool with disk := disk }
    if newPid = 0 then (none, pool)
    else
      match pool.freeFrame io with
      | (none, pool) => (none, { pool with disk := (pool.disk.freePage io newPid).2 })
      | (some frame, pool) =>
        (some (newPid, frame), pool.load frame ⟨newPid, 1, true, true, zeroPage, 0⟩)

/-- `buffer_pool_unpin` -/
def unpin (pool : BufferPool) (pid : Nat) : BufferPool :=
  if pid = 0 then pool
  else
    match pool.lookup pid with
    | none => pool
    | some frame =>
      let fr := pool.frames frame
      if 0 < fr.pinCount then pool.setFrame frame { fr with pinCount := fr.pinCount - 1 } else pool

/-- `buffer_pool_mark_dirty` -/
def markDirty (pool : BufferPool) (pid : Nat) (lsn : UInt64) : BufferPool :=
  if pid = 0 then pool
  else
    match pool.lookup pid with
    | none => pool
    | some frame =>
      let fr := pool.frames frame
      pool.setFrame frame { fr with dirty := true, lsn := if fr.lsn < lsn then lsn else fr.lsn }

/-- `buffer_pool_flush` -/
def flush (io : DiskIo) (pool : BufferPool) (pid : Nat) : NostrDBError × BufferPool :=
  if pid = 0 then (.nullParam, pool)
  else
    match pool.lookup pid with
    | none => (.notFound, pool)
    | some frame => pool.flushFrame io frame

/-- The loop of `buffer_pool_flush_all`. -/
def flushFrames (io : DiskIo) : List Nat → BufferPool → NostrDBError × BufferPool
  | [], pool => (.ok, pool)
  | frame :: frames, pool =>
    if pool.NeedsWrite frame then
      match pool.flushFrame io frame with
      | (.ok, pool) => flushFrames io frames pool
      | (err, pool) => (err, pool)
    else flushFrames io frames pool

/-- `buffer_pool_flush_all` -/
def flushAll (io : DiskIo) (pool : BufferPool) : NostrDBError × BufferPool :=
  match flushFrames io (List.range pool.poolSize) pool with
  | (.ok, pool) =>
    match pool.disk.sync io with
    | (err, disk) => (err, { pool with disk := disk })
  | (err, pool) => (err, pool)

/-- The content of a frame changed through a page pointer. -/
def writeFrame (pool : BufferPool) (frame : Nat) (page : PageData) : BufferPool :=
  pool.setFrame frame { pool.frames frame with page := page }

/-! ## What is written -/

section Written

variable {pool : BufferPool}

/-- A frame whose page and LSN stay may be replaced. -/
theorem label_setFrame {frame : Nat} {contents : Frame}
    (hpage : contents.pageId = pool.pageIds frame) (hlsn : contents.lsn = (pool.frames frame).lsn) :
    (pool.setFrame frame contents).label = pool.label := by
  funext f
  by_cases hf : f = frame
  · subst hf
    simp [label, pageIds, setFrame, hpage, hlsn]
  · simp [label, pageIds, setFrame, Function.update_of_ne hf]

/-- The clock only clears reference bits. -/
theorem clockFrom_same (scans : Nat) (pool : BufferPool) :
    (clockFrom scans pool).2.label = pool.label ∧ (clockFrom scans pool).2.written = pool.written ∧
      ∀ f, (clockFrom scans pool).2.NeedsWrite f ↔ pool.NeedsWrite f := by
  induction scans generalizing pool with
  | zero => exact ⟨rfl, rfl, fun f => Iff.rfl⟩
  | succ scans ih =>
    rw [clockFrom]
    dsimp only
    split
    · exact ih _
    split
    · obtain ⟨hlabel, hwritten, hneeds⟩ := ih
        (setFrame { pool with clockHand := (pool.clockHand + 1) % pool.poolSize } pool.clockHand
          { pool.frames pool.clockHand with refBit := false })
      refine ⟨hlabel.trans (label_setFrame rfl rfl), hwritten, fun f => (hneeds f).trans ?_⟩
      by_cases hf : f = pool.clockHand
      · subst hf
        simp [NeedsWrite, pageIds, setFrame]
      · simp [NeedsWrite, pageIds, setFrame, Function.update_of_ne hf]
    · exact ⟨rfl, rfl, fun f => Iff.rfl⟩

/-- **A frame is written if it is dirty and has a page.** -/
theorem written_flushFrame (io : DiskIo) (pool : BufferPool) (frame : Nat) :
    (pool.flushFrame io frame).2.label = pool.label ∧
      (pool.flushFrame io frame).2.written =
        pool.written ++ if pool.NeedsWrite frame then [pool.label frame] else [] := by
  rw [flushFrame]
  split
  · dsimp only
    split
    · exact ⟨label_setFrame rfl rfl, rfl⟩
    · exact ⟨rfl, rfl⟩
  · exact ⟨rfl, (List.append_nil _).symm⟩

/-- The frame that is written when a page needs one: the clock's, if no frame is empty. -/
def evicted (pool : BufferPool) : List Nat :=
  if pool.emptyFrame = none then pool.clockEvict.1.toList.filter fun f => pool.NeedsWrite f else []

theorem written_freeFrame (io : DiskIo) (pool : BufferPool) :
    (pool.freeFrame io).2.written = pool.written ++ pool.evicted.map pool.label := by
  rw [freeFrame, evicted]
  cases hempty : pool.emptyFrame with
  | some frame => exact (List.append_nil _).symm
  | none =>
    obtain ⟨hlabel, hwritten, hneeds⟩ := clockFrom_same (pool.poolSize * 2 % 2 ^ 32) pool
    rw [← clockEvict] at hlabel hwritten hneeds
    rw [if_pos rfl]
    generalize pool.clockEvict = clock at hlabel hwritten hneeds
    obtain ⟨victim, pool'⟩ := clock
    cases victim with
    | none => exact hwritten.trans (List.append_nil _).symm
    | some frame =>
      have hflush := (written_flushFrame io pool' frame).2
      dsimp only at hlabel hwritten hneeds ⊢
      have heq : (pool'.flushFrame io frame).2.written = pool.written ++
          ((some frame).toList.filter fun f => pool.NeedsWrite f).map pool.label := by
        rw [hflush, hwritten, hlabel]
        by_cases hneed : pool.NeedsWrite frame
        · simp [(hneeds frame).mpr hneed, hneed]
        · simp [mt (hneeds frame).mp hneed, hneed]
      rw [← heq]
      split
      · rename_i hok
        rw [hok]
      · rename_i herr
        rw [herr]

/-- The frames a loop over `frames` writes: the dirty ones, up to the first that cannot
be written. -/
def flushed (io : DiskIo) : List Nat → BufferPool → List Nat
  | [], _ => []
  | frame :: frames, pool =>
    if pool.NeedsWrite frame then
      frame :: if (pool.flushFrame io frame).1 = .ok then
        flushed io frames (pool.flushFrame io frame).2 else []
    else flushed io frames pool

theorem written_flushFrames (io : DiskIo) (frames : List Nat) (pool : BufferPool) :
    (flushFrames io frames pool).2.written =
      pool.written ++ (flushed io frames pool).map pool.label := by
  induction frames generalizing pool with
  | nil => exact (List.append_nil _).symm
  | cons frame frames ih =>
    rw [flushFrames, flushed]
    by_cases hneed : pool.NeedsWrite frame
    · rw [if_pos hneed, if_pos hneed]
      obtain ⟨hlabel, hwritten⟩ := written_flushFrame io pool frame
      rw [if_pos hneed] at hwritten
      split
      · rename_i pool' hok
        rw [hok] at hlabel hwritten
        dsimp only at hlabel hwritten
        rw [hok, if_pos rfl, ih, hwritten, hlabel, List.map_cons, List.append_assoc]
        rfl
      · rename_i err pool' hne herr
        rw [herr] at hwritten
        rw [herr, if_neg hne, hwritten]
        rfl
    · rw [if_neg hneed, if_neg hneed, ih]

theorem written_flushAll (io : DiskIo) (pool : BufferPool) :
    (pool.flushAll io).2.written =
      pool.written ++ (flushed io (List.range pool.poolSize) pool).map pool.label := by
  rw [← written_flushFrames, flushAll]
  split
  · rename_i hok
    rw [hok]
  · rename_i herr
    rw [herr]

end Written

end BufferPool

end OnionRelay.Db
