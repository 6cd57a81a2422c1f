import OnionRelay.Db.Buffer.Pool
import OnionRelay.Db.Wal.Calls
import OnionRelay.Db.Wal.Recovery
import OnionRelay.Lib.Reach

/-!
# The write-ahead rule

A buffer pool beside a log.  The rule is that no page reaches the disk before the
record of its last change does.  Nothing in the pool looks at the log: `flush_frame`
does not read the LSN of the frame, and a checkpoint writes all pages before it
flushes the log.

`obeys_iff_logFirst` says which calls keep the rule: those that write no frame whose
record is still in the log buffer, or is not logged at all.
-/

namespace OnionRelay.Db

open OnionRelay.Lib

/-! ## LSNs in the buffer -/

namespace WalManager

/-- The log file does not hold the record yet: it is in the buffer, or not logged. -/
def Unlogged (wal : WalManager) (lsn : UInt64) : Prop :=
  wal.nextLsn ≤ lsn ∨
    ∃ pos ∈ scan (mapped (fun _ => 0) wal.buffer) wal.buffer.length 0,
      lsnAt (mapped (fun _ => 0) wal.buffer) pos = lsn

/-- The buffer holds the records with the LSNs between the last one flushed and the
next. -/
structure Ordered (wal : WalManager) (pending : List WalRecord) : Prop where
  buffer : wal.buffer = logBytes pending
  lsns : pending.map (fun r => r.lsn.toNat) =
    List.range' (wal.flushedLsn.toNat + 1) pending.length
  next : wal.nextLsn.toNat = wal.flushedLsn.toNat + pending.length + 1

/-- As `wal_init` and `wal_recover` leave the manager. -/
structure Idle (wal : WalManager) : Prop where
  buffer : wal.buffer = []
  next : wal.nextLsn.toNat = wal.flushedLsn.toNat + 1

instance (wal : WalManager) (lsn : UInt64) : Decidable (wal.Unlogged lsn) :=
  inferInstanceAs (Decidable (_ ∨ _))

section Ordered

variable {wal : WalManager} {pending : List WalRecord}

theorem Idle.ordered (h : wal.Idle) : wal.Ordered [] := ⟨h.buffer, rfl, h.next⟩

theorem idle_walInit (file : List UInt8) : (walInit file).Idle := ⟨rfl, rfl⟩

/-- The transaction list, the file and the transaction ids do not matter. -/
theorem Ordered.congr {wal' : WalManager} (h : wal.Ordered pending)
    (hbuffer : wal'.buffer = wal.buffer) (hflushed : wal'.flushedLsn = wal.flushedLsn)
    (hnext : wal'.nextLsn = wal.nextLsn) : wal'.Ordered pending :=
  ⟨hbuffer.trans h.buffer, hflushed ▸ h.lsns, by rw [hnext, hflushed]; exact h.next⟩

theorem lastLsn_ordered {lsn : UInt64} {n : Nat}
    (h : pending.map (fun r => r.lsn.toNat) = List.range' (lsn.toNat + 1) n) :
    (lastLsn pending lsn).toNat = lsn.toNat + n := by
  induction pending generalizing lsn n with
  | nil =>
    cases n with
    | zero => rfl
    | succ n => cases h
  | cons r pending ih =>
    cases n with
    | zero => cases h
    | succ n =>
      rw [List.map_cons, List.range'_succ, List.cons.injEq] at h
      obtain ⟨hr, h⟩ := h
      have hlater : laterLsn lsn r.lsn = r.lsn := if_pos (UInt64.lt_iff_toNat_lt.mpr (by omega))
      have ih : (lastLsn pending r.lsn).toNat = r.lsn.toNat + n := ih (by rw [hr]; exact h)
      rw [lastLsn, List.foldl_cons, hlater, ← lastLsn, ih, hr]
      omega

/-- A flush that succeeds flushes up to the last record. -/
theorem Ordered.flush (h : wal.Ordered pending) (io : WalIo) :
    ∃ pending, (wal.flush io).2.Ordered pending := by
  by_cases hempty : wal.buffer = []
  · refine ⟨pending, ?_⟩
    rw [WalManager.flush.eq_def, if_pos hempty]
    exact h
  cases io with
  | some n =>
    refine ⟨pending, ?_⟩
    rw [WalManager.flush, if_neg hempty]
    exact h.congr rfl rfl rfl
  | none =>
    have hlast := lastLsn_ordered h.lsns
    have hmax : maxLsn (mapped (fun _ => 0) wal.buffer) wal.buffer.length wal.flushedLsn =
        lastLsn pending wal.flushedLsn := by
      rw [h.buffer]
      exact maxLsn_reads (reads_file (fun _ => 0) pending) _
    refine ⟨[], ?_⟩
    rw [WalManager.flush, if_neg hempty]
    refine ⟨rfl, rfl, ?_⟩
    change wal.nextLsn.toNat = (maxLsn _ _ _).toNat + 0 + 1
    rw [hmax, hlast, h.next]

/-- A record is put into the buffer with the next LSN. -/
theorem Ordered.put (h : wal.Ordered pending) {wal' : WalManager} (r : WalRecord)
    (hroom : wal.nextLsn.toNat + 1 < 2 ^ 64) (hbuffer : wal'.buffer = wal.buffer ++ r.bytes)
    (hlsn : r.lsn = wal.nextLsn) (hflushed : wal'.flushedLsn = wal.flushedLsn)
    (hnext : wal'.nextLsn = wal.nextLsn + 1) : wal'.Ordered (pending ++ [r]) where
  buffer := by rw [hbuffer, h.buffer, logBytes_append, logBytes_cons, logBytes_nil, List.append_nil]
  lsns := by
    rw [List.map_append, h.lsns, hflushed, List.length_append, List.length_singleton,
      List.range'_concat, List.map_singleton, hlsn, h.next]
    congr 2
    omega
  next := by
    have hadd : (wal.nextLsn + 1).toNat = (wal.nextLsn.toNat + 1) % 2 ^ 64 := UInt64.toNat_add _ _
    have hbound := h.next
    rw [hnext, hflushed, hadd, Nat.mod_eq_of_lt hroom, List.length_append, List.length_singleton]
    omega

theorem Ordered.room (h : wal.Ordered pending) (io : WalIo) (body : WalBody) :
    ∃ pending,
      (wal.ensureBufferSpace io (walHeaderSize + body.payload.length)).2.Ordered pending := by
  rw [ensureBufferSpace_eq]
  split
  · exact h.flush io
  · exact ⟨pending, h⟩

theorem Ordered.logRecord (h : wal.Ordered pending) (hroom : wal.nextLsn.toNat + 1 < 2 ^ 64)
    (io : WalIo) (txId : UInt32) (body : WalBody) :
    ∃ pending, (wal.logRecord io txId body).2.Ordered pending := by
  obtain ⟨pending, hspace⟩ := h.room io body
  obtain ⟨_, _, hnext⟩ := wal.room_frame io body
  rw [WalManager.logRecord]
  split
  · exact ⟨_, hspace.put _ (by rw [hnext]; exact hroom) rfl rfl rfl rfl⟩
  · exact ⟨_, hspace⟩

theorem Ordered.checkpoint (h : wal.Ordered pending) (hroom : wal.nextLsn.toNat + 1 < 2 ^ 64)
    (io io' : WalIo) (truncated : Bool) :
    ∃ pending, (wal.checkpoint io io' truncated).2.Ordered pending := by
  have hspace : ∃ pending,
      (if walBufferSize < wal.buffer.length + walHeaderSize then wal.flush io
        else (.ok, wal)).2.Ordered pending := by
    split
    · exact h.flush io
    · exact ⟨pending, h⟩
  have hnext : (if walBufferSize < wal.buffer.length + walHeaderSize then wal.flush io
      else (.ok, wal)).2.nextLsn = wal.nextLsn := by
    split
    · exact (wal.flush_frame io).2.2
    · rfl
  obtain ⟨pending, hspace⟩ := hspace
  rw [WalManager.checkpoint]
  generalize (if walBufferSize < wal.buffer.length + walHeaderSize then wal.flush io
    else (.ok, wal)) = room at hspace hnext
  obtain ⟨err, wal'⟩ := room
  have hmarked : ∃ pending, wal'.marked.Ordered pending := by
    refine ⟨_, hspace.put ⟨wal'.nextLsn, lsnNull, 0, .checkpoint⟩ ?_ ?_ rfl rfl rfl⟩
    · exact (congrArg UInt64.toNat hnext).symm ▸ hroom
    · change wal'.buffer ++ _ = wal'.buffer ++ _
      rw [WalRecord.bytes]
      simp [WalBody.payload, WalBody.type]
  obtain ⟨pending, hmarked⟩ := hmarked
  obtain ⟨pending', hflushed⟩ := hmarked.flush io'
  cases err <;> try exact ⟨_, hspace⟩
  dsimp only
  cases hflush : wal'.marked.flush io' with
  | mk err wal'' =>
    rw [hflush] at hflushed
    cases err <;> try exact ⟨_, hflushed⟩
    cases truncated
    · exact ⟨_, hflushed⟩
    · exact ⟨_, hflushed.congr rfl rfl rfl⟩

/-- **A record is in the file if its LSN has been reached by the flushes.** -/
theorem Ordered.unlogged_iff (h : wal.Ordered pending) (lsn : UInt64) :
    wal.Unlogged lsn ↔ wal.flushedLsn < lsn := by
  have hreads := reads_file (fun _ => 0) pending
  rw [← h.buffer] at hreads
  have hmem : (∃ pos ∈ scan (mapped (fun _ => 0) wal.buffer) wal.buffer.length 0,
      lsnAt (mapped (fun _ => 0) wal.buffer) pos = lsn) ↔ ∃ r ∈ pending, r.lsn = lsn := by
    generalize scan (mapped (fun _ => 0) wal.buffer) wal.buffer.length 0 = positions at hreads
    clear h
    induction hreads with
    | nil => simp
    | cons hread _ ih => simp [hread.lsn, ih]
  have hlsns : (∃ r ∈ pending, r.lsn = lsn) ↔
      wal.flushedLsn.toNat < lsn.toNat ∧ lsn.toNat < wal.nextLsn.toNat := by
    have hrange : lsn.toNat ∈ pending.map (fun r => r.lsn.toNat) ↔
        wal.flushedLsn.toNat < lsn.toNat ∧ lsn.toNat < wal.nextLsn.toNat := by
      rw [h.lsns, List.mem_range'_1, h.next]
      omega
    rw [← hrange, List.mem_map]
    constructor
    · rintro ⟨r, hr, rfl⟩
      exact ⟨r, hr, rfl⟩
    · rintro ⟨r, hr, heq⟩
      exact ⟨r, hr, UInt64.toNat.inj heq⟩
  have hnext := h.next
  rw [Unlogged, hmem, hlsns, UInt64.le_iff_toNat_le, UInt64.lt_iff_toNat_lt]
  omega

/-- **Each call of a log function keeps the buffer in order.** -/
theorem Ordered.run (h : wal.Ordered pending) (hroom : wal.nextLsn.toNat + 1 < 2 ^ 64)
    (call : LogCall) : ∃ pending, (call.run wal).Ordered pending := by
  refine LogCall.run_induction
    (P := fun wal => (∃ pending, wal.Ordered pending) ∧ wal.nextLsn.toNat + 1 < 2 ^ 64)
    (Q := fun wal _ => ∃ pending, wal.Ordered pending) ?_ ?_ ?_ ?_ ?_ ⟨⟨pending, h⟩, hroom⟩ call
  · exact fun wal h => h.1
  · rintro wal ⟨⟨pending, h⟩, hroom⟩
    exact ⟨⟨pending, h.congr rfl rfl rfl⟩, hroom⟩
  · rintro wal io txId body ⟨⟨pending, h⟩, hroom⟩
    exact h.logRecord hroom io txId body
  · rintro wal _ active ⟨pending, h⟩
    exact ⟨pending, h.congr rfl rfl rfl⟩
  · rintro wal _ io ⟨pending, h⟩
    exact h.flush io

end Ordered

end WalManager

/-! ## Runs -/

/-- A page that was written, with the LSN up to which the log was flushed then. -/
structure PageWrite where
  pageId : Nat
  lsn : UInt64
  flushedLsn : UInt64
deriving DecidableEq

structure PoolSystem where
  wal : WalManager
  pool : BufferPool
  writes : List PageWrite

inductive PoolOp
  | pin (io : DiskIo) (pid : Nat)
  | alloc (io : DiskIo)
  | unpin (pid : Nat)
  | write (frame : Nat) (page : PageData)
  | markDirty (pid : Nat) (lsn : UInt64)
  | flush (io : DiskIo) (pid : Nat)
  | flushAll (io : DiskIo)
  | log (call : LogCall)
  | checkpoint (io : DiskIo) (walIo walIo' : WalIo) (truncated : Bool)

namespace PoolSystem

def start (wal : WalManager) (pool : BufferPool) : PoolSystem := ⟨wal, pool, []⟩

/-- The system after a call to the pool. -/
def withPool (s : PoolSystem) (pool : BufferPool) : PoolSystem :=
  { s with
    pool := pool
    writes := s.writes ++ (pool.written.drop s.pool.written.length).map fun w =>
      ⟨w.pageId, w.lsn, s.wal.flushedLsn⟩ }

def step (s : PoolSystem) : PoolOp → PoolSystem
  | .pin io pid => s.withPool (s.pool.pin io pid).2
  | .alloc io => s.withPool (s.pool.allocPage io).2
  | .unpin pid => s.withPool (s.pool.unpin pid)
  | .write frame page => s.withPool (s.pool.writeFrame frame page)
  | .markDirty pid lsn => s.withPool (s.pool.markDirty pid lsn)
  | .flush io pid => s.withPool (s.pool.flush io pid).2
  | .flushAll io => s.withPool (s.pool.flushAll io).2
  | .log call => { s with wal := call.run s.wal }
  | .checkpoint io walIo walIo' truncated =>
    -- the pages go first
    let flushed := s.withPool (s.pool.flushAll io).2
    if (s.pool.flushAll io).1 = .ok then
      { flushed with wal := (flushed.wal.checkpoint walIo walIo' truncated).2 }
    else flushed

/-- Every page written had its last change in the flushed part of the log. -/
def Obeys (s : PoolSystem) : Prop := ∀ w ∈ s.writes, w.lsn ≤ w.flushedLsn

/-- The LSN counter does not run out with the next record. -/
def LsnsLast (s : PoolSystem) (_ : PoolOp) : Prop := s.wal.nextLsn.toNat + 1 < 2 ^ 64

end PoolSystem

/-- The frames a call writes. -/
def PoolOp.frames (pool : BufferPool) : PoolOp → List Nat
  | .pin _ pid => if pid = 0 ∨ pool.lookup pid ≠ none then [] else pool.evicted
  | .alloc io =>
    if (pool.disk.allocPage io).1 = 0 then []
    else { pool with disk := (pool.disk.allocPage io).2 }.evicted
  | .flush _ pid =>
    if pid = 0 then [] else (pool.lookup pid).toList.filter fun f => pool.NeedsWrite f
  | .flushAll io => pool.flushed io (List.range pool.poolSize)
  | .checkpoint io _ _ _ => pool.flushed io (List.range pool.poolSize)
  | .unpin _ => []
  | .write _ _ => []
  | .markDirty _ _ => []
  | .log _ => []

/-- A call writes no frame whose record the log file does not hold. -/
def PoolOp.LogFirst (s : PoolSystem) (op : PoolOp) : Prop :=
  ∀ f ∈ op.frames s.pool, ¬ s.wal.Unlogged (s.pool.frames f).lsn

instance (s : PoolSystem) : Decidable s.Obeys := List.decidableBAll _ _

instance (s : PoolSystem) (op : PoolOp) : Decidable (s.LsnsLast op) := Nat.decLt _ _

instance (s : PoolSystem) (op : PoolOp) : Decidable (op.LogFirst s) := List.decidableBAll _ _

namespace PoolSystem

section Step

variable {s : PoolSystem}

theorem writes_withPool {pool : BufferPool} (frames : List Nat)
    (h : pool.written = s.pool.written ++ frames.map s.pool.label) :
    (s.withPool pool).writes = s.writes ++ frames.map fun f =>
      ⟨s.pool.pageIds f, (s.pool.frames f).lsn, s.wal.flushedLsn⟩ := by
  rw [withPool, h, List.drop_left, List.map_map]
  rfl

/-- **What a step writes**, and how far the log is flushed at that moment. -/
theorem writes_step (s : PoolSystem) (op : PoolOp) :
    (s.step op).writes = s.writes ++ (op.frames s.pool).map fun f =>
      ⟨s.pool.pageIds f, (s.pool.frames f).lsn, s.wal.flushedLsn⟩ := by
  have hnone : s.pool.written = s.pool.written ++ ([] : List Nat).map s.pool.label :=
    (List.append_nil _).symm
  cases op with
  | pin io pid =>
    refine writes_withPool _ ?_
    rw [PoolOp.frames, BufferPool.pin]
    by_cases hpid : pid = 0
    · rw [if_pos hpid, if_pos (.inl hpid)]
      exact hnone
    rw [if_neg hpid]
    cases hlookup : s.pool.lookup pid with
    | some frame =>
      rw [if_pos (.inr (by simp))]
      exact hnone
    | none =>
      rw [if_neg (by simp [hpid]), ← BufferPool.written_freeFrame io]
      dsimp only
      split
      · rename_i hfree
        rw [hfree]
      · rename_i hfree
        rw [hfree]
        split <;> rfl
  | alloc io =>
    refine writes_withPool _ ?_
    rw [PoolOp.frames, BufferPool.allocPage]
    dsimp only
    by_cases hnull : (s.pool.disk.allocPage io).1 = 0
    · rw [if_pos hnull, if_pos hnull]
      exact hnone
    · have hwritten := BufferPool.written_freeFrame io
        { s.pool with disk := (s.pool.disk.allocPage io).2 }
      rw [if_neg hnull, if_neg hnull]
      refine Eq.trans ?_ hwritten
      split
      · rename_i hfree
        rw [hfree]
      · rename_i hfree
        rw [hfree]
        rfl
  | unpin pid =>
    refine writes_withPool _ ?_
    rw [PoolOp.frames, BufferPool.unpin]
    split
    · exact hnone
    split
    · exact hnone
    dsimp only
    split <;> exact hnone
  | write frame page => exact writes_withPool [] hnone
  | markDirty pid lsn =>
    refine writes_withPool _ ?_
    rw [PoolOp.frames, BufferPool.markDirty]
    split
    · exact hnone
    split <;> exact hnone
  | flush io pid =>
    refine writes_withPool _ ?_
    rw [PoolOp.frames, BufferPool.flush]
    split
    · exact hnone
    cases hlookup : s.pool.lookup pid with
    | none => exact hnone
    | some frame =>
      dsimp only
      rw [(BufferPool.written_flushFrame io s.pool frame).2]
      by_cases hneed : s.pool.NeedsWrite frame <;> simp [hneed]
  | flushAll io => exact writes_withPool _ (BufferPool.written_flushAll io s.pool)
  | log call => exact (List.append_nil _).symm
  | checkpoint io walIo walIo' truncated =>
    have hwrites := writes_withPool _ (BufferPool.written_flushAll io s.pool)
    rw [step]
    split
    · exact hwrites
    · exact hwrites

/-- **Each step keeps the log buffer in order.** -/
theorem ordered_step (h : ∃ pending, s.wal.Ordered pending) {op : PoolOp}
    (hlast : s.LsnsLast op) :
    ∃ pending, (s.step op).wal.Ordered pending := by
  cases op with
  | log call =>
    obtain ⟨pending, h⟩ := h
    exact h.run hlast call
  | checkpoint io walIo walIo' truncated =>
    rw [step]
    split
    · obtain ⟨pending, h⟩ := h
      exact h.checkpoint hlast walIo walIo' truncated
    · exact h
  | _ => exact h

/-- **A step breaks the rule exactly if it writes a frame whose record is not in the
log file.** -/
theorem obeys_step_iff (h : ∃ pending, s.wal.Ordered pending) (op : PoolOp) :
    (s.step op).Obeys ↔ s.Obeys ∧ op.LogFirst s := by
  obtain ⟨pending, h⟩ := h
  rw [Obeys, writes_step, List.forall_mem_append]
  refine and_congr Iff.rfl ?_
  rw [List.forall_mem_map, PoolOp.LogFirst]
  refine forall_congr' fun f => imp_congr_right fun _ => ?_
  rw [h.unlogged_iff, UInt64.not_lt]

end Step

end PoolSystem

open PoolSystem

/-- The rule over a run that is under way. -/
theorem obeys_run_iff {s : PoolSystem} (h : ∃ pending, s.wal.Ordered pending) (ops : List PoolOp)
    (hlast : Reaches.Along step LsnsLast s ops) :
    (ops.foldl step s).Obeys ↔ s.Obeys ∧ Reaches.Along step PoolOp.LogFirst s ops := by
  induction ops generalizing s with
  | nil => exact (and_iff_left trivial).symm
  | cons op ops ih =>
    obtain ⟨hop, hlast⟩ := hlast
    rw [List.foldl_cons, ih (ordered_step h hop) hlast, obeys_step_iff h op, and_assoc]
    rfl

/-- A transaction changes page 1, and the page is flushed. -/
def changeAndFlush (logFlush : List PoolOp) : List PoolOp :=
  [.pin DiskIo.good 1, .log (.begin none), .log (.update none 1 (setByte 0 1)),
    .write 0 (writeAt zeroPage 0 [1]), .markDirty 1 2] ++ logFlush ++ [.flush DiskIo.good 1]

end OnionRelay.Db
