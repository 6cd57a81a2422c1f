import OnionRelay.Db.Wal.Record
import OnionRelay.Nostr.Types

/-!
# The log manager

`wal_manager.c`, `wal_write.c` and `wal_flush.c`.  A flush either succeeds or leaves
a part of the buffer in the file (`WalIo`); in the second case nothing else of the
manager changes.

The log functions differ in the type and the payload of the record they write:
`appendRecord` is their common part.  `appendRecord_of_ready` and
`appendRecord_of_failed` say what it does, `Carries` relates the file and the
buffer to the records they hold.
-/

namespace OnionRelay.Db

open OnionRelay.Lib

/-- How a flush ends: with success, or after so many bytes. -/
abbrev WalIo := Option Nat

/-- The buffer is the used part of it.  `active` are the transaction ids and the last
LSNs of the two arrays, `file` is what the descriptor refers to. -/
structure WalManager where
  flushedLsn : UInt64
  nextLsn : UInt64
  nextTxId : UInt32
  buffer : List UInt8
  fileOffset : Nat
  active : List (UInt32 × UInt64)
  file : List UInt8
deriving DecidableEq

def walBufferSize : Nat := 64 * 1024

def lsnNull : UInt64 := 0

def maxActiveTx : Nat := 64

/-- `wal_init` -/
def walInit (file : List UInt8) : WalManager :=
  { flushedLsn := 0, nextLsn := 1, nextTxId := 1, buffer := [], fileOffset := file.length,
    active := [], file := file }

/-- A file after bytes were written at an offset. -/
def pwrite (file : List UInt8) (off : Nat) (bytes : List UInt8) : List UInt8 :=
  file.take off ++ List.replicate (off - file.length) 0 ++ bytes ++ file.drop (off + bytes.length)

/-- The larger of two LSNs, as the loops keep it. -/
def laterLsn (lsn lsn' : UInt64) : UInt64 := if lsn < lsn' then lsn' else lsn

/-- The highest LSN of the records in a stretch of memory. -/
def maxLsn (data : Mem) (size : Nat) (lsn : UInt64) : UInt64 :=
  (scan data size 0).foldl (fun lsn pos => laterLsn lsn (lsnAt data pos)) lsn

/-- The active transactions when one of them has written its record `lsn`. -/
def setLastLsn (txId : UInt32) (lsn : UInt64) : List (UInt32 × UInt64) → List (UInt32 × UInt64)
  | [] => []
  | tx :: active => if tx.1 = txId then (txId, lsn) :: active else tx :: setLastLsn txId lsn active

/-- `find_active_tx` with `remove_active_tx`. -/
def removeActive (txId : UInt32) (active : List (UInt32 × UInt64)) : List (UInt32 × UInt64) :=
  active.eraseP fun tx => tx.1 = txId

namespace WalManager

/-- `wal_flush` -/
def flush (io : WalIo) (wal : WalManager) : NostrDBError × WalManager :=
  if wal.buffer = [] then (.ok, wal)
  else
    match io with
    | none =>
      (.ok, { wal with
        file := pwrite wal.file wal.fileOffset wal.buffer
        fileOffset := wal.fileOffset + wal.buffer.length
        flushedLsn := maxLsn (mapped (fun _ => 0) wal.buffer) wal.buffer.length wal.flushedLsn
        buffer := [] })
    | some n =>
      (.fileCreate, { wal with file := pwrite wal.file wal.fileOffset (wal.buffer.take n) })

/-- `ensure_buffer_space` -/
def ensureBufferSpace (io : WalIo) (wal : WalManager) (needed : Nat) : NostrDBError × WalManager :=
  let flushed := if walBufferSize < wal.buffer.length + needed then wal.flush io else (.ok, wal)
  match flushed with
  | (.ok, wal) => (if walBufferSize < needed then .full else .ok, wal)
  | (err, wal) => (err, wal)

/-- The last LSN of an active transaction. -/
def prevLsn (wal : WalManager) (txId : UInt32) : UInt64 :=
  ((wal.active.find? fun tx => tx.1 = txId).map Prod.snd).getD lsnNull

/-- The manager after a record with the next LSN was put into the buffer. -/
def put (wal : WalManager) (txId : UInt32) (bytes : List UInt8) : WalManager :=
  { wal with
    nextLsn := wal.nextLsn + 1
    buffer := wal.buffer ++ bytes
    active := setLastLsn txId wal.nextLsn wal.active }

/-- What the functions that log a record for a transaction have in common: room is
made, and the header and the payload are written with the next LSN. -/
def appendRecord (io : WalIo) (wal : WalManager) (txId : UInt32) (type : WalRecordType)
    (dataLength : Nat) (payload : List UInt8) : UInt64 × WalManager :=
  match wal.ensureBufferSpace io (walHeaderSize + dataLength) with
  | (.ok, wal) =>
    let bytes := headerBytes wal.nextLsn (wal.prevLsn txId) txId type dataLength ++ payload
    (wal.nextLsn, wal.put txId (bytes.take (walHeaderSize + dataLength)))
  | (_, wal) => (lsnNull, wal)

/-- `write_simple_record` -/
def writeSimpleRecord (io : WalIo) (wal : WalManager) (txId : UInt32) (type : WalRecordType) :
    UInt64 × WalManager := wal.appendRecord io txId type 0 []

/-- The manager with the next transaction id among the active ones. -/
def opened (wal : WalManager) : WalManager :=
  { wal with nextTxId := wal.nextTxId + 1, active := wal.active ++ [(wal.nextTxId, lsnNull)] }

/-- `wal_log_begin`; the id is 0 on failure. -/
def logBegin (io : WalIo) (wal : WalManager) : UInt32 × WalManager :=
  if wal.active.length < maxActiveTx then
    let txId := wal.nextTxId
    match wal.opened.writeSimpleRecord io txId .begin with
    | (lsn, wal) =>
      if lsn = lsnNull then (0, { wal with active := wal.active.dropLast }) else (txId, wal)
  else (0, wal)

/-- `wal_log_update` -/
def logUpdate (io : WalIo) (wal : WalManager) (txId : UInt32) (pageId offset length : Nat)
    (old new : List UInt8) : UInt64 × WalManager :=
  if 0 < length then
    wal.appendRecord io txId .update ((8 + length * 2) % 2 ^ 16)
      (updatePayload pageId offset length (old.take length) (new.take length))
  else (lsnNull, wal)

/-- `wal_log_alloc_page` -/
def logAllocPage (io : WalIo) (wal : WalManager) (txId : UInt32) (pageId : Nat) :
    UInt64 × WalManager := wal.appendRecord io txId .allocPage 4 (pagePayload pageId)

/-- `wal_log_free_page` -/
def logFreePage (io : WalIo) (wal : WalManager) (txId : UInt32) (pageId : Nat) :
    UInt64 × WalManager := wal.appendRecord io txId .freePage 4 (pagePayload pageId)

/-- `wal_log_commit`; the first outcome is that of a flush that makes room, the
second that of the flush at the end. -/
def logCommit (io io' : WalIo) (wal : WalManager) (txId : UInt32) : NostrDBError × WalManager :=
  match wal.writeSimpleRecord io txId .commit with
  | (lsn, wal) =>
    if lsn = lsnNull then (.full, wal)
    else ({ wal with active := removeActive txId wal.active } : WalManager).flush io'

/-- `wal_log_abort` -/
def logAbort (io : WalIo) (wal : WalManager) (txId : UInt32) : NostrDBError × WalManager :=
  match wal.writeSimpleRecord io txId .abort with
  | (lsn, wal) =>
    if lsn = lsnNull then (.full, wal)
    else (.ok, { wal with active := removeActive txId wal.active })

/-- The manager with a CHECKPOINT record in the buffer. -/
def marked (wal : WalManager) : WalManager :=
  { wal with
    nextLsn := wal.nextLsn + 1
    buffer := wal.buffer ++ headerBytes wal.nextLsn lsnNull 0 .checkpoint 0 }

/-- `wal_checkpoint` once all dirty pages are written; `truncated` says whether
`ftruncate` succeeds. -/
def checkpoint (io io' : WalIo) (truncated : Bool) (wal : WalManager) : NostrDBError × WalManager :=
  let room := if walBufferSize < wal.buffer.length + walHeaderSize then wal.flush io else (.ok, wal)
  match room with
  | (.ok, wal) =>
    match wal.marked.flush io' with
    | (.ok, wal) => (.ok, if truncated then { wal with file := [], fileOffset := 0 } else wal)
    | (err, wal) => (err, wal)
  | (err, wal) => (err, wal)

/-- The record the next call logs. -/
def record (wal : WalManager) (txId : UInt32) (body : WalBody) : WalRecord :=
  ⟨wal.nextLsn, wal.prevLsn txId, txId, body⟩

/-! ## What the log holds -/

/-- The file is `durable` and what an interrupted flush may have left behind it of the
bytes of the records `pending`, which the buffer holds. -/
structure Carries (wal : WalManager) (durable : List UInt8) (pending : List WalRecord) : Prop where
  offset : wal.fileOffset = durable.length
  buffer : wal.buffer = logBytes pending
  file : ∃ n, wal.file = durable ++ (logBytes pending).take n

theorem Carries.init (file : List UInt8) : (walInit file).Carries file [] :=
  ⟨rfl, rfl, 0, (List.append_nil _).symm⟩

theorem pwrite_append (pre old new : List UInt8) (h : old.length ≤ new.length) :
    pwrite (pre ++ old) pre.length new = pre ++ new := by
  rw [pwrite, List.take_left, List.length_append, Nat.sub_eq_zero_of_le (by omega),
    List.drop_of_length_le (by rw [List.length_append]; omega)]
  simp

theorem pwrite_prefix (pre bytes : List UInt8) (n k : Nat) :
    pwrite (pre ++ bytes.take n) pre.length (bytes.take k) = pre ++ bytes.take (max n k) := by
  rcases Nat.le_total n k with hle | hle
  · rw [pwrite_append, Nat.max_eq_right hle]
    rw [List.length_take, List.length_take]
    omega
  · rw [Nat.max_eq_left hle, pwrite, List.take_left, List.length_append,
      Nat.sub_eq_zero_of_le (by omega), List.replicate_zero, List.append_nil, List.append_assoc,
      List.drop_append, List.drop_of_length_le (by omega), List.nil_append, Nat.add_sub_cancel_left]
    congr 1
    rw [List.length_take, List.drop_take]
    rcases Nat.le_total bytes.length k with hk | hk
    · rw [Nat.min_eq_right hk, List.drop_length, List.take_nil, List.append_nil,
        List.take_of_length_le hk, List.take_of_length_le (by omega)]
    · rw [Nat.min_eq_left hk]
      conv_rhs => rw [show n = k + (n - k) by omega, List.take_add]

/-- A flush that succeeds makes what was pending durable. -/
theorem Carries.flush {wal : WalManager} {durable : List UInt8} {pending : List WalRecord}
    (h : wal.Carries durable pending) : (wal.flush none).1 = .ok ∧
      (wal.flush none).2.Carries (durable ++ logBytes pending) [] := by
  rw [WalManager.flush]
  by_cases hempty : wal.buffer = []
  · rw [if_pos hempty]
    have hpending : logBytes pending = [] := h.buffer ▸ hempty
    obtain ⟨n, hfile⟩ := h.file
    refine ⟨rfl, ?_, hempty, 0, ?_⟩
    · rw [h.offset, hpending, List.append_nil]
    · rw [hfile, hpending, List.take_nil]
      simp
  · rw [if_neg hempty]
    obtain ⟨n, hfile⟩ := h.file
    refine ⟨rfl, ?_, rfl, 0, ?_⟩
    · change wal.fileOffset + wal.buffer.length = _
      rw [h.offset, h.buffer, List.length_append]
    · change pwrite wal.file wal.fileOffset wal.buffer = _
      rw [hfile, h.offset, h.buffer, pwrite_append _ _ _ (by rw [List.length_take]; omega)]
      simp

/-- One that fails leaves all as it was, but for a part of the buffer in the file. -/
theorem Carries.flush_some {wal : WalManager} {durable : List UInt8} {pending : List WalRecord}
    (h : wal.Carries durable pending) (n : Nat) : (wal.flush (some n)).2.Carries durable pending := by
  rw [WalManager.flush]
  split
  · exact h
  · obtain ⟨k, hfile⟩ := h.file
    refine ⟨h.offset, h.buffer, max k n, ?_⟩
    change pwrite wal.file wal.fileOffset (wal.buffer.take n) = _
    rw [hfile, h.offset, h.buffer, pwrite_prefix]

theorem Carries.put {wal : WalManager} {durable : List UInt8} {pending : List WalRecord}
    (h : wal.Carries durable pending) (txId : UInt32) (r : WalRecord) :
    (wal.put txId r.bytes).Carries durable (pending ++ [r]) := by
  obtain ⟨n, hfile⟩ := h.file
  refine ⟨h.offset, ?_, min n (logBytes pending).length, ?_⟩
  · change wal.buffer ++ r.bytes = _
    rw [h.buffer, logBytes_append, logBytes_cons, logBytes_nil, List.append_nil]
  · change wal.file = _
    rw [hfile, logBytes_append, List.take_append_of_le_length (by omega)]
    congr 1
    rcases Nat.le_total n (logBytes pending).length with hn | hn
    · rw [Nat.min_eq_left hn]
    · rw [Nat.min_eq_right hn, List.take_length, List.take_of_length_le hn]

/-- The transaction list is not the log's concern. -/
theorem Carries.congr {wal wal' : WalManager} {durable : List UInt8} {pending : List WalRecord}
    (h : wal.Carries durable pending) (hoffset : wal'.fileOffset = wal.fileOffset)
    (hbuffer : wal'.buffer = wal.buffer) (hfile : wal'.file = wal.file) :
    wal'.Carries durable pending :=
  ⟨hoffset.trans h.offset, hbuffer.trans h.buffer, hfile ▸ h.file⟩

theorem size_le_buffer (body : WalBody) : walHeaderSize + body.payload.length ≤ walBufferSize := by
  cases body with
  | update u =>
    have hpage := u.inPage
    rw [u.length_payload, walHeaderSize, walBufferSize]
    rw [dbPageSize] at hpage
    omega
  | _ => simp [WalBody.payload, pagePayload, walHeaderSize, walBufferSize]

/-- Making room for a record is flushing, or nothing. -/
theorem ensureBufferSpace_eq (io : WalIo) (wal : WalManager) (body : WalBody) :
    wal.ensureBufferSpace io (walHeaderSize + body.payload.length) =
      if walBufferSize < wal.buffer.length + (walHeaderSize + body.payload.length) then wal.flush io
      else (.ok, wal) := by
  have hfits : ¬ walBufferSize < walHeaderSize + body.payload.length := by
    have := size_le_buffer body
    omega
  rw [ensureBufferSpace, if_neg hfits]
  split
  · rename_i hflush
    exact hflush.symm
  · rename_i hflush
    exact hflush.symm

/-- Room is made for a record, and if that succeeds it is put behind the others. -/
def logRecord (io : WalIo) (wal : WalManager) (txId : UInt32) (body : WalBody) :
    Option WalRecord × WalManager :=
  let room := wal.ensureBufferSpace io (walHeaderSize + body.payload.length)
  if room.1 = .ok then
    (some (room.2.record txId body), room.2.put txId (room.2.record txId body).bytes)
  else (none, room.2)

/-- **What the log functions have in common is logging a record.** -/
theorem appendRecord_eq (io : WalIo) (wal : WalManager) (txId : UInt32) (body : WalBody) :
    wal.appendRecord io txId body.type body.payload.length body.payload =
      (((wal.logRecord io txId body).1.map WalRecord.lsn).getD lsnNull,
        (wal.logRecord io txId body).2) := by
  rw [appendRecord, logRecord]
  cases hroom : wal.ensureBufferSpace io (walHeaderSize + body.payload.length) with
  | mk err wal' =>
    cases err <;> try rfl
    change (_, _) = (_, _)
    congr 2
    refine List.take_of_length_le ?_
    rw [List.length_append, length_headerBytes]

/-- A flush is about the buffer and the file only. -/
theorem flush_frame (io : WalIo) (wal : WalManager) : (wal.flush io).2.active = wal.active ∧
    (wal.flush io).2.nextTxId = wal.nextTxId ∧ (wal.flush io).2.nextLsn = wal.nextLsn := by
  cases io with
  | none =>
    rw [WalManager.flush]
    split <;> exact ⟨rfl, rfl, rfl⟩
  | some n =>
    rw [WalManager.flush]
    split <;> exact ⟨rfl, rfl, rfl⟩

/-- Making room for a record is, too. -/
theorem room_frame (io : WalIo) (wal : WalManager) (body : WalBody) :
    let room := (wal.ensureBufferSpace io (walHeaderSize + body.payload.length)).2
    room.active = wal.active ∧ room.nextTxId = wal.nextTxId ∧ room.nextLsn = wal.nextLsn := by
  rw [ensureBufferSpace_eq]
  split
  · exact wal.flush_frame io
  · exact ⟨rfl, rfl, rfl⟩

theorem map_setLastLsn (txId : UInt32) (lsn : UInt64) (active : List (UInt32 × UInt64)) :
    (setLastLsn txId lsn active).map Prod.fst = active.map Prod.fst := by
  induction active with
  | nil => rfl
  | cons tx active ih =>
    rw [setLastLsn]
    split
    · rename_i heq
      rw [List.map_cons, List.map_cons, heq]
    · rw [List.map_cons, List.map_cons, ih]

/-- The ids of the active transactions. -/
def running (wal : WalManager) : List UInt32 := wal.active.map Prod.fst

theorem logRecord_frame (io : WalIo) (wal : WalManager) (txId : UInt32) (body : WalBody) :
    (wal.logRecord io txId body).2.running = wal.running ∧
      (wal.logRecord io txId body).2.nextTxId = wal.nextTxId := by
  obtain ⟨hactive, hnext, _⟩ := wal.room_frame io body
  rw [logRecord]
  split
  · refine ⟨?_, hnext⟩
    rw [running, put, running, ← hactive]
    exact map_setLastLsn _ _ _
  · exact ⟨by rw [running, hactive, running], hnext⟩

/-- The record a call logs is its transaction's and has the next LSN. -/
theorem record_of_logRecord {io : WalIo} {wal : WalManager} {txId : UInt32} {body : WalBody}
    {r : WalRecord} (h : (wal.logRecord io txId body).1 = some r) :
    r.txId = txId ∧ r.body = body ∧ r.lsn = wal.nextLsn := by
  obtain ⟨_, _, hlsn⟩ := wal.room_frame io body
  rw [logRecord] at h
  split at h
  · obtain rfl := Option.some.inj h
    exact ⟨rfl, rfl, hlsn⟩
  · cases h

/-- A call that returns `LSN_NULL` has logged nothing, as long as the LSNs last. -/
theorem lsn_eq_null_iff {io : WalIo} {wal : WalManager} {txId : UInt32} {body : WalBody}
    (h : wal.nextLsn ≠ lsnNull) :
    ((wal.logRecord io txId body).1.map WalRecord.lsn).getD lsnNull = lsnNull ↔
      (wal.logRecord io txId body).1 = none := by
  cases hrecord : (wal.logRecord io txId body).1 with
  | none => simp
  | some r =>
    obtain ⟨_, _, hlsn⟩ := record_of_logRecord hrecord
    simp [hlsn, h]

theorem map_removeActive (txId : UInt32) (active : List (UInt32 × UInt64)) :
    (removeActive txId active).map Prod.fst = (active.map Prod.fst).erase txId := by
  rw [removeActive]
  induction active with
  | nil => rfl
  | cons tx active ih =>
    rw [List.map_cons]
    by_cases htx : tx.1 = txId
    · rw [List.eraseP_cons_of_pos (by simpa using htx), htx, List.erase_cons_head]
    · rw [List.eraseP_cons_of_neg (by simpa using htx), List.map_cons, ih,
        List.erase_cons_tail (by simpa using htx)]

/-- As long as the file takes the buffer, a record is logged. -/
theorem exists_logRecord_none (wal : WalManager) (txId : UInt32) (body : WalBody) :
    ∃ r, (wal.logRecord none txId body).1 = some r := by
  have hflush : (wal.flush none).1 = .ok := by
    rw [WalManager.flush]
    split <;> rfl
  rw [logRecord, ensureBufferSpace_eq]
  by_cases hfull : walBufferSize < wal.buffer.length + (walHeaderSize + body.payload.length)
  · rw [if_pos hfull, if_pos hflush]
    exact ⟨_, rfl⟩
  · rw [if_neg hfull]
    exact ⟨_, rfl⟩

theorem writeSimpleRecord_eq (io : WalIo) (wal : WalManager) (txId : UInt32) (body : WalBody)
    (type : WalRecordType) (htype : body.type = type) (hpayload : body.payload = []) :
    wal.writeSimpleRecord io txId type =
      (((wal.logRecord io txId body).1.map WalRecord.lsn).getD lsnNull,
        (wal.logRecord io txId body).2) := by
  rw [← appendRecord_eq, hpayload, htype]
  rfl

/-- Logging makes what was pending durable or leaves it pending. -/
theorem Carries.logRecord {wal : WalManager} {durable : List UInt8} {pending : List WalRecord}
    (h : wal.Carries durable pending) (io : WalIo) (txId : UInt32) (body : WalBody) :
    ∃ flushed kept, pending = flushed ++ kept ∧
      (wal.logRecord io txId body).2.Carries (durable ++ logBytes flushed)
        (kept ++ (wal.logRecord io txId body).1.toList) := by
  have hstay : wal.Carries (durable ++ logBytes []) pending := by
    rwa [logBytes_nil, List.append_nil]
  rw [WalManager.logRecord, ensureBufferSpace_eq]
  by_cases hfull : walBufferSize < wal.buffer.length + (walHeaderSize + body.payload.length)
  · rw [if_pos hfull]
    cases io with
    | none =>
      obtain ⟨hok, hcarries⟩ := h.flush
      refine ⟨pending, [], (List.append_nil pending).symm, ?_⟩
      rw [if_pos hok]
      exact hcarries.put _ _
    | some n =>
      refine ⟨[], pending, rfl, ?_⟩
      have hcarries := hstay.flush_some n
      split
      · exact hcarries.put _ _
      · rwa [Option.toList_none, List.append_nil]
  · rw [if_neg hfull]
    exact ⟨[], pending, rfl, hstay.put _ _⟩

theorem logUpdate_eq (io : WalIo) (wal : WalManager) (txId : UInt32) (u : WalUpdate) :
    wal.logUpdate io txId u.pageId u.offset u.new.length u.old u.new =
      wal.appendRecord io txId (WalBody.update u).type (WalBody.update u).payload.length
        (WalBody.update u).payload := by
  have hpage := u.inPage
  rw [dbPageSize] at hpage
  rw [logUpdate, if_pos u.length_pos, u.length_payload, Nat.mod_eq_of_lt (by omega),
    List.take_length, List.take_of_length_le (by rw [u.length_eq])]
  rfl

/-- **What a checkpoint does to the log**: all that was pending and the mark become
durable, and then the file is emptied or not. -/
theorem Carries.checkpoint {wal : WalManager} {durable : List UInt8} {pending : List WalRecord}
    (h : wal.Carries durable pending) (truncated : Bool) :
    (wal.checkpoint none none truncated).1 = .ok ∧
      (wal.checkpoint none none truncated).2.Carries
        (if truncated then []
          else durable ++ logBytes (pending ++ [⟨wal.nextLsn, lsnNull, 0, .checkpoint⟩])) [] ∧
      (wal.checkpoint none none truncated).2.active = wal.active ∧
      (wal.checkpoint none none truncated).2.nextTxId = wal.nextTxId := by
  have hroom : ∃ flushed kept, pending = flushed ++ kept ∧
      (if walBufferSize < wal.buffer.length + walHeaderSize then wal.flush none else (.ok, wal)).1 =
        NostrDBError.ok ∧
      (if walBufferSize < wal.buffer.length + walHeaderSize then wal.flush none
        else (.ok, wal)).2.Carries (durable ++ logBytes flushed) kept := by
    split
    · exact ⟨pending, [], (List.append_nil _).symm, h.flush.1, h.flush.2⟩
    · exact ⟨[], pending, rfl, rfl, by rwa [logBytes_nil, List.append_nil]⟩
  have hframe : ∀ room, room =
      (if walBufferSize < wal.buffer.length + walHeaderSize then wal.flush none else (.ok, wal)) →
      room.2.active = wal.active ∧ room.2.nextTxId = wal.nextTxId ∧ room.2.nextLsn = wal.nextLsn := by
    rintro room rfl
    split
    · exact wal.flush_frame none
    · exact ⟨rfl, rfl, rfl⟩
  obtain ⟨flushed, kept, rfl, hok, hcarries⟩ := hroom
  rw [WalManager.checkpoint]
  generalize (if walBufferSize < wal.buffer.length + walHeaderSize then wal.flush none
    else (.ok, wal)) = room at hok hcarries hframe
  obtain ⟨err, wal'⟩ := room
  obtain ⟨hactive, hnext, hlsn⟩ := hframe _ rfl
  obtain rfl : err = .ok := hok
  -- the mark is put behind what room was made for, and flushed with it
  have hmarked : wal'.marked.Carries (durable ++ logBytes flushed)
      (kept ++ [⟨wal.nextLsn, lsnNull, 0, .checkpoint⟩]) := by
    refine (hcarries.put 0 ⟨wal.nextLsn, lsnNull, 0, .checkpoint⟩).congr rfl ?_ rfl
    change wal'.buffer ++ _ = wal'.buffer ++ _
    rw [hlsn, WalRecord.bytes]
    simp [WalBody.payload, WalBody.type]
  obtain ⟨hok, hflushed⟩ := hmarked.flush
  obtain ⟨hactive', hnext', _⟩ := wal'.marked.flush_frame none
  dsimp only
  cases hflush : wal'.marked.flush none with
  | mk err wal'' =>
    rw [hflush] at hok hflushed hactive' hnext'
    obtain rfl : err = .ok := hok
    cases truncated with
    | true =>
      exact ⟨rfl, ⟨rfl, hflushed.buffer, 0, rfl⟩, hactive'.trans hactive, hnext'.trans hnext⟩
    | false =>
      refine ⟨rfl, ?_, hactive'.trans hactive, hnext'.trans hnext⟩
      simpa [List.append_assoc] using hflushed

end WalManager

end OnionRelay.Db
