import OnionRelay.Db.Wal.Recovery
import OnionRelay.Db.Wal.TornTail
import OnionRelay.Lib.Reach

/-!
# Runs of transactions, checkpoints and crashes

`WalSystem` puts the log manager beside the disk and beside the pages as the
transactions see them in memory.  Its last five fields are no part of the program:
they say which records the file and the buffer hold, what the pages held at the last
checkpoint, and what was logged before it.

A step of a run is a call of a log function, a write of part of a page to disk, a
crash, or recovery.  `WalSystem.Inv` is what all runs keep in which every update is
logged with the content it finds and no page change overtakes its record on the way
to disk (`WalOp.Ok`).
-/

namespace OnionRelay.Db

open OnionRelay.Lib

/-- What became of the transaction of an update logged before the last checkpoint. -/
inductive Fate
  | undecided (txId : UInt32)
  | committed
  | lost
deriving DecidableEq

structure WalSystem where
  wal : WalManager
  disk : DiskManager
  mem : Nat → PageData
  up : Bool
  /-- Records of the file up to the last checkpoint, if it is still in the file. -/
  kept : List WalRecord
  /-- Records of the file since. -/
  durable : List WalRecord
  /-- Records of the buffer. -/
  pending : List WalRecord
  /-- What the pages held at the last checkpoint. -/
  base : PageByte → UInt8
  /-- The updates logged before it. -/
  past : ChangeLog PageByte UInt8 Fate

inductive WalOp
  | begin (io : WalIo)
  | update (io : WalIo) (txId : UInt32) (u : WalUpdate)
  | commit (io io' : WalIo) (txId : UInt32)
  | abort (io : WalIo) (txId : UInt32) (restored : Bool)
  | flush (io : WalIo)
  | writePage (pid : Nat) (reached : Nat → Bool)
  | checkpoint (io io' : WalIo) (truncated : Bool)
  | crash
  | recover (io : RecoveryIo)

namespace WalSystem

/-- An empty log beside a disk. -/
def start (disk : DiskManager) : WalSystem :=
  { wal := walInit [], disk := disk, mem := disk.pages, up := true, kept := [], durable := [],
    pending := [], base := disk.bytes, past := [] }

/-- The records since the last checkpoint. -/
def recent (s : WalSystem) : List WalRecord := s.durable ++ s.pending

/-- The updates since the last checkpoint. -/
def changes (s : WalSystem) : ChangeLog PageByte UInt8 UInt32 := changesOf (updatesOf s.recent)

/-- Those of which the records are in the file. -/
def logged (s : WalSystem) : ChangeLog PageByte UInt8 UInt32 := changesOf (updatesOf s.durable)

/-- The transaction has a COMMIT record in the file. -/
def committed (s : WalSystem) (txId : UInt32) : Bool := committedIn (s.kept ++ s.durable) txId

/-- The transaction is neither active nor committed, nor is it about to be. -/
def Lost (s : WalSystem) (txId : UInt32) : Prop :=
  txId ∉ s.wal.running ∧ committedIn (s.kept ++ s.recent) txId = false

instance (s : WalSystem) (txId : UInt32) : Decidable (s.Lost txId) :=
  inferInstanceAs (Decidable (_ ∧ _))

/-- What is known of a transaction that is not undecided any more. -/
def fate (s : WalSystem) (txId : UInt32) : Fate :=
  if committedIn (s.kept ++ s.recent) txId then .committed
  else if txId ∈ s.wal.running then .undecided txId
  else .lost

def resolve (s : WalSystem) : Fate → Fate
  | .undecided txId => s.fate txId
  | known => known

def resolvedPast (s : WalSystem) : ChangeLog PageByte UInt8 Fate :=
  s.past.map fun e => (s.resolve e.1, e.2)

/-- All updates so far, with what became of their transactions. -/
def history (s : WalSystem) : ChangeLog PageByte UInt8 Fate :=
  s.resolvedPast ++ s.changes.map fun e => (s.fate e.1, e.2)

def flushed (io : WalIo) (s : WalSystem) : WalSystem :=
  if (s.wal.flush io).1 = .ok then
    { s with wal := (s.wal.flush io).2, durable := s.recent, pending := [] }
  else { s with wal := (s.wal.flush io).2 }

/-- The system after room was made for a record. -/
def roomFor (io : WalIo) (body : WalBody) (s : WalSystem) : WalSystem :=
  if walBufferSize < s.wal.buffer.length + (walHeaderSize + body.payload.length) then s.flushed io
  else s

/-- The system after a record was logged, or could not be. -/
def log (io : WalIo) (txId : UInt32) (body : WalBody) (s : WalSystem) : WalSystem :=
  let record := s.wal.logRecord io txId body
  let room := s.roomFor io body
  { room with wal := record.2, pending := room.pending ++ record.1.toList }

def withActive (active : List (UInt32 × UInt64)) (s : WalSystem) : WalSystem :=
  { s with wal := { s.wal with active := active } }

/-- The system with the next transaction on the list. -/
def opened (s : WalSystem) : WalSystem := { s with wal := s.wal.opened }

/-- The system with a transaction off the list. -/
def closed (txId : UInt32) (s : WalSystem) : WalSystem :=
  s.withActive (removeActive txId s.wal.active)

/-- The pages with the update made. -/
def apply (u : WalUpdate) (mem : Nat → PageData) : Nat → PageData :=
  Function.update mem u.pageId (writeAt (mem u.pageId) u.offset u.new)

/-- The pages with the updates of a transaction taken back. -/
def restore (s : WalSystem) (txId : UInt32) : Nat → PageData := fun pid a =>
  ChangeLog.undoAll (s.changes.filter fun e => e.1 = txId) (pageBytes s.mem) (pid, a)

/-- The records of the buffer that an interrupted flush has brought into the file. -/
def survivors (s : WalSystem) : List WalRecord :=
  wholeRecords (s.wal.file.length - s.wal.fileOffset) s.pending

/-- A checkpoint writes all pages; a page that is not dirty is on disk already. -/
def checkpointed (io io' : WalIo) (truncated : Bool) (s : WalSystem) : WalSystem :=
  let checkpoint := s.wal.checkpoint io io' truncated
  let record : WalRecord := ⟨s.wal.nextLsn, lsnNull, 0, .checkpoint⟩
  let s' := { s with wal := checkpoint.2, disk := { s.disk with pages := s.mem } }
  if checkpoint.1 = .ok then
    { s' with
      kept := if truncated then [] else s.kept ++ s.recent ++ [record]
      durable := []
      pending := []
      base := pageBytes s.mem
      past := s.history }
  else s'

def step (s : WalSystem) : WalOp → WalSystem
  | .begin io =>
    if s.wal.active.length < maxActiveTx then
      let lsn := (s.wal.opened.writeSimpleRecord io s.wal.nextTxId .begin).1
      let s' := s.opened.log io s.wal.nextTxId .begin
      if lsn = lsnNull then s'.withActive s'.wal.active.dropLast else s'
    else s
  | .update io txId u =>
    let lsn := (s.wal.logUpdate io txId u.pageId u.offset u.new.length u.old u.new).1
    { s.log io txId (.update u) with
      mem := if lsn = lsnNull then s.mem else apply u s.mem }
  | .commit io io' txId =>
    let lsn := (s.wal.writeSimpleRecord io txId .commit).1
    if lsn = lsnNull then s.log io txId .commit
    else ((s.log io txId .commit).closed txId).flushed io'
  | .abort io txId restored =>
    let lsn := (s.wal.writeSimpleRecord io txId .abort).1
    if lsn = lsnNull then s.log io txId .abort
    else
      { (s.log io txId .abort).closed txId with
        mem := if restored then s.restore txId else s.mem }
  | .flush io => s.flushed io
  | .writePage pid reached =>
    let page : PageData := fun a => if reached a then s.mem pid a else s.disk.pages pid a
    { s with disk := s.disk.put pid page }
  | .checkpoint io io' truncated => s.checkpointed io io' truncated
  | .crash =>
    { s with
      up := false
      wal := walInit s.wal.file
      durable := s.durable ++ s.survivors
      pending := [] }
  | .recover io =>
    let recovered := walRecover io (walInit s.wal.file) s.disk
    if recovered.1 = .ok then
      { s with
        up := true
        wal := recovered.2.1
        disk := recovered.2.2
        mem := recovered.2.2.pages
        past := s.resolvedPast }
    else { s with disk := recovered.2.2 }

/-! ## The calls are the program's -/

theorem wal_flushed (io : WalIo) (s : WalSystem) : (s.flushed io).wal = (s.wal.flush io).2 := by
  rw [flushed]
  split <;> rfl

theorem wal_begin (s : WalSystem) (io : WalIo) :
    (s.step (.begin io)).wal = (s.wal.logBegin io).2 := by
  have heq := s.wal.opened.writeSimpleRecord_eq io s.wal.nextTxId .begin .begin rfl rfl
  rw [step, WalManager.logBegin]
  split
  · dsimp only
    rw [heq]
    dsimp only
    split <;> rfl
  · rfl

theorem wal_update (s : WalSystem) (io : WalIo) (txId : UInt32) (u : WalUpdate) :
    (s.step (.update io txId u)).wal =
      (s.wal.logUpdate io txId u.pageId u.offset u.new.length u.old u.new).2 := by
  rw [WalManager.logUpdate_eq, WalManager.appendRecord_eq]
  rfl

theorem wal_commit (s : WalSystem) (io io' : WalIo) (txId : UInt32) :
    (s.step (.commit io io' txId)).wal = (s.wal.logCommit io io' txId).2 := by
  have heq := s.wal.writeSimpleRecord_eq io txId .commit .commit rfl rfl
  rw [step, WalManager.logCommit, heq]
  dsimp only
  split
  · rfl
  · rw [wal_flushed]
    rfl

theorem wal_abort (s : WalSystem) (io : WalIo) (txId : UInt32) (restored : Bool) :
    (s.step (.abort io txId restored)).wal = (s.wal.logAbort io txId).2 := by
  have heq := s.wal.writeSimpleRecord_eq io txId .abort .abort rfl rfl
  rw [step, WalManager.logAbort, heq]
  dsimp only
  split <;> rfl

end WalSystem

/-- A step is in order if the system is up and its counters have not run out, if an
update is of an existing page and logged with the content it finds, and if no byte
reaches the disk whose change is only in the buffer.  A crash may interrupt a flush
between two records.  Recovery can read the log and the pages it makes changes to
again, and counts the changes it takes back in 31 bits. -/
def WalOp.Ok (s : WalSystem) : WalOp → Prop
  | .begin _ => s.up = true ∧ s.wal.nextLsn ≠ lsnNull ∧ s.wal.nextTxId ≠ 0
  | .update _ txId u =>
    s.up = true ∧ s.wal.nextLsn ≠ lsnNull ∧ txId ∈ s.wal.running ∧ s.disk.Valid u.pageId ∧
      u.old = readAt (s.mem u.pageId) u.offset u.new.length
  | .commit _ _ txId => s.up = true ∧ s.wal.nextLsn ≠ lsnNull ∧ txId ∈ s.wal.running
  | .abort _ txId _ => s.up = true ∧ s.wal.nextLsn ≠ lsnNull ∧ txId ∈ s.wal.running
  | .flush _ => s.up = true
  | .writePage pid reached =>
    s.up = true ∧ ∀ e ∈ changesOf (updatesOf s.pending), ∀ a, reached a = true → e.2 (pid, a) = none
  | .checkpoint io io' _ => s.up = true ∧ io = none ∧ io' = none
  | .crash => s.up = true ∧ s.wal.file.length - s.wal.fileOffset = (logBytes s.survivors).length
  | .recover io =>
    s.up = false ∧ io.mapped = true ∧ (∀ n, io.redo.read n = true) ∧
      (losersOf (s.kept ++ s.durable)).length < 2 ^ 31

/-- The id was given out. -/
def WalManager.Issued (wal : WalManager) (txId : UInt32) : Prop :=
  txId < wal.nextTxId ∨ wal.nextTxId = 0

namespace WalSystem

structure Inv (s : WalSystem) : Prop where
  carries : s.wal.Carries (logBytes (s.kept ++ s.durable)) s.pending
  mark : s.kept = [] ∨ ∃ pre cp, s.kept = pre ++ [cp] ∧ cp.body = .checkpoint
  plain : hasCheckpoint s.recent = false
  issued : s.up = true → ∀ r ∈ s.kept ++ s.recent, s.wal.Issued r.txId
  running : ∀ txId ∈ s.wal.running, s.wal.Issued txId
  nodup : s.wal.running.Nodup
  unfinished : ∀ txId ∈ s.wal.running, committedIn (s.kept ++ s.recent) txId = false
  valid : ∀ e ∈ updatesOf s.recent, s.disk.Valid e.2.pageId
  traced : ChangeLog.Traced s.Lost s.base s.changes
  tracks : s.up = true → ChangeLog.Tracks s.Lost s.base s.changes (pageBytes s.mem)
  disk : ∀ l, (∀ e ∈ s.logged, e.2 l = none) → s.disk.bytes l = s.base l
  down : s.up = false →
    s.pending = [] ∧ s.wal.running = [] ∧ s.wal.file = logBytes (s.kept ++ s.durable)

/-! ## Logs that grow -/

@[simp] theorem updatesOf_append (rs rs' : List WalRecord) :
    updatesOf (rs ++ rs') = updatesOf rs ++ updatesOf rs' := by
  simp [updatesOf]

@[simp] theorem changesOf_append {τ : Type} (us us' : List (τ × WalUpdate)) :
    changesOf (us ++ us') = changesOf us ++ changesOf us' := by
  simp [changesOf]

@[simp] theorem committedIn_append (rs rs' : List WalRecord) (txId : UInt32) :
    committedIn (rs ++ rs') txId = (committedIn rs txId || committedIn rs' txId) := by
  simp [committedIn]

@[simp] theorem hasCheckpoint_append (rs rs' : List WalRecord) :
    hasCheckpoint (rs ++ rs') = (hasCheckpoint rs || hasCheckpoint rs') := by
  simp [hasCheckpoint]

theorem updatesOf_eq_nil {rs : List WalRecord} (h : ∀ r ∈ rs, ∀ u, r.body ≠ .update u) :
    updatesOf rs = [] := by
  rw [updatesOf, List.filterMap_eq_nil_iff]
  intro r hr
  cases hb : r.body with
  | update u => exact absurd hb (h r hr u)
  | _ => rfl

theorem committedIn_eq_false {rs : List WalRecord} {txId : UInt32}
    (h : ∀ r ∈ rs, r.body = .commit → r.txId ≠ txId) : committedIn rs txId = false := by
  rw [committedIn, List.any_eq_false]
  intro r hr
  simpa using h r hr

section Extend

variable {s s' : WalSystem} {new : List WalRecord}

/-- What a step may do that only adds records of active transactions to the log. -/
structure Extends (s s' : WalSystem) (new : List WalRecord) : Prop where
  carries : s'.wal.Carries (logBytes (s'.kept ++ s'.durable)) s'.pending
  recent : s'.recent = s.recent ++ new
  durable : ∃ more, s'.durable = s.durable ++ more
  kept : s'.kept = s.kept
  base : s'.base = s.base
  disk : s'.disk = s.disk
  up : s'.up = s.up
  nextTxId : s'.wal.nextTxId = s.wal.nextTxId
  running : s'.wal.running.Sublist s.wal.running
  active : ∀ r ∈ new, r.txId ∈ s.wal.running
  closed : ∀ r ∈ new, r.body = .commit → r.txId ∉ s'.wal.running
  body : ∀ r ∈ new, r.body ≠ .checkpoint

theorem Extends.lost (h : Extends s s' new) {txId : UInt32} (hlost : s.Lost txId) :
    s'.Lost txId := by
  refine ⟨fun hmem => hlost.1 (h.running.subset hmem), ?_⟩
  rw [h.kept, h.recent, ← List.append_assoc, committedIn_append, hlost.2, Bool.false_or]
  refine committedIn_eq_false fun r hr _ heq => hlost.1 ?_
  exact heq ▸ h.active r hr

/-- A transaction that is closed without a COMMIT record is lost. -/
theorem Extends.lost_of_closed (h : Extends s s' new) {txId : UInt32}
    (hun : committedIn (s.kept ++ s.recent) txId = false) (hnot : txId ∉ s'.wal.running)
    (hnew : ∀ r ∈ new, r.body ≠ .commit) : s'.Lost txId := by
  refine ⟨hnot, ?_⟩
  rw [h.kept, h.recent, ← List.append_assoc, committedIn_append, hun, Bool.false_or]
  exact committedIn_eq_false fun r hr hcommit => absurd hcommit (hnew r hr)

theorem Extends.changes (h : Extends s s' new) :
    s'.changes = s.changes ++ changesOf (updatesOf new) := by
  rw [WalSystem.changes, h.recent, updatesOf_append, changesOf_append]
  rfl

/-- **A step that adds records of active transactions keeps the invariant**, if the
pages keep track of the log. -/
theorem Inv.extend (h : Inv s) (hup : s.up = true) (hext : Extends s s' new)
    (hvalid : ∀ e ∈ updatesOf new, s.disk.Valid e.2.pageId)
    (htraced : ChangeLog.Traced s'.Lost s.base s'.changes)
    (htracks : ChangeLog.Tracks s'.Lost s.base s'.changes (pageBytes s'.mem)) : Inv s' where
  carries := hext.carries
  mark := hext.kept ▸ h.mark
  plain := by
    rw [hext.recent, hasCheckpoint_append, h.plain, Bool.false_or, hasCheckpoint, List.any_eq_false]
    intro r hr
    simpa using hext.body r hr
  issued := by
    intro _ r hr
    rw [hext.kept, hext.recent, ← List.append_assoc] at hr
    rw [WalManager.Issued, hext.nextTxId]
    rcases List.mem_append.mp hr with hr | hr
    · exact h.issued hup r hr
    · exact h.running _ (hext.active r hr)
  running := by
    intro txId hmem
    rw [WalManager.Issued, hext.nextTxId]
    exact h.running txId (hext.running.subset hmem)
  nodup := h.nodup.sublist hext.running
  unfinished := by
    intro txId hmem
    rw [hext.kept, hext.recent, ← List.append_assoc, committedIn_append,
      h.unfinished txId (hext.running.subset hmem), Bool.false_or]
    refine committedIn_eq_false fun r hr hcommit heq => ?_
    exact hext.closed r hr hcommit (heq ▸ hmem)
  valid := by
    intro e he
    rw [hext.recent, updatesOf_append] at he
    rw [hext.disk]
    rcases List.mem_append.mp he with he | he
    · exact h.valid e he
    · exact hvalid e he
  traced := hext.base ▸ htraced
  tracks := fun _ => hext.base ▸ htracks
  disk := by
    intro l hl
    obtain ⟨more, hmore⟩ := hext.durable
    rw [hext.disk, hext.base]
    refine h.disk l fun e he => hl e ?_
    rw [logged, hmore, updatesOf_append, changesOf_append]
    exact List.mem_append_left _ he
  down := by
    intro hdown
    rw [hext.up, hup] at hdown
    cases hdown

/-- Records other than updates leave the changes alone. -/
theorem Inv.extend_of_plain (h : Inv s) (hup : s.up = true) (hext : Extends s s' new)
    (hplain : ∀ r ∈ new, ∀ u, r.body ≠ .update u)
    (hmem : ∀ l, (∀ e ∈ s.changes, e.2 l ≠ none → ¬ s'.Lost e.1) →
      pageBytes s'.mem l = pageBytes s.mem l) : Inv s' := by
  have hnone := updatesOf_eq_nil hplain
  have hchanges : s'.changes = s.changes := by
    rw [hext.changes, hnone]
    exact List.append_nil _
  refine h.extend hup hext (by rw [hnone]; intro e he; cases he) ?_ ?_
  · rw [hchanges]
    exact h.traced.mono fun e _ hlost => hext.lost hlost
  · rw [hchanges]
    intro l hno
    rw [hmem l hno]
    exact (h.tracks hup).mono (fun e _ hlost => hext.lost hlost) l hno

end Extend

/-! ## The log functions -/

section Log

variable {s : WalSystem} {io : WalIo} {txId : UInt32} {body : WalBody}

theorem recent_flushed (io : WalIo) (s : WalSystem) : (s.flushed io).recent = s.recent := by
  rw [flushed]
  split
  · exact List.append_nil _
  · rfl

theorem carries_flushed (h : s.wal.Carries (logBytes (s.kept ++ s.durable)) s.pending)
    (io : WalIo) : (s.flushed io).wal.Carries
      (logBytes ((s.flushed io).kept ++ (s.flushed io).durable)) (s.flushed io).pending := by
  cases io with
  | none =>
    obtain ⟨hok, hcarries⟩ := h.flush
    rw [flushed, if_pos hok, recent, ← List.append_assoc, logBytes_append]
    exact hcarries
  | some n =>
    have hcarries := h.flush_some n
    rw [flushed]
    split
    · rename_i hok
      -- the buffer was empty, and so a failing call made no difference
      have hempty : s.wal.buffer = [] := by
        by_contra hne
        rw [WalManager.flush, if_neg hne] at hok
        cases hok
      have hflush : s.wal.flush none = s.wal.flush (some n) := by
        rw [WalManager.flush, WalManager.flush, if_pos hempty, if_pos hempty]
      rw [← hflush, recent, ← List.append_assoc, logBytes_append]
      exact h.flush.2
    · exact hcarries

theorem durable_flushed (io : WalIo) (s : WalSystem) :
    ∃ more, (s.flushed io).durable = s.durable ++ more := by
  rw [flushed]
  split
  · exact ⟨s.pending, rfl⟩
  · exact ⟨[], (List.append_nil _).symm⟩

theorem flushed_frame (io : WalIo) (s : WalSystem) : (s.flushed io).kept = s.kept ∧
    (s.flushed io).base = s.base ∧ (s.flushed io).disk = s.disk ∧ (s.flushed io).up = s.up ∧
    (s.flushed io).mem = s.mem ∧ (s.flushed io).past = s.past ∧
    (s.flushed io).wal.active = s.wal.active ∧
    (s.flushed io).wal.nextTxId = s.wal.nextTxId := by
  obtain ⟨hactive, hnext, _⟩ := s.wal.flush_frame io
  rw [flushed]
  split <;> exact ⟨rfl, rfl, rfl, rfl, rfl, rfl, hactive, hnext⟩

theorem Extends.flushed (h : s.wal.Carries (logBytes (s.kept ++ s.durable)) s.pending)
    (io : WalIo) : Extends s (s.flushed io) [] := by
  obtain ⟨hkept, hbase, hdisk, hup, _, _, hactive, hnext⟩ := flushed_frame io s
  exact
    { carries := carries_flushed h io
      recent := (recent_flushed io s).trans (List.append_nil _).symm
      durable := durable_flushed io s
      kept := hkept
      base := hbase
      disk := hdisk
      up := hup
      nextTxId := hnext
      running := by rw [WalManager.running, hactive]; exact List.Sublist.refl _
      active := fun r hr => by cases hr
      closed := fun r hr => by cases hr
      body := fun r hr => by cases hr }

theorem wal_roomFor (io : WalIo) (body : WalBody) (s : WalSystem) : (s.roomFor io body).wal =
    (s.wal.ensureBufferSpace io (walHeaderSize + body.payload.length)).2 := by
  rw [roomFor, WalManager.ensureBufferSpace_eq]
  split
  · exact wal_flushed io s
  · rfl

theorem Extends.roomFor (h : s.wal.Carries (logBytes (s.kept ++ s.durable)) s.pending)
    (io : WalIo) (body : WalBody) : Extends s (s.roomFor io body) [] := by
  rw [WalSystem.roomFor]
  split
  · exact Extends.flushed h io
  · exact
      { carries := h
        recent := (List.append_nil _).symm
        durable := ⟨[], (List.append_nil _).symm⟩
        kept := rfl
        base := rfl
        disk := rfl
        up := rfl
        nextTxId := rfl
        running := List.Sublist.refl _
        active := fun r hr => by cases hr
        closed := fun r hr => by cases hr
        body := fun r hr => by cases hr }

theorem mem_roomFor (io : WalIo) (body : WalBody) (s : WalSystem) :
    (s.roomFor io body).mem = s.mem ∧ (s.roomFor io body).past = s.past := by
  rw [roomFor]
  split
  · obtain ⟨_, _, _, _, hmem, hpast, _⟩ := flushed_frame io s
    exact ⟨hmem, hpast⟩
  · exact ⟨rfl, rfl⟩

/-- **What logging a record does to the log.**  For a COMMIT or ABORT record it is not
all the call does. -/
theorem Extends.log (h : s.wal.Carries (logBytes (s.kept ++ s.durable)) s.pending) (io : WalIo)
    (body : WalBody) (hactive : txId ∈ s.wal.running) (active : List (UInt32 × UInt64))
    (hsub : (active.map Prod.fst).Sublist s.wal.running)
    (hclosed : body = .commit → (s.wal.logRecord io txId body).1 ≠ none →
      txId ∉ active.map Prod.fst) (hbody : body ≠ .checkpoint) :
    Extends s ((s.log io txId body).withActive active)
      (s.wal.logRecord io txId body).1.toList := by
  have hroom := Extends.roomFor h io body
  have hframe := s.wal.logRecord_frame io txId body
  have hrecord : ∀ r ∈ (s.wal.logRecord io txId body).1.toList, r.txId = txId ∧ r.body = body := by
    intro r hr
    obtain ⟨htx, hb, _⟩ := WalManager.record_of_logRecord (Option.mem_toList.mp hr)
    exact ⟨htx, hb⟩
  exact
    { carries := by
        have hcarries : (s.wal.logRecord io txId body).2.Carries
            (logBytes ((s.roomFor io body).kept ++ (s.roomFor io body).durable))
            ((s.roomFor io body).pending ++ (s.wal.logRecord io txId body).1.toList) := by
          rw [WalManager.logRecord, ← wal_roomFor]
          split
          · exact hroom.carries.put _ _
          · rw [Option.toList_none, List.append_nil]
            exact hroom.carries
        exact hcarries.congr rfl rfl rfl
      recent := by
        have hrecent := hroom.recent
        rw [List.append_nil] at hrecent
        change (s.roomFor io body).durable ++ ((s.roomFor io body).pending ++ _) = _
        rw [← List.append_assoc, ← hrecent]
        rfl
      durable := hroom.durable
      kept := hroom.kept
      base := hroom.base
      disk := hroom.disk
      up := hroom.up
      nextTxId := hframe.2
      running := hsub
      active := fun r hr => (hrecord r hr).1 ▸ hactive
      closed := fun r hr hcommit hmem => by
        rw [(hrecord r hr).1] at hmem
        rw [(hrecord r hr).2] at hcommit
        refine hclosed hcommit (fun hnone => ?_) hmem
        rw [hnone] at hr
        cases hr
      body := fun r hr => (hrecord r hr).2 ▸ hbody }

theorem Extends.of_mem {s' : WalSystem} {new : List WalRecord} (h : Extends s s' new)
    (mem : Nat → PageData) : Extends s { s' with mem := mem } new :=
  ⟨h.carries, h.recent, h.durable, h.kept, h.base, h.disk, h.up, h.nextTxId, h.running, h.active,
    h.closed, h.body⟩

/-- A flush may follow. -/
theorem Extends.trans_nil {s' s'' : WalSystem} {new : List WalRecord} (h : Extends s s' new)
    (h' : Extends s' s'' []) : Extends s s'' new where
  carries := h'.carries
  recent := h'.recent.trans (by rw [h.recent, List.append_nil])
  durable := by
    obtain ⟨more, hmore⟩ := h.durable
    obtain ⟨more', hmore'⟩ := h'.durable
    exact ⟨more ++ more', by rw [hmore', hmore, List.append_assoc]⟩
  kept := h'.kept.trans h.kept
  base := h'.base.trans h.base
  disk := h'.disk.trans h.disk
  up := h'.up.trans h.up
  nextTxId := h'.nextTxId.trans h.nextTxId
  running := h'.running.trans h.running
  active := h.active
  closed := fun r hr hcommit hmem => h.closed r hr hcommit (h'.running.subset hmem)
  body := h.body

/-- A record of an active transaction that stays active. -/
theorem Extends.log_open (h : s.wal.Carries (logBytes (s.kept ++ s.durable)) s.pending)
    (io : WalIo) (body : WalBody) (hactive : txId ∈ s.wal.running)
    (hclosed : body = .commit → (s.wal.logRecord io txId body).1 = none)
    (hbody : body ≠ .checkpoint) :
    Extends s (s.log io txId body) (s.wal.logRecord io txId body).1.toList := by
  have hrunning := (s.wal.logRecord_frame io txId body).1
  exact Extends.log h io body hactive (s.log io txId body).wal.active
    (by rw [← WalManager.running]; exact hrunning ▸ List.Sublist.refl _)
    (fun hb hsome => absurd (hclosed hb) hsome) hbody

theorem running_log (io : WalIo) (txId : UInt32) (body : WalBody) (s : WalSystem) :
    (s.log io txId body).wal.running = s.wal.running := (s.wal.logRecord_frame io txId body).1

theorem not_mem_removeActive (h : Inv s) (io : WalIo) (txId : UInt32) (body : WalBody) :
    ((removeActive txId (s.log io txId body).wal.active).map Prod.fst).Sublist s.wal.running ∧
      txId ∉ (removeActive txId (s.log io txId body).wal.active).map Prod.fst := by
  have hrunning := running_log io txId body s
  rw [WalManager.running] at hrunning
  rw [WalManager.map_removeActive, hrunning]
  exact ⟨List.erase_sublist, h.nodup.not_mem_erase⟩

theorem length_logged (io : WalIo) (txId : UInt32) (body : WalBody) (wal : WalManager) :
    (wal.logRecord io txId body).1.toList.length ≤ 1 := by
  cases (wal.logRecord io txId body).1 <;> simp

/-- The record a call logs is no update if its body is none. -/
theorem plain_logged (hbody : ∀ u, body ≠ .update u) {wal : WalManager} :
    ∀ r ∈ (wal.logRecord io txId body).1.toList, ∀ u, r.body ≠ .update u := by
  intro r hr
  obtain ⟨_, hb, _⟩ := WalManager.record_of_logRecord (Option.mem_toList.mp hr)
  exact hb ▸ hbody

theorem extends_commit (h : Inv s) {io' : WalIo} (hok : (WalOp.commit io io' txId).Ok s) :
    Extends s (s.step (.commit io io' txId)) (s.wal.logRecord io txId .commit).1.toList := by
  obtain ⟨-, hlsn, hactive⟩ := hok
  rw [step, s.wal.writeSimpleRecord_eq io txId .commit .commit rfl rfl]
  dsimp only
  split
  · rename_i hnull
    have hnone := (WalManager.lsn_eq_null_iff hlsn).mp hnull
    exact Extends.log_open h.carries io .commit hactive (fun _ => hnone) (by decide)
  · obtain ⟨hsub, hnot⟩ := not_mem_removeActive h io txId .commit
    have hext := Extends.log h.carries io .commit hactive _ hsub (fun _ _ => hnot) (by decide)
    exact hext.trans_nil (Extends.flushed hext.carries io')

theorem inv_commit (h : Inv s) {io' : WalIo} (hok : (WalOp.commit io io' txId).Ok s) :
    Inv (s.step (.commit io io' txId)) := by
  have hmem : (s.step (.commit io io' txId)).mem = s.mem := by
    rw [step]
    split
    · exact (mem_roomFor io .commit s).1
    · obtain ⟨_, _, _, _, hmem, _⟩ := flushed_frame io' ((s.log io txId .commit).closed txId)
      exact hmem.trans (mem_roomFor io .commit s).1
  refine h.extend_of_plain hok.1 (extends_commit h hok) (plain_logged (by intro u hu; cases hu)) ?_
  intro l _
  rw [hmem]

theorem extends_abort (h : Inv s) {restored : Bool} (hok : (WalOp.abort io txId restored).Ok s) :
    Extends s (s.step (.abort io txId restored)) (s.wal.logRecord io txId .abort).1.toList := by
  obtain ⟨-, -, hactive⟩ := hok
  rw [step]
  split
  · exact Extends.log_open h.carries io .abort hactive (fun hb => by cases hb) (by decide)
  · obtain ⟨hsub, _⟩ := not_mem_removeActive h io txId .abort
    exact (Extends.log h.carries io .abort hactive _ hsub (fun hb => by cases hb)
      (by decide)).of_mem _

theorem inv_abort (h : Inv s) {restored : Bool} (hok : (WalOp.abort io txId restored).Ok s) :
    Inv (s.step (.abort io txId restored)) := by
  have hext := extends_abort h hok
  obtain ⟨hup, -, hactive⟩ := hok
  refine h.extend_of_plain hup hext (plain_logged (by intro u hu; cases hu)) fun l hno => ?_
  have hlogmem : (s.log io txId .abort).mem = s.mem := (mem_roomFor io .abort s).1
  rw [step] at hno hext ⊢
  split at hext
  · rename_i hnull
    rw [if_pos hnull, hlogmem]
  · rename_i hnull
    rw [if_neg hnull] at hno ⊢
    cases restored with
    | false => rfl
    | true =>
      -- the transaction is lost now, and what it did not change is as it was
      obtain ⟨_, hnot⟩ := not_mem_removeActive h io txId .abort
      have hlost := hext.lost_of_closed (h.unfinished txId hactive) hnot (by
        intro r hr hcommit
        obtain ⟨_, hb, _⟩ := WalManager.record_of_logRecord (Option.mem_toList.mp hr)
        rw [hb] at hcommit
        cases hcommit)
      have hnone : ChangeLog.oldest (s.changes.filter fun e => e.1 = txId) l = none := by
        refine ChangeLog.oldest_eq_none_iff.mpr fun e he => ?_
        obtain ⟨he, htx⟩ := List.mem_filter.mp he
        by_contra hcovers
        refine hno e he hcovers ?_
        rw [of_decide_eq_true htx]
        exact hlost
      change ChangeLog.undoAll (s.changes.filter fun e => e.1 = txId) (pageBytes s.mem) l = _
      rw [ChangeLog.undoAll_apply, hnone, Option.getD_none]

theorem inv_flush (h : Inv s) (hup : s.up = true) (io : WalIo) : Inv (s.flushed io) := by
  obtain ⟨_, _, _, _, hmem, _⟩ := flushed_frame io s
  refine h.extend_of_plain hup (Extends.flushed h.carries io) (fun r hr => by cases hr) ?_
  intro l _
  rw [hmem]

/-- The before-image of an update is the content of its page. -/
theorem found_of_old {u : WalUpdate} {mem : Nat → PageData}
    (hold : u.old = readAt (mem u.pageId) u.offset u.new.length) {l : PageByte} {v : UInt8 × UInt8}
    (hv : u.change l = some v) : v.1 = pageBytes mem l := by
  rw [WalUpdate.change] at hv
  split at hv
  · rename_i hcovers
    obtain ⟨hpage, hlo, hhi⟩ := hcovers
    obtain rfl := Option.some.inj hv
    change u.old.getD (l.2 - u.offset) 0 = mem l.1 l.2
    have hlen : l.2 - u.offset < (readAt (mem u.pageId) u.offset u.new.length).length := by
      rw [length_readAt]
      omega
    rw [hold, List.getD_eq_getElem?_getD, List.getElem?_eq_getElem hlen, getElem_readAt, hpage,
      Option.getD_some]
    congr 1
    omega
  · cases hv

theorem step_update {u : WalUpdate} (hlsn : s.wal.nextLsn ≠ lsnNull) :
    s.step (.update io txId u) = { s.log io txId (.update u) with
      mem := if (s.wal.logRecord io txId (.update u)).1 = none then s.mem else apply u s.mem } := by
  rw [step, WalManager.logUpdate_eq, WalManager.appendRecord_eq]
  simp only [WalManager.lsn_eq_null_iff hlsn]

theorem extends_update (h : Inv s) {u : WalUpdate} (hok : (WalOp.update io txId u).Ok s) :
    Extends s (s.step (.update io txId u)) (s.wal.logRecord io txId (.update u)).1.toList := by
  obtain ⟨-, hlsn, hactive, -⟩ := hok
  rw [step_update hlsn]
  exact (Extends.log_open h.carries io (.update u) hactive (fun hb => by cases hb)
    (by intro hb; cases hb)).of_mem _

theorem inv_update (h : Inv s) {u : WalUpdate} (hok : (WalOp.update io txId u).Ok s) :
    Inv (s.step (.update io txId u)) := by
  have hext := extends_update h hok
  obtain ⟨hup, hlsn, hactive, hvalid, hold⟩ := hok
  rw [step_update hlsn] at hext ⊢
  cases hrecord : (s.wal.logRecord io txId (.update u)).1 with
  | none =>
    rw [hrecord, if_pos rfl] at hext
    rw [if_pos rfl]
    exact h.extend_of_plain hup hext (fun r hr => by cases hr) fun l _ => rfl
  | some r =>
    obtain ⟨htx, hbody, _⟩ := WalManager.record_of_logRecord hrecord
    have hnew : updatesOf (some r).toList = [(txId, u)] := by
      rw [Option.toList_some, updatesOf, List.filterMap_cons_some (b := (txId, u))]
      · rfl
      · rw [hbody, htx]
    rw [hrecord, if_neg (by simp)] at hext
    rw [if_neg (by simp)]
    have hchanges := hext.changes
    rw [hnew] at hchanges
    have htraced := h.traced.mono fun e _ hlost => hext.lost hlost
    have htracks := (h.tracks hup).mono fun e _ hlost => hext.lost hlost
    refine h.extend hup hext ?_ ?_ ?_
    · rw [hnew]
      intro e he
      rw [List.mem_singleton.mp he]
      exact hvalid
    · rw [hchanges]
      exact htraced.append htracks fun l v hv => found_of_old hold hv
    · rw [hchanges]
      have hmem : pageBytes (apply u s.mem) = u.change.redo (pageBytes s.mem) :=
        bytes_newImage u s.mem
      dsimp only
      rw [hmem]
      exact htracks.append (txId, u.change)

/-- A transaction id not given out yet. -/
theorem not_issued_next (hnext : s.wal.nextTxId ≠ 0) : ¬ s.wal.Issued s.wal.nextTxId := by
  rintro (hlt | hzero)
  · exact absurd hlt (UInt32.lt_irrefl _)
  · exact hnext hzero

theorem issued_opened {wal : WalManager} (hnext : wal.nextTxId ≠ 0) {txId : UInt32}
    (h : wal.Issued txId ∨ txId = wal.nextTxId) : wal.opened.Issued txId := by
  have hle : txId.toNat ≤ wal.nextTxId.toNat := by
    rcases h with (hlt | hzero) | rfl
    · exact Nat.le_of_lt (UInt32.lt_iff_toNat_lt.mp hlt)
    · exact absurd hzero hnext
    · exact Nat.le_refl _
  by_cases hwrap : wal.nextTxId + 1 = 0
  · exact .inr hwrap
  · left
    have hne : (wal.nextTxId + 1).toNat ≠ 0 := fun h0 => hwrap (UInt32.toNat.inj h0)
    rw [UInt32.lt_iff_toNat_lt, WalManager.opened]
    have hbound := wal.nextTxId.toNat_lt
    have hadd : (wal.nextTxId + 1).toNat = (wal.nextTxId.toNat + 1) % 2 ^ 32 := UInt32.toNat_add _ _
    change txId.toNat < (wal.nextTxId + 1).toNat
    omega

/-- The log's transactions are other ones than the next. -/
theorem lost_opened (h : Inv s) (hup : s.up = true) (hnext : s.wal.nextTxId ≠ 0) {e : UInt32 × Change PageByte UInt8}
    (he : e ∈ s.changes) (hlost : s.Lost e.1) : s.opened.Lost e.1 := by
  refine ⟨fun hmem => ?_, hlost.2⟩
  have hrunning : s.opened.wal.running = s.wal.running ++ [s.wal.nextTxId] := by
    rw [WalManager.running, opened, WalManager.opened, List.map_append]
    rfl
  rw [hrunning] at hmem
  rcases List.mem_append.mp hmem with hmem | hmem
  · exact hlost.1 hmem
  · obtain ⟨u, hu, rfl⟩ := List.mem_map.mp he
    obtain ⟨r, hr, hbody⟩ := List.mem_filterMap.mp hu
    have htx : r.txId = u.1 := (update_of_record hbody).1.symm
    have hissued := h.issued hup r (List.mem_append_right _ hr)
    rw [htx, List.mem_singleton.mp hmem] at hissued
    exact not_issued_next hnext hissued

theorem inv_opened (h : Inv s) (hup : s.up = true) (hnext : s.wal.nextTxId ≠ 0) :
    Inv s.opened := by
  have hrunning : s.opened.wal.running = s.wal.running ++ [s.wal.nextTxId] := by
    rw [WalManager.running, opened, WalManager.opened, List.map_append]
    rfl
  exact
    { carries := h.carries.congr rfl rfl rfl
      mark := h.mark
      plain := h.plain
      issued := fun _ r hr => issued_opened hnext (.inl (h.issued hup r hr))
      running := by
        intro txId hmem
        rw [hrunning] at hmem
        rcases List.mem_append.mp hmem with hmem | hmem
        · exact issued_opened hnext (.inl (h.running txId hmem))
        · exact issued_opened hnext (.inr (List.mem_singleton.mp hmem))
      nodup := by
        rw [hrunning]
        refine List.nodup_append.mpr ⟨h.nodup, List.nodup_singleton _, ?_⟩
        intro txId hmem txId' hmem' heq
        rw [List.mem_singleton.mp hmem'] at heq
        exact not_issued_next hnext (heq ▸ h.running txId hmem)
      unfinished := by
        intro txId hmem
        rw [hrunning] at hmem
        rcases List.mem_append.mp hmem with hmem | hmem
        · exact h.unfinished txId hmem
        · refine committedIn_eq_false fun r hr _ heq => ?_
          rw [List.mem_singleton.mp hmem] at heq
          exact not_issued_next hnext (heq ▸ h.issued hup r hr)
      valid := h.valid
      traced := h.traced.mono fun e he hlost => lost_opened h hup hnext he hlost
      tracks := fun hup => (h.tracks hup).mono fun e he hlost => lost_opened h hup hnext he hlost
      disk := h.disk
      down := fun hdown => by
        rw [show s.opened.up = s.up from rfl, hup] at hdown
        cases hdown }

theorem extends_begin (h : Inv s.opened) (hroom : s.wal.active.length < maxActiveTx) :
    Extends s.opened (s.step (.begin io))
      (s.opened.wal.logRecord io s.wal.nextTxId .begin).1.toList := by
  have hactive : s.wal.nextTxId ∈ s.opened.wal.running := by
    rw [WalManager.running, opened, WalManager.opened, List.map_append]
    exact List.mem_append_right _ List.mem_cons_self
  rw [step, if_pos hroom]
  dsimp only
  split
  · have hsub : (((s.opened.log io s.wal.nextTxId .begin).wal.active.dropLast).map
        Prod.fst).Sublist s.opened.wal.running := by
      rw [← running_log io s.wal.nextTxId .begin s.opened, WalManager.running]
      exact (List.dropLast_sublist _).map _
    exact Extends.log h.carries io .begin hactive _ hsub (fun hb => by cases hb) (by decide)
  · exact Extends.log_open h.carries io .begin hactive (fun hb => by cases hb) (by decide)

theorem inv_begin (h : Inv s) (hok : (WalOp.begin io).Ok s) : Inv (s.step (.begin io)) := by
  obtain ⟨hup, -, hnext⟩ := hok
  by_cases hroom : s.wal.active.length < maxActiveTx
  · have hopened := inv_opened h hup hnext
    have hmem : (s.step (.begin io)).mem = s.mem := by
      rw [step, if_pos hroom]
      dsimp only
      split <;> exact (mem_roomFor io .begin s.opened).1
    refine hopened.extend_of_plain hup (extends_begin hopened hroom)
      (plain_logged (by intro u hu; cases hu)) fun l _ => ?_
    rw [hmem]
    rfl
  · rw [step, if_neg hroom]
    exact h

end Log

/-! ## The disk, checkpoints and crashes -/

section Disk

variable {s : WalSystem}

theorem inv_writePage (h : Inv s) {pid : Nat} {reached : Nat → Bool}
    (hok : (WalOp.writePage pid reached).Ok s) : Inv (s.step (.writePage pid reached)) := by
  obtain ⟨hup, hahead⟩ := hok
  exact
    { h with
      valid := h.valid
      traced := h.traced
      tracks := h.tracks
      down := h.down
      disk := by
        intro l hl
        by_cases hreached : l.1 = pid ∧ reached l.2 = true
        · obtain ⟨hpid, ha⟩ := hreached
          -- the byte is the one in memory, and no change of it is in the log
          have hnone : ∀ e ∈ s.changes, e.2 l = none := by
            intro e he
            rw [changes, recent, updatesOf_append, changesOf_append] at he
            rcases List.mem_append.mp he with he | he
            · exact hl e he
            · have hnone := hahead e he l.2 ha
              rwa [← hpid] at hnone
          have hmem := h.tracks hup l fun e he hc => absurd (hnone e he) hc
          rw [ChangeLog.newest_eq_none_iff.mpr hnone, Option.getD_none] at hmem
          change Function.update s.disk.pages pid _ l.1 l.2 = s.base l
          rw [← hmem, pageBytes, hpid, Function.update_self, if_pos ha]
        · change Function.update s.disk.pages pid _ l.1 l.2 = s.base l
          rw [← h.disk l hl, DiskManager.bytes, pageBytes]
          by_cases hpid : l.1 = pid
          · rw [hpid, Function.update_self, if_neg fun ha => hreached ⟨hpid, ha⟩]
          · rw [Function.update_of_ne hpid] }

theorem inv_checkpoint (h : Inv s) {io io' : WalIo} {truncated : Bool}
    (hok : (WalOp.checkpoint io io' truncated).Ok s) :
    Inv (s.step (.checkpoint io io' truncated)) := by
  obtain ⟨hup, rfl, rfl⟩ := hok
  obtain ⟨hok, hcarries, hactive, hnext⟩ := h.carries.checkpoint truncated
  have hrunning : (s.wal.checkpoint none none truncated).2.running = s.wal.running := by
    rw [WalManager.running, hactive, WalManager.running]
  rw [step, checkpointed, if_pos hok]
  have hkept : ∀ r ∈ (if truncated then []
      else s.kept ++ s.recent ++ [(⟨s.wal.nextLsn, lsnNull, 0, .checkpoint⟩ : WalRecord)]),
      r ∈ s.kept ++ s.recent ∨ r = ⟨s.wal.nextLsn, lsnNull, 0, .checkpoint⟩ := by
    intro r hr
    cases truncated with
    | true => cases hr
    | false =>
      rcases List.mem_append.mp hr with hr | hr
      · exact .inl hr
      · exact .inr (List.mem_singleton.mp hr)
  exact
    { carries := by
        refine cast (congrArg (fun bytes => WalManager.Carries _ bytes []) ?_) hcarries
        cases truncated <;> simp [recent]
      mark := by
        cases truncated with
        | true => exact .inl rfl
        | false => exact .inr ⟨s.kept ++ s.recent, _, rfl, rfl⟩
      plain := rfl
      issued := by
        intro _ r hr
        rw [WalManager.Issued, hnext]
        rcases hkept r (by simpa [recent] using hr) with hr | rfl
        · exact h.issued hup r hr
        · by_cases hzero : s.wal.nextTxId = 0
          · exact .inr hzero
          · exact .inl (UInt32.pos_iff_ne_zero.mpr hzero)
      running := by
        intro txId hmem
        rw [WalManager.Issued, hnext]
        exact h.running txId (hrunning ▸ hmem)
      nodup := hrunning ▸ h.nodup
      unfinished := by
        intro txId hmem
        refine committedIn_eq_false fun r hr hcommit heq => ?_
        rcases hkept r (by simpa [recent] using hr) with hr | rfl
        · have hun := h.unfinished txId (hrunning ▸ hmem)
          rw [committedIn, List.any_eq_false] at hun
          exact hun r hr (by simp [hcommit, heq])
        · cases hcommit
      valid := fun e he => by cases he
      traced := ChangeLog.Traced.nil
      tracks := fun _ => ChangeLog.Tracks.nil
      disk := fun l _ => rfl
      down := fun hdown => by
        change s.up = false at hdown
        rw [hup] at hdown
        cases hdown }

theorem committedIn_of_sublist {rs rs' : List WalRecord} {txId : UInt32} (h : rs.Sublist rs')
    (hnone : committedIn rs' txId = false) : committedIn rs txId = false := by
  rw [committedIn, List.any_eq_false] at hnone ⊢
  exact fun r hr => hnone r (h.subset hr)

/-- What an interrupted flush leaves in the file are the survivors. -/
theorem file_survivors (h : Inv s) (hok : WalOp.crash.Ok s) :
    s.wal.file = logBytes (s.kept ++ (s.durable ++ s.survivors)) := by
  obtain ⟨-, hlength⟩ := hok
  obtain ⟨n, hfile⟩ := h.carries.file
  obtain ⟨dropped, hpending⟩ := wholeRecords_prefixed (s.wal.file.length - s.wal.fileOffset) s.pending
  have hbytes : logBytes s.pending = logBytes s.survivors ++ logBytes dropped := by
    rw [← logBytes_append]
    exact congrArg logBytes hpending.symm
  have htake : ((logBytes s.pending).take n).length = (logBytes s.survivors).length := by
    rw [← hlength, hfile, h.carries.offset, List.length_append, Nat.add_sub_cancel_left]
  rw [hfile, ← List.append_assoc, logBytes_append (s.kept ++ s.durable)]
  congr 1
  rw [List.take_eq_take_min, ← List.length_take, htake, hbytes, List.take_left]

theorem inv_crash (h : Inv s) (hok : WalOp.crash.Ok s) : Inv (s.step .crash) := by
  have hfile := file_survivors h hok
  obtain ⟨dropped, hpending⟩ := wholeRecords_prefixed (s.wal.file.length - s.wal.fileOffset) s.pending
  have hrecent : s.recent = (s.durable ++ s.survivors) ++ dropped := by
    rw [List.append_assoc]
    exact congrArg (s.durable ++ ·) hpending.symm
  have hrecent' : (s.step .crash).recent = s.durable ++ s.survivors := List.append_nil _
  have hchanges : s.changes = (s.step .crash).changes ++ changesOf (updatesOf dropped) := by
    rw [changes, hrecent, updatesOf_append, changesOf_append, changes, hrecent']
  have hlost : ∀ txId, s.Lost txId → (s.step .crash).Lost txId := by
    intro txId hlost
    refine ⟨List.not_mem_nil, committedIn_of_sublist ?_ hlost.2⟩
    rw [hrecent', hrecent]
    exact (List.sublist_append_left (s.durable ++ s.survivors) dropped).append_left s.kept
  exact
    { carries := by
        change (walInit s.wal.file).Carries (logBytes (s.kept ++ (s.durable ++ s.survivors))) []
        rw [← hfile]
        exact WalManager.Carries.init _
      mark := h.mark
      plain := by
        have hplain := h.plain
        rw [hrecent, hasCheckpoint_append, Bool.or_eq_false_iff] at hplain
        rw [hrecent']
        exact hplain.1
      issued := fun hup => by cases hup
      running := fun txId hmem => by cases hmem
      nodup := List.nodup_nil
      unfinished := fun txId hmem => by cases hmem
      valid := by
        intro e he
        refine h.valid e ?_
        rw [hrecent, updatesOf_append]
        rw [hrecent'] at he
        exact List.mem_append_left _ he
      traced := by
        have htraced := h.traced
        rw [hchanges] at htraced
        exact htraced.of_append.mono fun e _ hl => hlost e.1 hl
      tracks := fun hup => by cases hup
      disk := by
        intro l hl
        refine h.disk l fun e he => hl e ?_
        change e ∈ changesOf (updatesOf (s.durable ++ s.survivors))
        rw [updatesOf_append, changesOf_append]
        exact List.mem_append_left _ he
      down := fun _ => ⟨rfl, rfl, hfile⟩ }

/-- The phases of recovery go by the records since the last checkpoint. -/
theorem updatesOf_sinceCheckpoint (h : Inv s) :
    updatesOf (sinceCheckpoint (s.kept ++ s.durable)) = updatesOf s.durable := by
  have hplain := h.plain
  rw [recent, hasCheckpoint_append, Bool.or_eq_false_iff] at hplain
  rcases h.mark with hnone | ⟨pre, cp, hkept, hcp⟩
  · rw [hnone, List.nil_append, sinceCheckpoint_of_none hplain.1]
  · have hupdates : updatesOf (cp :: s.durable) = updatesOf s.durable := by
      rw [updatesOf, List.filterMap_cons_none (by rw [hcp])]
      rfl
    rw [hkept, List.append_assoc, List.singleton_append, sinceCheckpoint_append hcp hplain.1,
      hupdates]

theorem logged_eq_changes (h : Inv s) (hdown : s.up = false) : s.logged = s.changes := by
  rw [changes, recent, (h.down hdown).1, List.append_nil]
  rfl

theorem lost_iff (h : Inv s) (hdown : s.up = false) (txId : UInt32) :
    s.Lost txId ↔ s.committed txId = false := by
  obtain ⟨hpending, hrunning, _⟩ := h.down hdown
  rw [Lost, hrunning, recent, hpending, List.append_nil, committed]
  exact and_iff_right (List.not_mem_nil)

/-- **What a recovery that succeeds leaves on disk.** -/
theorem bytes_recovered (h : Inv s) {io : RecoveryIo} (hok : (WalOp.recover io).Ok s)
    (hsucc : (walRecover io (walInit s.wal.file) s.disk).1 = .ok) :
    (walRecover io (walInit s.wal.file) s.disk).2.2.bytes =
      ChangeLog.recover s.committed s.logged s.disk.bytes := by
  obtain ⟨hdown, hmapped, hread, hfew⟩ := hok
  obtain ⟨_, _, hfile⟩ := h.down hdown
  have heq := walRecover_records (s.kept ++ s.durable) io (walInit s.wal.file) s.disk hfile
  rw [heq] at hsucc ⊢
  by_cases hnone : s.kept ++ s.durable = []
  · rw [if_pos (.inr hnone)]
    rw [logged, (List.append_eq_nil_iff.mp hnone).2]
    rfl
  · rw [if_neg (by rw [hmapped]; simpa using hnone)] at hsucc ⊢
    dsimp only at hsucc ⊢
    split at hsucc
    · rename_i hok
      rw [if_pos hok]
      have hvalid : ∀ e ∈ winnersOf (s.kept ++ s.durable), s.disk.Valid e.2.pageId := by
        intro e he
        refine h.valid e ?_
        have he := List.mem_of_mem_filter he
        rw [updatesOf_sinceCheckpoint h] at he
        rw [recent, updatesOf_append]
        exact List.mem_append_left _ he
      have hbytes := recoverRecords_ok hread hvalid hfew hok
      rw [updatesOf_sinceCheckpoint h] at hbytes
      exact hbytes
    · rename_i hne
      exact absurd hsucc hne

/-- Recovery keeps the number of pages, and changes no byte that the log does not
cover. -/
theorem disk_recovered (h : Inv s) {io : RecoveryIo} (hok : (WalOp.recover io).Ok s) :
    (walRecover io (walInit s.wal.file) s.disk).2.2.totalPages = s.disk.totalPages ∧
      ∀ l, (∀ e ∈ s.logged, e.2 l = none) →
        (walRecover io (walInit s.wal.file) s.disk).2.2.bytes l = s.disk.bytes l := by
  obtain ⟨hdown, hmapped, _⟩ := hok
  obtain ⟨_, _, hfile⟩ := h.down hdown
  have heq := walRecover_records (s.kept ++ s.durable) io (walInit s.wal.file) s.disk hfile
  have hrecords : (recoverRecords io (s.kept ++ s.durable) s.disk).2.totalPages =
      s.disk.totalPages ∧ ∀ l, (∀ e ∈ s.logged, e.2 l = none) →
        (recoverRecords io (s.kept ++ s.durable) s.disk).2.bytes l = s.disk.bytes l := by
    refine ⟨totalPages_recoverRecords, fun l hl => recoverRecords_untouched fun e he => ?_⟩
    rw [updatesOf_sinceCheckpoint h] at he
    exact hl (e.1, e.2.change) (List.mem_map_of_mem he)
  rw [heq]
  split
  · exact ⟨rfl, fun l _ => rfl⟩
  · dsimp only
    split
    · exact hrecords
    · exact hrecords

theorem issued_lastTxId {rs : List WalRecord} {r : WalRecord} (h : r ∈ rs) :
    r.txId < lastTxId rs + 1 ∨ lastTxId rs + 1 = 0 := by
  have hfold : ∀ (rs : List WalRecord) (txId : UInt32),
      txId ≤ rs.foldl (fun txId r => if txId < r.txId then r.txId else txId) txId ∧
        ∀ r ∈ rs, r.txId ≤ rs.foldl (fun txId r => if txId < r.txId then r.txId else txId) txId := by
    intro rs
    induction rs with
    | nil => exact fun txId => ⟨UInt32.le_refl _, fun r hr => by cases hr⟩
    | cons r rs ih =>
      intro txId
      obtain ⟨hle, hall⟩ := ih (if txId < r.txId then r.txId else txId)
      have hmax : txId ≤ (if txId < r.txId then r.txId else txId) ∧
          r.txId ≤ (if txId < r.txId then r.txId else txId) := by
        simp only [UInt32.le_iff_toNat_le, UInt32.lt_iff_toNat_lt]
        split <;> omega
      refine ⟨UInt32.le_trans hmax.1 hle, fun r' hr' => ?_⟩
      rcases List.mem_cons.mp hr' with rfl | hr'
      · exact UInt32.le_trans hmax.2 hle
      · exact hall r' hr'
  have hle := (hfold rs 0).2 r h
  by_cases hwrap : lastTxId rs + 1 = 0
  · exact .inr hwrap
  · left
    have hne : (lastTxId rs + 1).toNat ≠ 0 := fun h0 => hwrap (UInt32.toNat.inj h0)
    have hbound := (lastTxId rs).toNat_lt
    have hadd : (lastTxId rs + 1).toNat = ((lastTxId rs).toNat + 1) % 2 ^ 32 := UInt32.toNat_add _ _
    have hle := UInt32.le_iff_toNat_le.mp hle
    rw [UInt32.lt_iff_toNat_lt]
    change r.txId.toNat ≤ (lastTxId rs).toNat at hle
    omega

theorem inv_recover (h : Inv s) {io : RecoveryIo} (hok : (WalOp.recover io).Ok s) :
    Inv (s.step (.recover io)) := by
  have hdisk := disk_recovered h hok
  have hbytes := bytes_recovered h hok
  obtain ⟨hdown, hmapped, _⟩ := hok
  obtain ⟨hpending, hrunning, hfile⟩ := h.down hdown
  have hrecords := walRecover_records (s.kept ++ s.durable) io (walInit s.wal.file) s.disk hfile
  rw [step]
  split
  · rename_i hsucc
    have hbytes := hbytes hsucc
    -- the manager is the one that `wal_init` makes, with new counters
    have hwal : (walRecover io (walInit s.wal.file) s.disk).2.1.Carries
          (logBytes (s.kept ++ s.durable)) [] ∧
        (walRecover io (walInit s.wal.file) s.disk).2.1.running = [] ∧
        ∀ r ∈ s.kept ++ s.durable,
          (walRecover io (walInit s.wal.file) s.disk).2.1.Issued r.txId := by
      have hinit : (walInit s.wal.file).Carries (logBytes (s.kept ++ s.durable)) [] := by
        rw [hfile]
        exact WalManager.Carries.init _
      rw [hrecords] at hsucc ⊢
      by_cases hnone : s.kept ++ s.durable = []
      · rw [if_pos (.inr hnone)]
        exact ⟨hinit, rfl, fun r hr => by rw [hnone] at hr; cases hr⟩
      · rw [if_neg (by rw [hmapped]; simpa using hnone)] at hsucc ⊢
        dsimp only at hsucc ⊢
        split at hsucc
        · rename_i hok
          rw [if_pos hok]
          exact ⟨hinit.congr rfl rfl rfl, rfl, fun r hr => issued_lastTxId hr⟩
        · rename_i hne
          exact absurd hsucc hne
    obtain ⟨hcarries, hactive, hissued⟩ := hwal
    have hlost : ∀ txId, s.committed txId = false →
        committedIn (s.kept ++ s.recent) txId = false := by
      intro txId hnone
      rwa [recent, hpending, List.append_nil]
    have hwon : ∀ txId, s.Lost txId → s.committed txId = false :=
      fun txId hl => (lost_iff h hdown txId).mp hl
    have hchanges := logged_eq_changes h hdown
    have htraced : ChangeLog.Traced s.Lost s.base s.logged := hchanges ▸ h.traced
    exact
      { carries := by rw [hpending]; exact hcarries
        mark := h.mark
        plain := h.plain
        issued := by
          intro _ r hr
          rw [recent, hpending, List.append_nil] at hr
          exact hissued r hr
        running := fun txId hmem => by rw [hactive] at hmem; cases hmem
        nodup := by rw [hactive]; exact List.nodup_nil
        unfinished := fun txId hmem => by rw [hactive] at hmem; cases hmem
        valid := by
          intro e he
          rw [DiskManager.Valid, hdisk.1]
          exact h.valid e he
        traced := by
          refine h.traced.mono fun e _ hl => ⟨?_, hl.2⟩
          rw [hactive]
          exact List.not_mem_nil
        tracks := by
          intro _
          have htracks := ChangeLog.tracks_recover hwon h.disk htraced
          rw [← hbytes, hchanges] at htracks
          refine htracks.mono fun e _ hl => ⟨?_, hlost e.1 hl⟩
          rw [hactive]
          exact List.not_mem_nil
        disk := fun l hl => (hdisk.2 l hl).trans (h.disk l hl)
        down := fun hup => by cases hup }
  · exact
      { h with
        traced := h.traced
        tracks := h.tracks
        down := h.down
        valid := by
          intro e he
          rw [DiskManager.Valid, hdisk.1]
          exact h.valid e he
        disk := fun l hl => (hdisk.2 l hl).trans (h.disk l hl) }

end Disk

/-- **Each step in order keeps the invariant.** -/
theorem inv_step {s : WalSystem} {op : WalOp} (h : Inv s) (hok : op.Ok s) : Inv (s.step op) := by
  cases op with
  | begin io => exact inv_begin h hok
  | update io txId u => exact inv_update h hok
  | commit io io' txId => exact inv_commit h hok
  | abort io txId restored => exact inv_abort h hok
  | flush io => exact inv_flush h hok io
  | writePage pid reached => exact inv_writePage h hok
  | checkpoint io io' truncated => exact inv_checkpoint h hok
  | crash => exact inv_crash h hok
  | recover io => exact inv_recover h hok

theorem inv_start (disk : DiskManager) : Inv (start disk) where
  carries := WalManager.Carries.init []
  mark := .inl rfl
  plain := rfl
  issued := fun _ r hr => by cases hr
  running := fun txId hmem => by cases hmem
  nodup := List.nodup_nil
  unfinished := fun txId hmem => by cases hmem
  valid := fun e he => by cases he
  traced := ChangeLog.Traced.nil
  tracks := fun _ => ChangeLog.Tracks.nil
  disk := fun l _ => rfl
  down := fun hdown => by cases hdown

/-- **All runs keep it.** -/
theorem inv_of_reaches {disk : DiskManager} {s : WalSystem}
    (h : Reaches step (fun s op => op.Ok s) (start disk) s) : Inv s :=
  h.invariant (inv_start disk) fun _ _ hinv hok => inv_step hinv hok

end WalSystem

end OnionRelay.Db
