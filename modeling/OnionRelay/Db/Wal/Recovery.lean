import OnionRelay.Db.Disk
import OnionRelay.Db.Wal.Manager
import OnionRelay.Lib.Recovery

/-!
# Recovery from the log

`wal_recovery.c`.  The two phases collect what they write from the positions a scan
comes to, as images of parts of pages: the redo phase goes through the new ones of
committed transactions, the undo phase through the old ones of the others, last
first.

On a file of whole records this is recovery of the records: `walRecover_records`.
If all goes well, that is `ChangeLog.recover` of the library: `recoverRecords_ok`.
-/

namespace OnionRelay.Db

open OnionRelay.Lib

/-- Bytes to be put on a page. -/
structure PageImage where
  pageId : Nat
  offset : Nat
  bytes : List UInt8

/-- What the calls of a recovery bring: whether the log could be read into memory,
what lies behind it there, whether the array of positions could be mapped, and how
the page reads and writes of the two phases end. -/
structure RecoveryIo where
  mapped : Bool
  slack : Mem
  positionsMapped : Bool
  redo : DiskIo
  undo : DiskIo

def RecoveryIo.good : RecoveryIo := ⟨true, fun _ => 0, true, DiskIo.good, DiskIo.good⟩

section Phases

variable (data : Mem) (size : Nat)

/-- `tx_committed` -/
def txCommitted (txId : UInt32) : Bool :=
  (scan data size 0).any fun pos =>
    typeAt data pos = WalRecordType.commit.code ∧ txIdAt data pos = txId

/-- `find_last_checkpoint` -/
def findLastCheckpoint : Option Nat :=
  ((scan data size 0).filter fun pos => typeAt data pos = WalRecordType.checkpoint.code).getLast?

/-- The loop in which each phase puts its images on their pages.  A page that cannot
be read is left out by the redo phase and ends the undo phase. -/
def applyImages (skip : Bool) (io : DiskIo) :
    List PageImage → DiskManager → NostrDBError × DiskManager
  | [], disk => (.ok, disk)
  | img :: images, disk =>
    match disk.readPage io img.pageId with
    | (.error err, disk) => if skip then applyImages skip io images disk else (err, disk)
    | (.ok page, disk) =>
      match disk.writePage io img.pageId (writeAt page img.offset img.bytes) with
      | (.ok, disk) => applyImages skip io images disk
      | (err, disk) => (err, disk)

/-- `redo_phase` -/
def redoPhase (io : DiskIo) (startPos : Nat) (disk : DiskManager) : NostrDBError × DiskManager :=
  let redone := (scan data size startPos).filter fun pos =>
    typeAt data pos = WalRecordType.update.code ∧ 0 < dataLengthAt data pos ∧
      txCommitted data size (txIdAt data pos)
  applyImages true io
    (redone.map fun pos => ⟨pageIdAt data pos, offsetAt data pos, newDataAt data pos⟩) disk

/-- `undo_phase`.  The counter is 32 bits wide, and the loop runs down from it in a
signed 32-bit variable. -/
def undoPhase (io : DiskIo) (positionsMapped : Bool) (startPos : Nat) (disk : DiskManager) :
    NostrDBError × DiskManager :=
  let positions := (scan data size startPos).filter fun pos =>
    typeAt data pos = WalRecordType.update.code ∧ !txCommitted data size (txIdAt data pos)
  let count := positions.length % 2 ^ 32
  if count = 0 then (.ok, disk)
  else if !positionsMapped then (.mmapFailed, disk)
  else if 2 ^ 31 ≤ count then (.ok, disk)
  else
    applyImages false io ((positions.take count).reverse.map fun pos =>
      ⟨pageIdAt data pos, offsetAt data pos, oldDataAt data pos⟩) disk

/-- The highest transaction id in the log. -/
def maxTxId : UInt32 :=
  (scan data size 0).foldl
    (fun txId pos => if txId < txIdAt data pos then txIdAt data pos else txId) 0

end Phases

/-- `wal_recover` -/
def walRecover (io : RecoveryIo) (wal : WalManager) (disk : DiskManager) :
    NostrDBError × WalManager × DiskManager :=
  -- `wal_mmap_file` returns `NULL`
  if io.mapped = false ∨ wal.file = [] then (.ok, wal, disk)
  else
    let data := mapped io.slack wal.file
    let size := wal.file.length
    let startPos := (findLastCheckpoint data size).getD 0
    match redoPhase data size io.redo startPos disk with
    | (.ok, disk) =>
      match undoPhase data size io.undo io.positionsMapped startPos disk with
      | (.ok, disk) =>
        let lsn := maxLsn data size 0
        (.ok, { wal with
          flushedLsn := lsn
          nextLsn := lsn + 1
          nextTxId := maxTxId data size + 1 }, disk)
      | (err, disk) => (err, wal, disk)
    | (err, disk) => (err, wal, disk)

/-- Recovery is no concern of the transaction list. -/
theorem active_walRecover (io : RecoveryIo) (wal : WalManager) (disk : DiskManager) :
    (walRecover io wal disk).2.1.active = wal.active := by
  rw [walRecover]
  split
  · rfl
  · dsimp only
    split
    · split <;> rfl
    · rfl

/-! ## Recovery of records -/

def committedIn (rs : List WalRecord) (txId : UInt32) : Bool :=
  rs.any fun r => r.body = .commit ∧ r.txId = txId

/-- The updates of a log, under the ids of their transactions. -/
def updatesOf (rs : List WalRecord) : List (UInt32 × WalUpdate) :=
  rs.filterMap fun r => match r.body with
    | .update u => some (r.txId, u)
    | _ => none

/-- An update stands under the id of its record's transaction. -/
theorem update_of_record {r : WalRecord} {e : UInt32 × WalUpdate}
    (h : (match r.body with | .update u => some (r.txId, u) | _ => none) = some e) :
    e.1 = r.txId ∧ r.body = .update e.2 := by
  cases hbody : r.body with
  | update u =>
    rw [hbody] at h
    cases h
    exact ⟨rfl, rfl⟩
  | _ => rw [hbody] at h; cases h

def hasCheckpoint (rs : List WalRecord) : Bool := rs.any fun r => r.body = .checkpoint

/-- The records from the last checkpoint on; all, if there is none. -/
def sinceCheckpoint : List WalRecord → List WalRecord
  | [] => []
  | r :: rs => if hasCheckpoint rs then sinceCheckpoint rs else r :: rs

/-- The records in front of the last checkpoint. -/
def beforeCheckpoint : List WalRecord → List WalRecord
  | [] => []
  | r :: rs => if hasCheckpoint rs then r :: beforeCheckpoint rs else []

def WalUpdate.newImage (u : WalUpdate) : PageImage := ⟨u.pageId, u.offset, u.new⟩

def WalUpdate.oldImage (u : WalUpdate) : PageImage := ⟨u.pageId, u.offset, u.old⟩

/-- The updates of committed transactions since the last checkpoint, and the others. -/
def winnersOf (rs : List WalRecord) : List (UInt32 × WalUpdate) :=
  (updatesOf (sinceCheckpoint rs)).filter fun e => committedIn rs e.1

def losersOf (rs : List WalRecord) : List (UInt32 × WalUpdate) :=
  (updatesOf (sinceCheckpoint rs)).filter fun e => !committedIn rs e.1

def undoRecords (io : DiskIo) (positionsMapped : Bool) (losers : List (UInt32 × WalUpdate))
    (disk : DiskManager) : NostrDBError × DiskManager :=
  let count := losers.length % 2 ^ 32
  if count = 0 then (.ok, disk)
  else if !positionsMapped then (.mmapFailed, disk)
  else if 2 ^ 31 ≤ count then (.ok, disk)
  else applyImages false io ((losers.take count).reverse.map fun e => e.2.oldImage) disk

/-- What the two phases do to the disk for a log of records. -/
def recoverRecords (io : RecoveryIo) (rs : List WalRecord) (disk : DiskManager) :
    NostrDBError × DiskManager :=
  match applyImages true io.redo ((winnersOf rs).map fun e => e.2.newImage) disk with
  | (.ok, disk) => undoRecords io.undo io.positionsMapped (losersOf rs) disk
  | (err, disk) => (err, disk)

@[simp] theorem before_append_since (rs : List WalRecord) :
    beforeCheckpoint rs ++ sinceCheckpoint rs = rs := by
  induction rs with
  | nil => rfl
  | cons r rs ih =>
    rw [beforeCheckpoint, sinceCheckpoint]
    split
    · rw [List.cons_append, ih]
    · rfl

theorem sinceCheckpoint_of_none {rs : List WalRecord} (h : hasCheckpoint rs = false) :
    sinceCheckpoint rs = rs := by
  cases rs with
  | nil => rfl
  | cons r rs =>
    rw [hasCheckpoint, List.any_cons, Bool.or_eq_false_iff] at h
    rw [sinceCheckpoint, if_neg (by rw [hasCheckpoint, h.2]; decide)]

theorem sinceCheckpoint_append {pre rs : List WalRecord} {cp : WalRecord}
    (hcp : cp.body = .checkpoint) (h : hasCheckpoint rs = false) :
    sinceCheckpoint (pre ++ cp :: rs) = cp :: rs := by
  induction pre with
  | nil => rw [List.nil_append, sinceCheckpoint, if_neg (by rw [h]; decide)]
  | cons r pre ih =>
    rw [List.cons_append, sinceCheckpoint, if_pos (by simp [hasCheckpoint, hcp]), ih]

section Records

variable {data : Mem} {size : Nat} {rs : List WalRecord}

theorem any_reads {positions : List Nat} (h : List.Forall₂ (ReadsAs data) positions rs)
    {p : Nat → Bool} {q : WalRecord → Bool} (hpq : ∀ pos r, ReadsAs data pos r → p pos = q r) :
    positions.any p = rs.any q := by
  induction h with
  | nil => rfl
  | cons hread _ ih => rw [List.any_cons, List.any_cons, hpq _ _ hread, ih]

theorem type_eq_iff {pos : Nat} {r : WalRecord} (h : ReadsAs data pos r) (t : WalRecordType) :
    typeAt data pos = t.code ↔ r.body.type = t := by
  rw [h.type]
  exact ⟨fun heq => WalRecordType.code_injective heq, fun heq => congrArg _ heq⟩

theorem WalBody.type_eq_commit (b : WalBody) : b.type = .commit ↔ b = .commit := by
  cases b <;> simp [WalBody.type]

theorem WalBody.type_eq_checkpoint (b : WalBody) : b.type = .checkpoint ↔ b = .checkpoint := by
  cases b <;> simp [WalBody.type]

theorem txCommitted_records (h : List.Forall₂ (ReadsAs data) (scan data size 0) rs)
    (txId : UInt32) : txCommitted data size txId = committedIn rs txId := by
  refine any_reads h fun pos r hread => ?_
  rw [decide_eq_decide, type_eq_iff hread, hread.txId, WalBody.type_eq_commit]

/-- The positions of the updates that a condition on the transaction selects, and the
updates. -/
theorem map_updates_reads {positions : List Nat} (h : List.Forall₂ (ReadsAs data) positions rs)
    {p : Nat → Bool} {q : UInt32 × WalUpdate → Bool} {β : Type} {f : Nat → β}
    {g : UInt32 × WalUpdate → β}
    (hupdate : ∀ pos r u, ReadsAs data pos r → r.body = .update u →
      p pos = q (r.txId, u) ∧ f pos = g (r.txId, u))
    (hother : ∀ pos r, ReadsAs data pos r → r.body.type ≠ .update → p pos = false) :
    (positions.filter p).map f = ((updatesOf rs).filter q).map g := by
  induction h with
  | nil => rfl
  | @cons pos r positions rs hread hrest ih =>
    by_cases htype : ∃ u, r.body = .update u
    · obtain ⟨u, hu⟩ := htype
      obtain ⟨hp, hf⟩ := hupdate pos r u hread hu
      have hcons : updatesOf (r :: rs) = (r.txId, u) :: updatesOf rs := by
        rw [updatesOf, List.filterMap_cons_some (b := (r.txId, u)) (by rw [hu])]
        rfl
      rw [hcons, List.filter_cons, List.filter_cons, hp]
      split
      · rw [List.map_cons, List.map_cons, hf, ih]
      · exact ih
    · have hne : r.body.type ≠ .update := by
        intro htype'
        cases hb : r.body with
        | update u => exact htype ⟨u, hb⟩
        | _ => rw [hb] at htype'; cases htype'
      have hcons : updatesOf (r :: rs) = updatesOf rs := by
        rw [updatesOf, List.filterMap_cons_none]
        · rfl
        · cases hb : r.body <;> first | rfl | exact absurd ⟨_, hb⟩ htype
      rw [hcons, List.filter_cons_of_neg (by rw [hother pos r hread hne]; decide), ih]

/-- The last checkpoint found is where the records since it begin. -/
theorem lastCheckpoint_reads {pos : Nat} (h : List.Forall₂ (ReadsAs data) (offsets pos rs) rs) :
    ((offsets pos rs).filter fun pos => typeAt data pos = WalRecordType.checkpoint.code).getLast? =
      if hasCheckpoint rs then some (pos + (logBytes (beforeCheckpoint rs)).length) else none := by
  induction rs generalizing pos with
  | nil => rfl
  | cons r rs ih =>
    rw [offsets] at h ⊢
    obtain ⟨hread, hrest⟩ := List.forall₂_cons.mp h
    have ih := ih hrest
    have hiff : typeAt data pos = WalRecordType.checkpoint.code ↔ r.body = .checkpoint :=
      (type_eq_iff hread _).trans (WalBody.type_eq_checkpoint r.body)
    have hcons : hasCheckpoint (r :: rs) = (decide (r.body = .checkpoint) || hasCheckpoint rs) := rfl
    rw [beforeCheckpoint, hcons, List.filter_cons]
    cases hany : hasCheckpoint rs with
    | true =>
      rw [hany, if_pos rfl] at ih
      rw [Bool.or_true, if_pos rfl, if_pos rfl, logBytes_cons, List.length_append,
        WalRecord.length_bytes, ← Nat.add_assoc, ← ih]
      split
      · rw [List.getLast?_cons, ih]
        rfl
      · rfl
    | false =>
      rw [hany, if_neg (by decide)] at ih
      rw [Bool.or_false, if_neg (by decide : ¬ false = true)]
      by_cases hcp : r.body = .checkpoint
      · rw [if_pos (by simp [hiff, hcp]), if_pos (by simp [hcp]), List.getLast?_cons, ih]
        rfl
      · rw [if_neg (by simp [hiff, hcp]), if_neg (by simp [hcp]), ih]

end Records

section File

variable (slack : Mem) (rs : List WalRecord)

theorem reads_file : List.Forall₂ (ReadsAs (mapped slack (logBytes rs)))
    (scan (mapped slack (logBytes rs)) (logBytes rs).length 0) rs := by
  have h := scan_logBytes slack [] rs
  rw [List.nil_append, logBytes_nil, List.length_nil] at h
  rw [h.1]
  exact h.2

/-- The scans of the phases start at the last checkpoint. -/
theorem reads_sinceCheckpoint : List.Forall₂ (ReadsAs (mapped slack (logBytes rs)))
    (scan (mapped slack (logBytes rs)) (logBytes rs).length
      ((findLastCheckpoint (mapped slack (logBytes rs)) (logBytes rs).length).getD 0))
    (sinceCheckpoint rs) := by
  have hall := scan_logBytes slack [] rs
  rw [List.nil_append, logBytes_nil, List.length_nil] at hall
  have hstart : (findLastCheckpoint (mapped slack (logBytes rs)) (logBytes rs).length).getD 0 =
      (logBytes (beforeCheckpoint rs)).length := by
    rw [findLastCheckpoint, hall.1, lastCheckpoint_reads hall.2]
    split
    · rw [Option.getD_some, Nat.zero_add]
    · rename_i hnone
      have hbefore := before_append_since rs
      rw [sinceCheckpoint_of_none (by simpa using hnone)] at hbefore
      rw [List.append_left_eq_self.mp hbefore]
      rfl
  have h := scan_logBytes slack (beforeCheckpoint rs) (sinceCheckpoint rs)
  rw [before_append_since] at h
  rw [hstart, h.1]
  exact h.2

theorem maxLsn_reads {data : Mem} {positions : List Nat} {rs : List WalRecord}
    (h : List.Forall₂ (ReadsAs data) positions rs) (lsn : UInt64) :
    positions.foldl (fun lsn pos => laterLsn lsn (lsnAt data pos)) lsn =
      rs.foldl (fun lsn r => laterLsn lsn r.lsn) lsn := by
  induction h generalizing lsn with
  | nil => rfl
  | cons hread _ ih => rw [List.foldl_cons, List.foldl_cons, hread.lsn, ih]

theorem maxTxId_reads {data : Mem} {positions : List Nat} {rs : List WalRecord}
    (h : List.Forall₂ (ReadsAs data) positions rs) (txId : UInt32) :
    positions.foldl
        (fun txId pos => if txId < txIdAt data pos then txIdAt data pos else txId) txId =
      rs.foldl (fun txId r => if txId < r.txId then r.txId else txId) txId := by
  induction h generalizing txId with
  | nil => rfl
  | cons hread _ ih => rw [List.foldl_cons, List.foldl_cons, hread.txId, ih]

/-- The highest LSN and the highest transaction id of records. -/
def lastLsn (rs : List WalRecord) (lsn : UInt64) : UInt64 :=
  rs.foldl (fun lsn r => laterLsn lsn r.lsn) lsn

def lastTxId (rs : List WalRecord) : UInt32 :=
  rs.foldl (fun txId r => if txId < r.txId then r.txId else txId) 0

theorem redoPhase_records (io : DiskIo) (disk : DiskManager) :
    redoPhase (mapped slack (logBytes rs)) (logBytes rs).length io
        ((findLastCheckpoint (mapped slack (logBytes rs)) (logBytes rs).length).getD 0) disk =
      applyImages true io ((winnersOf rs).map fun e => e.2.newImage) disk := by
  rw [redoPhase, winnersOf]
  congr 1
  refine map_updates_reads (reads_sinceCheckpoint slack rs) ?_ ?_
  · intro pos r u hread hu
    obtain ⟨hpage, hoffset, _, _, hnew⟩ := hread.update u hu
    have htype : typeAt (mapped slack (logBytes rs)) pos = WalRecordType.update.code :=
      (type_eq_iff hread _).mpr (by rw [hu]; rfl)
    have hlength : 0 < dataLengthAt (mapped slack (logBytes rs)) pos := by
      rw [hread.dataLength, hu, u.length_payload]
      omega
    refine ⟨?_, ?_⟩
    · rw [hread.txId, txCommitted_records (reads_file slack rs)]
      simp [htype, hlength]
    · rw [hpage, hoffset, hnew]
      rfl
  · intro pos r hread hne
    have htype : ¬ typeAt (mapped slack (logBytes rs)) pos = WalRecordType.update.code :=
      fun h => hne ((type_eq_iff hread _).mp h)
    simp [htype]

theorem undoPhase_records (io : DiskIo) (positionsMapped : Bool) (disk : DiskManager) :
    undoPhase (mapped slack (logBytes rs)) (logBytes rs).length io positionsMapped
        ((findLastCheckpoint (mapped slack (logBytes rs)) (logBytes rs).length).getD 0) disk =
      undoRecords io positionsMapped (losersOf rs) disk := by
  have hmap := map_updates_reads (reads_sinceCheckpoint slack rs)
    (p := fun pos => typeAt (mapped slack (logBytes rs)) pos = WalRecordType.update.code ∧
      !txCommitted (mapped slack (logBytes rs)) (logBytes rs).length
        (txIdAt (mapped slack (logBytes rs)) pos))
    (q := fun e => !committedIn rs e.1)
    (f := fun pos => (⟨pageIdAt (mapped slack (logBytes rs)) pos,
      offsetAt (mapped slack (logBytes rs)) pos, oldDataAt (mapped slack (logBytes rs)) pos⟩ : PageImage))
    (g := fun e => e.2.oldImage) (by
      intro pos r u hread hu
      obtain ⟨hpage, hoffset, _, hold, _⟩ := hread.update u hu
      have htype : typeAt (mapped slack (logBytes rs)) pos = WalRecordType.update.code :=
        (type_eq_iff hread _).mpr (by rw [hu]; rfl)
      refine ⟨?_, ?_⟩
      · rw [hread.txId, txCommitted_records (reads_file slack rs)]
        simp [htype]
      · rw [hpage, hoffset, hold]
        rfl) (by
      intro pos r hread hne
      have htype : ¬ typeAt (mapped slack (logBytes rs)) pos = WalRecordType.update.code :=
        fun h => hne ((type_eq_iff hread _).mp h)
      simp [htype])
  have hlength := congrArg List.length hmap
  rw [List.length_map, List.length_map] at hlength
  rw [undoPhase, undoRecords, losersOf]
  simp only [hlength]
  rw [List.map_reverse, List.map_take, hmap, ← List.map_take, ← List.map_reverse]

/-- **On whole records `wal_recover` is recovery of the records**, whatever lies behind
the file in memory. -/
theorem walRecover_records (io : RecoveryIo) (wal : WalManager) (disk : DiskManager)
    (hfile : wal.file = logBytes rs) : walRecover io wal disk =
      if io.mapped = false ∨ rs = [] then (.ok, wal, disk)
      else
        let recovered := recoverRecords io rs disk
        if recovered.1 = .ok then
          (.ok, { wal with
            flushedLsn := lastLsn rs 0
            nextLsn := lastLsn rs 0 + 1
            nextTxId := lastTxId rs + 1 }, recovered.2)
        else (recovered.1, wal, recovered.2) := by
  have hempty : wal.file = [] ↔ rs = [] := by
    rw [hfile]
    cases rs with
    | nil => simp
    | cons r rs =>
      refine ⟨fun h => ?_, fun h => by cases h⟩
      have hsize := r.size_pos
      have hlen := congrArg List.length h
      rw [logBytes_cons, List.length_append, WalRecord.length_bytes, List.length_nil] at hlen
      rw [walHeaderSize] at hsize
      omega
  by_cases hnone : io.mapped = false ∨ rs = []
  · rw [walRecover, if_pos (by rwa [hempty]), if_pos hnone]
  · rw [walRecover, if_neg (by rwa [hempty]), if_neg hnone]
    simp only [hfile]
    have hlsn : maxLsn (mapped io.slack (logBytes rs)) (logBytes rs).length 0 = lastLsn rs 0 :=
      maxLsn_reads (reads_file io.slack rs) 0
    have htx : maxTxId (mapped io.slack (logBytes rs)) (logBytes rs).length = lastTxId rs :=
      maxTxId_reads (reads_file io.slack rs) 0
    rw [redoPhase_records io.slack rs, hlsn, htx, recoverRecords]
    cases applyImages true io.redo ((winnersOf rs).map fun e => e.2.newImage) disk with
    | mk err redone =>
      cases err <;> try rfl
      simp only [undoPhase_records io.slack rs]
      cases undoRecords io.undo io.positionsMapped (losersOf rs) redone with
      | mk err undone => cases err <;> rfl

end File

/-! ## Recovery of bytes -/

/-- A byte of a page. -/
abbrev PageByte := Nat × Nat

def pageBytes (pages : Nat → PageData) : PageByte → UInt8 := fun l => pages l.1 l.2

abbrev DiskManager.bytes (dm : DiskManager) : PageByte → UInt8 := pageBytes dm.pages

def WalUpdate.change (u : WalUpdate) : Change PageByte UInt8 := fun l =>
  if l.1 = u.pageId ∧ u.offset ≤ l.2 ∧ l.2 < u.offset + u.new.length then
    some (u.old.getD (l.2 - u.offset) 0, u.new.getD (l.2 - u.offset) 0)
  else none

def changesOf {τ : Type} (updates : List (τ × WalUpdate)) : ChangeLog PageByte UInt8 τ :=
  updates.map fun e => (e.1, e.2.change)

theorem bytes_newImage (u : WalUpdate) (pages : Nat → PageData) :
    pageBytes (Function.update pages u.pageId (writeAt (pages u.pageId) u.offset u.new)) =
      u.change.redo (pageBytes pages) := by
  funext l
  rw [Change.redo, WalUpdate.change, pageBytes]
  by_cases hpage : l.1 = u.pageId
  · rw [hpage, Function.update_self, writeAt]
    by_cases hin : u.offset ≤ l.2 ∧ l.2 < u.offset + u.new.length
    · rw [if_pos hin, if_pos ⟨rfl, hin⟩]
      rfl
    · rw [if_neg hin, if_neg (fun h => hin h.2), ← hpage]
      rfl
  · rw [Function.update_of_ne hpage, if_neg (fun h => hpage h.1)]
    rfl

theorem bytes_oldImage (u : WalUpdate) (pages : Nat → PageData) :
    pageBytes (Function.update pages u.pageId (writeAt (pages u.pageId) u.offset u.old)) =
      u.change.undo (pageBytes pages) := by
  funext l
  rw [Change.undo, WalUpdate.change, pageBytes]
  by_cases hpage : l.1 = u.pageId
  · rw [hpage, Function.update_self, writeAt, u.length_eq]
    by_cases hin : u.offset ≤ l.2 ∧ l.2 < u.offset + u.new.length
    · rw [if_pos hin, if_pos ⟨rfl, hin⟩]
      rfl
    · rw [if_neg hin, if_neg (fun h => hin h.2), ← hpage]
      rfl
  · rw [Function.update_of_ne hpage, if_neg (fun h => hpage h.1)]
    rfl

/-- The bytes an image does not reach. -/
def PageImage.Misses (img : PageImage) (l : PageByte) : Prop :=
  l.1 = img.pageId → l.2 < img.offset ∨ img.offset + img.bytes.length ≤ l.2

/-- The bytes of the disk with an image put on its page. -/
def PageImage.over (img : PageImage) (disk : DiskManager) : PageByte → UInt8 :=
  pageBytes (Function.update disk.pages img.pageId
    (writeAt (disk.pages img.pageId) img.offset img.bytes))

theorem PageImage.over_of_misses {img : PageImage} {l : PageByte} (h : img.Misses l)
    (disk : DiskManager) : img.over disk l = disk.bytes l := by
  rw [PageImage.over, DiskManager.bytes, pageBytes, pageBytes]
  by_cases hpage : l.1 = img.pageId
  · rw [hpage, Function.update_self]
    rcases h hpage with hlt | hge
    · exact writeAt_of_lt hlt
    · exact writeAt_of_ge hge
  · rw [Function.update_of_ne hpage]

section Loop

variable {skip : Bool} {io : DiskIo}

/-- **What a round of the loop does**: it puts the image on its page and goes on, or
leaves an unreadable page out and goes on, or ends with an error. -/
theorem applyImages_cons (img : PageImage) (images : List PageImage) (disk : DiskManager) :
    ∃ dm : DiskManager, dm.totalPages = disk.totalPages ∧
      (∀ l, img.Misses l → dm.bytes l = disk.bytes l) ∧
      ((disk.Valid img.pageId ∧ dm.bytes = img.over disk) ∧
          applyImages skip io (img :: images) disk = applyImages skip io images dm ∨
        (skip = true ∧ ((disk.Valid img.pageId → io.read disk.calls = false) ∧ dm.bytes = disk.bytes) ∧
          applyImages skip io (img :: images) disk = applyImages skip io images dm) ∨
        ∃ err, err ≠ .ok ∧ applyImages skip io (img :: images) disk = (err, dm)) := by
  have hread := DiskManager.totalPages_readPage io disk img.pageId
  have hpages := DiskManager.pages_readPage io disk img.pageId
  rw [applyImages]
  cases hr : disk.readPage io img.pageId with
  | mk result dm =>
    rw [hr] at hread hpages
    change dm.totalPages = disk.totalPages at hread
    change dm.pages = disk.pages at hpages
    cases result with
    | error err =>
      obtain ⟨herr, hfailed⟩ := DiskManager.error_of_readPage (congrArg Prod.fst hr)
      have hbytes : dm.bytes = disk.bytes := by rw [DiskManager.bytes, hpages]
      refine ⟨dm, hread, fun l _ => by rw [hbytes], .inr ?_⟩
      cases hskip : skip with
      | true => exact .inl ⟨rfl, ⟨hfailed, hbytes⟩, rfl⟩
      | false => exact .inr ⟨err, herr, rfl⟩
    | ok page =>
      obtain ⟨hvalid, rfl⟩ := DiskManager.page_of_readPage (congrArg Prod.fst hr)
      have hor := DiskManager.pages_writePage_or io dm img.pageId
        (writeAt (disk.pages img.pageId) img.offset img.bytes)
      have htotal := DiskManager.totalPages_writePage io dm img.pageId
        (writeAt (disk.pages img.pageId) img.offset img.bytes)
      have hok := @DiskManager.pages_of_writePage io dm img.pageId
        (writeAt (disk.pages img.pageId) img.offset img.bytes)
      simp only
      cases hw : dm.writePage io img.pageId (writeAt (disk.pages img.pageId) img.offset img.bytes)
      with
      | mk err dm' =>
        rw [hw] at hor htotal hok
        change dm'.totalPages = dm.totalPages at htotal
        refine ⟨dm', htotal.trans hread, fun l hl => ?_, ?_⟩
        · rcases hor l.1 l.2 with hkept | ⟨hpage, hnew⟩
          · exact hkept.trans (by rw [hpages]; rfl)
          · refine hnew.trans ?_
            rw [DiskManager.bytes, pageBytes, hpage]
            rcases hl hpage with hlt | hge
            · exact writeAt_of_lt hlt
            · exact writeAt_of_ge hge
        · cases err with
          | ok =>
            refine .inl ⟨⟨hvalid, ?_⟩, rfl⟩
            rw [DiskManager.bytes, PageImage.over, hok rfl, hpages]
          | _ => exact .inr (.inr ⟨_, by decide, rfl⟩)

theorem totalPages_applyImages (images : List PageImage) (disk : DiskManager) :
    (applyImages skip io images disk).2.totalPages = disk.totalPages := by
  induction images generalizing disk with
  | nil => rfl
  | cons img images ih =>
    obtain ⟨dm, htotal, -, ⟨-, hgo⟩ | ⟨-, -, hgo⟩ | ⟨err, -, hend⟩⟩ :=
      @applyImages_cons skip io img images disk
    · rw [hgo, ih, htotal]
    · rw [hgo, ih, htotal]
    · rw [hend, htotal]

/-- However the loop ends, it changes no byte that no image reaches. -/
theorem bytes_applyImages_of_misses {images : List PageImage} {l : PageByte}
    (h : ∀ img ∈ images, img.Misses l) (disk : DiskManager) :
    (applyImages skip io images disk).2.bytes l = disk.bytes l := by
  induction images generalizing disk with
  | nil => rfl
  | cons img images ih =>
    have ih := ih fun img' himg => h img' (List.mem_cons_of_mem img himg)
    obtain ⟨dm, -, hmiss, ⟨-, hgo⟩ | ⟨-, -, hgo⟩ | ⟨err, -, hend⟩⟩ :=
      @applyImages_cons skip io img images disk
    · rw [hgo, ih, hmiss l (h img List.mem_cons_self)]
    · rw [hgo, ih, hmiss l (h img List.mem_cons_self)]
    · rw [hend]
      exact hmiss l (h img List.mem_cons_self)

/-- If it ends well and no page was left out, all images are on their pages. -/
theorem bytes_applyImages_of_ok {α : Type} {images : List α} {image : α → PageImage}
    {put : α → (PageByte → UInt8) → PageByte → UInt8}
    (hput : ∀ a disk, (image a).over disk = put a disk.bytes) {disk : DiskManager}
    (hread : skip = true → ∀ n, io.read n = true)
    (hvalid : skip = true → ∀ a ∈ images, disk.Valid (image a).pageId)
    (hok : (applyImages skip io (images.map image) disk).1 = .ok) :
    (applyImages skip io (images.map image) disk).2.bytes =
      images.foldl (fun m a => put a m) disk.bytes := by
  induction images generalizing disk with
  | nil => rfl
  | cons a images ih =>
    rw [List.map_cons] at hok ⊢
    obtain ⟨dm, htotal, -, ⟨⟨-, hbytes⟩, hgo⟩ | ⟨hskip, ⟨hfailed, -⟩, -⟩ | ⟨err, herr, hend⟩⟩ :=
      @applyImages_cons skip io (image a) (images.map image) disk
    · rw [hgo] at hok ⊢
      rw [List.foldl_cons, ← hput, ← hbytes]
      refine ih (fun hskip b hb => ?_) hok
      have := hvalid hskip b (List.mem_cons_of_mem a hb)
      rwa [DiskManager.Valid, htotal]
    · have hgood := hread hskip disk.calls
      rw [hfailed (hvalid hskip a List.mem_cons_self)] at hgood
      cases hgood
    · rw [hend] at hok
      exact absurd hok herr

end Loop

theorem misses_of_change_none {u : WalUpdate} {l : PageByte} (h : u.change l = none) :
    u.newImage.Misses l ∧ u.oldImage.Misses l := by
  rw [WalUpdate.change] at h
  split at h
  · cases h
  · rename_i hout
    refine ⟨fun hpage => ?_, fun hpage => ?_⟩
    · by_contra hin
      change ¬ (l.2 < u.offset ∨ u.offset + u.new.length ≤ l.2) at hin
      exact hout ⟨hpage, by omega⟩
    · by_contra hin
      change ¬ (l.2 < u.offset ∨ u.offset + u.old.length ≤ l.2) at hin
      rw [u.length_eq] at hin
      exact hout ⟨hpage, by omega⟩

theorem filter_changesOf {τ : Type} (p : τ → Bool) (updates : List (τ × WalUpdate)) :
    (changesOf updates).filter (fun e => p e.1) = changesOf (updates.filter fun e => p e.1) := by
  rw [changesOf, changesOf, List.filter_map]
  rfl

section RecoverRecords

variable {io : RecoveryIo} {rs : List WalRecord} {disk : DiskManager}

theorem totalPages_undoRecords (losers : List (UInt32 × WalUpdate)) (disk : DiskManager) :
    (undoRecords io.undo io.positionsMapped losers disk).2.totalPages = disk.totalPages := by
  rw [undoRecords]
  split
  · rfl
  · split
    · rfl
    · split
      · rfl
      · exact totalPages_applyImages _ _

theorem totalPages_recoverRecords :
    (recoverRecords io rs disk).2.totalPages = disk.totalPages := by
  have hredo := @totalPages_applyImages true io.redo
    ((winnersOf rs).map fun e => e.2.newImage) disk
  rw [recoverRecords]
  split
  · rename_i redone heq
    rw [heq] at hredo
    exact (totalPages_undoRecords _ _).trans hredo
  · rename_i err redone _ heq
    rw [heq] at hredo
    exact hredo

/-- A byte that the log since the checkpoint does not cover is left alone, however
recovery ends. -/
theorem recoverRecords_untouched {l : PageByte}
    (h : ∀ e ∈ updatesOf (sinceCheckpoint rs), e.2.change l = none) :
    (recoverRecords io rs disk).2.bytes l = disk.bytes l := by
  have hredo : (applyImages true io.redo ((winnersOf rs).map fun e => e.2.newImage) disk).2.bytes l =
      disk.bytes l := by
    refine bytes_applyImages_of_misses (fun img himg => ?_) disk
    obtain ⟨e, he, rfl⟩ := List.mem_map.mp himg
    exact (misses_of_change_none (h e (List.mem_of_mem_filter he))).1
  have hundo : ∀ redone : DiskManager,
      (undoRecords io.undo io.positionsMapped (losersOf rs) redone).2.bytes l = redone.bytes l := by
    intro redone
    rw [undoRecords]
    split
    · rfl
    · split
      · rfl
      · split
        · rfl
        · refine bytes_applyImages_of_misses (fun img himg => ?_) redone
          obtain ⟨e, he, rfl⟩ := List.mem_map.mp himg
          have he := List.mem_of_mem_take (List.mem_reverse.mp he)
          exact (misses_of_change_none (h e (List.mem_of_mem_filter he))).2
  rw [recoverRecords]
  split
  · rename_i redone heq
    rw [heq] at hredo
    exact (hundo redone).trans hredo
  · rename_i err redone _ heq
    rw [heq] at hredo
    exact hredo

/-- **If all goes well, the bytes are those that recovery from the changes of the log
leaves.** -/
theorem recoverRecords_ok (hread : ∀ n, io.redo.read n = true)
    (hvalid : ∀ e ∈ winnersOf rs, disk.Valid e.2.pageId)
    (hfew : (losersOf rs).length < 2 ^ 31) (hok : (recoverRecords io rs disk).1 = .ok) :
    (recoverRecords io rs disk).2.bytes = ChangeLog.recover (committedIn rs)
      (changesOf (updatesOf (sinceCheckpoint rs))) disk.bytes := by
  rw [ChangeLog.recover, filter_changesOf, filter_changesOf (fun txId => !committedIn rs txId),
    ← winnersOf, ← losersOf]
  have hredo := @bytes_applyImages_of_ok true io.redo (UInt32 × WalUpdate) (winnersOf rs)
    (fun e => e.2.newImage) (fun e => e.2.change.redo)
    (fun e disk => bytes_newImage e.2 disk.pages) disk (fun _ => hread)
    (fun _ => hvalid)
  have hfold : (winnersOf rs).foldl (fun m e => e.2.change.redo m) disk.bytes =
      ChangeLog.redoAll (changesOf (winnersOf rs)) disk.bytes := by
    rw [ChangeLog.redoAll, changesOf, List.foldl_map]
  rw [recoverRecords] at hok ⊢
  split at hok
  · rename_i redone heq
    rw [heq] at hredo
    have hredone := (hredo rfl).trans hfold
    rw [undoRecords, Nat.mod_eq_of_lt (by omega)] at hok ⊢
    by_cases hnone : (losersOf rs).length = 0
    · rw [if_pos hnone, List.eq_nil_of_length_eq_zero hnone]
      exact hredone
    · rw [if_neg hnone] at hok ⊢
      cases hpositions : io.positionsMapped with
      | false => rw [hpositions] at hok; cases hok
      | true =>
        have hcount : ¬ 2 ^ 31 ≤ (losersOf rs).length := by omega
        rw [hpositions, if_neg (by decide), if_neg hcount, List.take_length] at hok
        rw [if_neg (by decide), if_neg hcount, List.take_length]
        have hundo := @bytes_applyImages_of_ok false io.undo (UInt32 × WalUpdate)
          (losersOf rs).reverse (fun e => e.2.oldImage) (fun e => e.2.change.undo)
          (fun e disk => bytes_oldImage e.2 disk.pages) redone (fun h => by cases h)
          (fun h => by cases h) hok
        refine hundo.trans ?_
        rw [List.foldl_reverse, ← hredone, ChangeLog.undoAll, changesOf, List.foldr_map]
  · rename_i err redone herr heq
    exact absurd hok herr

end RecoverRecords

end OnionRelay.Db
