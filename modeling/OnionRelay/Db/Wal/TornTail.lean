import OnionRelay.Db.Wal.Calls
import OnionRelay.Db.Wal.Recovery

/-!
# A log cut short

A crash may leave any prefix of the log.  As long as the cut falls between two
records, recovery is that of the whole records and the log goes on behind them.
Anywhere else the file is not shortened to its whole records: what is logged behind
the torn one is not found by the next scan (`not_scanned_of_torn`), and the images of
a torn update are read from behind the end of the file.
-/

namespace OnionRelay.Db

open OnionRelay.Lib WalManager

/-- The records that lie wholly within the first `k` bytes. -/
def wholeRecords : Nat → List WalRecord → List WalRecord
  | _, [] => []
  | k, r :: rs => if r.size ≤ k then r :: wholeRecords (k - r.size) rs else []

/-- The first `k` bytes end where a record ends. -/
def EndsRecord (k : Nat) (rs : List WalRecord) : Prop :=
  ∃ n, k = (logBytes (rs.take n)).length

/-! ## The scan behind a cut -/

section Cut

variable {rs : List WalRecord} {k : Nat}

theorem mem_offsets_bounds {pos p : Nat} {rs : List WalRecord} (h : p ∈ offsets pos rs) :
    pos ≤ p ∧ p + walHeaderSize ≤ pos + (logBytes rs).length := by
  induction rs generalizing pos with
  | nil => cases h
  | cons r rs ih =>
    have hsize := r.size_pos
    rw [logBytes_cons, List.length_append, WalRecord.length_bytes]
    rw [offsets] at h
    rcases List.mem_cons.mp h with rfl | h
    · omega
    · have := ih h
      omega

/-- A cut within a log falls on the end of its whole records, or within the record
behind them. -/
theorem wholeRecords_cases (k : Nat) (rs : List WalRecord) (hk : k ≤ (logBytes rs).length) :
    k = (logBytes (wholeRecords k rs)).length ∨
      ∃ r rest, rs = wholeRecords k rs ++ r :: rest ∧ (logBytes (wholeRecords k rs)).length < k ∧
        k < (logBytes (wholeRecords k rs)).length + r.size := by
  induction rs generalizing k with
  | nil =>
    left
    rw [logBytes_nil, List.length_nil] at hk
    rw [wholeRecords, logBytes_nil, List.length_nil]
    omega
  | cons r rs ih =>
    rw [logBytes_cons, List.length_append, WalRecord.length_bytes] at hk
    rw [wholeRecords]
    by_cases hfits : r.size ≤ k
    · rw [if_pos hfits, logBytes_cons, List.length_append, WalRecord.length_bytes]
      rcases ih (k - r.size) (by omega) with hend | ⟨r', rest, hrs, hlo, hhi⟩
      · left
        omega
      · refine .inr ⟨r', rest, ?_, by omega, by omega⟩
        conv_lhs => rw [hrs]
        rfl
    · rw [if_neg hfits, logBytes_nil, List.length_nil]
      rcases Nat.eq_zero_or_pos k with rfl | hpos
      · exact .inl rfl
      · exact .inr ⟨r, rs, rfl, by omega, by omega⟩

theorem wholeRecords_prefixed (k : Nat) (rs : List WalRecord) : wholeRecords k rs <+: rs := by
  induction rs generalizing k with
  | nil => exact List.prefix_rfl
  | cons r rs ih =>
    rw [wholeRecords]
    split
    · exact (List.prefix_cons_inj r).mpr (ih _)
    · exact List.nil_prefix

/-- The whole records of a log cut behind a record are those up to there. -/
theorem wholeRecords_append (pre rest : List WalRecord) :
    wholeRecords (logBytes pre).length (pre ++ rest) = pre := by
  induction pre with
  | nil =>
    cases rest with
    | nil => rfl
    | cons r rest =>
      have hsize := r.size_pos
      rw [walHeaderSize] at hsize
      rw [List.nil_append, logBytes_nil, List.length_nil, wholeRecords, if_neg (by omega)]
  | cons r pre ih =>
    rw [List.cons_append, logBytes_cons, List.length_append, WalRecord.length_bytes, wholeRecords,
      if_pos (by omega), Nat.add_sub_cancel_left, ih]

/-- Behind a torn record nothing is found where it was written. -/
theorem not_scanned_of_torn {slack : Mem} {file tail : List UInt8} {pre : List WalRecord}
    {r : WalRecord} {j : Nat} (hfile : file = logBytes pre ++ (r.bytes.take j ++ tail))
    (hpos : 0 < j) (hj : j < r.size) :
    (logBytes pre).length + j ∉ scan (mapped slack file) file.length 0 := by
  intro hmem
  have hscan := (@scan_records slack file [] (r.bytes.take j ++ tail) pre hfile).1
  rw [List.length_nil] at hscan
  rw [hscan, List.mem_append, Nat.zero_add] at hmem
  rcases hmem with hmem | hmem
  · have := (mem_offsets_bounds hmem).2
    rw [walHeaderSize] at this
    omega
  rw [scan_eq] at hmem
  split at hmem
  · rcases List.mem_cons.mp hmem with heq | hmem
    · omega
    · have hle := le_of_mem_scan hmem
      by_cases hheader : j < walHeaderSize
      · omega
      · -- the header is whole, so the scan goes on behind the record
        have hbytes : r.bytes.take j = headerBytes r.lsn r.prevLsn r.txId r.body.type
            r.body.payload.length ++ r.body.payload.take (j - walHeaderSize) := by
          rw [WalRecord.bytes, List.take_append, List.take_of_length_le
            (by rw [length_headerBytes]; omega), length_headerBytes]
        have hlength : dataLengthAt (mapped slack file) (logBytes pre).length =
            r.body.payload.length := by
          rw [dataLengthAt, readAt_mapped (logBytes pre ++ (toLE 8 r.lsn.toNat ++
              toLE 8 r.prevLsn.toNat ++ toLE 4 r.txId.toNat ++ toLE 4 r.body.type.code))
            (toLE 2 r.body.payload.length) (toLE 2 0 ++ List.replicate 4 0 ++
              (r.body.payload.take (j - walHeaderSize) ++ tail))
            (by rw [hfile, hbytes, headerBytes]; simp only [List.append_assoc]) (by simp) (by simp)]
          exact ofLE_toLE_of_lt r.body.length_payload_lt
        rw [hlength] at hle
        rw [WalRecord.size] at hj
        omega
  · cases hmem

end Cut

/-! ## The property -/

/-- What recovery is to do with a log of which the whole records `rs` are left: make
the updates of the transactions with a COMMIT record among them again and take the
others back. -/
def recoverWhole (io : RecoveryIo) (rs : List WalRecord) (disk : DiskManager) :
    NostrDBError × DiskManager :=
  if io.mapped = false ∨ rs = [] then (.ok, disk) else recoverRecords io rs disk

/-- The log manager that comes up on the first `k` bytes of a log, and the disk. -/
def restart (io : RecoveryIo) (k : Nat) (rs : List WalRecord) (disk : DiskManager) :
    NostrDBError × WalManager × DiskManager :=
  walRecover io (walInit ((logBytes rs).take k)) disk

/-- A log may be cut after `k` bytes: recovery goes by the whole records, whatever
lies behind the file in memory, and what is logged and flushed afterwards is found by
the scan of the next recovery. -/
structure SurvivesCut (rs : List WalRecord) (k : Nat) : Prop where
  applied : ∀ io disk, ((restart io k rs disk).1, (restart io k rs disk).2.2) =
    recoverWhole io (wholeRecords k rs) disk
  inside : ∀ io slack disk, restart { io with slack := slack } k rs disk = restart io k rs disk
  found : ∀ io disk calls slack,
    let wal := (restart io k rs disk).2.1
    let file := ((LogCall.runAll wal calls).flush none).2.file
    List.Forall₂ (fun pos r => pos ∈ scan (mapped slack file) file.length 0 ∧
      ReadsAs (mapped slack file) pos r) (offsets k (LogCall.loggedAll wal calls))
      (LogCall.loggedAll wal calls)

section Restart

variable {rs : List WalRecord} {k : Nat}

/-- The restarted manager appends behind the cut. -/
theorem holds_restart (io : RecoveryIo) (k : Nat) (rs : List WalRecord) (disk : DiskManager) :
    Holds (restart io k rs disk).2.1 ((logBytes rs).take k) [] := by
  have hinit : Holds (walInit ((logBytes rs).take k)) ((logBytes rs).take k) [] := by
    refine ⟨[], [], rfl, ?_⟩
    rw [logBytes_nil, List.append_nil]
    exact Carries.init _
  rw [restart, walRecover]
  split
  · exact hinit
  · dsimp only
    split
    · split
      · exact hinit.congr rfl rfl rfl
      · exact hinit
    · exact hinit

theorem file_after_calls (io : RecoveryIo) (k : Nat) (rs : List WalRecord) (disk : DiskManager)
    (calls : List LogCall) :
    ((LogCall.runAll (restart io k rs disk).2.1 calls).flush none).2.file =
      (logBytes rs).take k ++ logBytes (LogCall.loggedAll (restart io k rs disk).2.1 calls) := by
  have hheld := LogCall.holds_runAll calls (holds_restart io k rs disk)
  rw [List.nil_append] at hheld
  exact hheld.file_flush

/-- A cut behind a whole record does no harm. -/
theorem survivesCut_of_whole {pre rest : List WalRecord} (hrs : rs = pre ++ rest)
    (hk : k = (logBytes pre).length) : SurvivesCut rs k := by
  have hcut : (logBytes rs).take k = logBytes pre := by
    rw [hrs, hk, logBytes_append, List.take_left]
  have hwhole : wholeRecords k rs = pre := by
    rw [hrs, hk, wholeRecords_append]
  have hrestart : ∀ io disk, restart io k rs disk =
      if io.mapped = false ∨ pre = [] then (.ok, walInit (logBytes pre), disk)
      else
        let recovered := recoverRecords io pre disk
        if recovered.1 = .ok then
          (.ok, { walInit (logBytes pre) with
            flushedLsn := lastLsn pre 0
            nextLsn := lastLsn pre 0 + 1
            nextTxId := lastTxId pre + 1 }, recovered.2)
        else (recovered.1, walInit (logBytes pre), recovered.2) := by
    intro io disk
    rw [restart, hcut, walRecover_records pre io (walInit (logBytes pre)) disk rfl]
  refine ⟨fun io disk => ?_, fun io slack disk => ?_, fun io disk calls slack => ?_⟩
  · rw [hrestart, hwhole, recoverWhole]
    split
    · rfl
    · dsimp only
      split
      · rename_i hok
        exact Prod.ext hok.symm rfl
      · rfl
  · rw [hrestart, hrestart]
    rfl
  · have hfile := file_after_calls io k rs disk calls
    dsimp only
    generalize LogCall.loggedAll (restart io k rs disk).2.1 calls = logged at hfile ⊢
    rw [hfile, hcut, hk]
    have hscan := scan_logBytes slack [] (pre ++ logged)
    have hread := (scan_logBytes slack pre logged).2
    rw [List.nil_append, logBytes_nil, List.length_nil, offsets_append, Nat.zero_add] at hscan
    rw [logBytes_append] at hscan hread
    rw [hscan.1]
    exact (List.forall₂_and_left _ _).mpr ⟨fun pos hpos => List.mem_append_right _ hpos, hread⟩

/-- Behind a torn record the next record is not found. -/
theorem not_survivesCut_of_torn {pre rest : List WalRecord} {r : WalRecord}
    (hrs : rs = pre ++ r :: rest) (hlo : (logBytes pre).length < k)
    (hhi : k < (logBytes pre).length + r.size) : ¬ SurvivesCut rs k := by
  intro h
  obtain ⟨j, rfl⟩ := Nat.exists_eq_add_of_lt hlo
  have hcut : (logBytes rs).take ((logBytes pre).length + j + 1) =
      logBytes pre ++ r.bytes.take (j + 1) := by
    rw [hrs, logBytes_append, logBytes_cons, Nat.add_assoc, List.take_length_add_append,
      List.take_append_of_le_length (by rw [WalRecord.length_bytes]; omega)]
  -- a transaction commits on the log that is left
  let disk : DiskManager := ⟨0, 0, 0, fun _ => zeroPage, 0⟩
  have hfound := h.found RecoveryIo.good disk [.commit none none 1] zeroPage
  have hfile := file_after_calls RecoveryIo.good ((logBytes pre).length + j + 1) rs disk
    [.commit none none 1]
  dsimp only at hfound
  generalize (restart RecoveryIo.good ((logBytes pre).length + j + 1) rs disk).2.1 = wal
    at hfound hfile
  obtain ⟨r', hr'⟩ := wal.exists_logRecord_none 1 .commit
  have hlogged : LogCall.loggedAll wal [.commit none none 1] = [r'] := by
    rw [LogCall.loggedAll, LogCall.logged, hr']
    rfl
  rw [hlogged] at hfound hfile
  rw [hcut, List.append_assoc] at hfile
  have hmem := (List.forall₂_cons.mp hfound).1.1
  exact not_scanned_of_torn hfile (Nat.succ_pos j) (by omega) hmem

end Restart

/-- A log of one unfinished transaction, which has changed one byte from 7 to 9. -/
def unfinishedLog : List WalRecord :=
  [⟨1, 0, 1, .begin⟩,
    ⟨2, 1, 1, .update ⟨1, 0, [7], [9], by decide, rfl, by decide, by decide⟩⟩]

/-- A file of two pages that holds a 7 there. -/
def pageOfSeven : DiskManager := ⟨2, 0, 0, fun _ a => if a = 0 then 7 else 0, 0⟩

end OnionRelay.Db
