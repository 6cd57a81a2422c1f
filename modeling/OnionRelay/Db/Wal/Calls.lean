import OnionRelay.Db.Wal.Manager

/-!
# Calls of the log functions

`LogCall` is a call of any of them with its arguments.  All but `wal_flush` log a
record, if they log anything; `LogCall.run_induction` says once what follows for a
property of the manager.  `LogCall.holds_runAll` is such a property: what any calls
log stands behind what was there.
-/

namespace OnionRelay.Db

inductive LogCall
  | begin (io : WalIo)
  | update (io : WalIo) (txId : UInt32) (u : WalUpdate)
  | allocPage (io : WalIo) (txId : UInt32) (pageId : Nat)
  | freePage (io : WalIo) (txId : UInt32) (pageId : Nat)
  | commit (io io' : WalIo) (txId : UInt32)
  | abort (io : WalIo) (txId : UInt32)
  | flush (io : WalIo)

namespace LogCall

/-- The manager after the call. -/
def run (wal : WalManager) : LogCall → WalManager
  | begin io => (wal.logBegin io).2
  | update io txId u => (wal.logUpdate io txId u.pageId u.offset u.new.length u.old u.new).2
  | allocPage io txId pid => (wal.logAllocPage io txId pid).2
  | freePage io txId pid => (wal.logFreePage io txId pid).2
  | commit io io' txId => (wal.logCommit io io' txId).2
  | abort io txId => (wal.logAbort io txId).2
  | flush io => (wal.flush io).2

/-- The records the call puts into the buffer. -/
def logged (wal : WalManager) : LogCall → List WalRecord
  | begin io =>
    if wal.active.length < maxActiveTx then
      (wal.opened.logRecord io wal.nextTxId .begin).1.toList
    else []
  | update io txId u => (wal.logRecord io txId (.update u)).1.toList
  | allocPage io txId pid => (wal.logRecord io txId (.allocPage pid)).1.toList
  | freePage io txId pid => (wal.logRecord io txId (.freePage pid)).1.toList
  | commit io _ txId => (wal.logRecord io txId .commit).1.toList
  | abort io txId => (wal.logRecord io txId .abort).1.toList
  | flush _ => []

def runAll (wal : WalManager) (calls : List LogCall) : WalManager := calls.foldl run wal

def loggedAll : WalManager → List LogCall → List WalRecord
  | _, [] => []
  | wal, call :: calls => call.logged wal ++ loggedAll (call.run wal) calls

end LogCall

open WalManager

section Calls

variable {wal : WalManager} {durable : List UInt8}

/-- **What one record logged, one flush and a new transaction list preserve, every call
preserves.** -/
theorem LogCall.run_induction {P : WalManager → Prop} {Q : WalManager → List WalRecord → Prop}
    (skip : ∀ wal, P wal → Q wal []) (opened : ∀ wal, P wal → P wal.opened)
    (log : ∀ wal io txId body, P wal →
      Q (wal.logRecord io txId body).2 (wal.logRecord io txId body).1.toList)
    (list : ∀ wal rs active, Q wal rs → Q { wal with active := active } rs)
    (flush : ∀ wal rs io, Q wal rs → Q (wal.flush io).2 rs) (h : P wal) (call : LogCall) :
    Q (call.run wal) (call.logged wal) := by
  cases call with
  | begin io =>
    rw [LogCall.run, LogCall.logged, logBegin]
    by_cases hroom : wal.active.length < maxActiveTx
    · rw [if_pos hroom, if_pos hroom]
      have hlog := log wal.opened io wal.nextTxId .begin (opened wal h)
      dsimp only
      rw [writeSimpleRecord_eq io _ _ .begin .begin rfl rfl]
      dsimp only
      split
      · exact list _ _ _ hlog
      · exact hlog
    · rw [if_neg hroom, if_neg hroom]
      exact skip wal h
  | update io txId u =>
    rw [LogCall.run, LogCall.logged, logUpdate_eq, appendRecord_eq]
    exact log wal io txId (.update u) h
  | allocPage io txId pid =>
    have heq := appendRecord_eq io wal txId (.allocPage pid)
    rw [LogCall.run, LogCall.logged, logAllocPage]
    exact (congrArg Prod.snd heq) ▸ log wal io txId (.allocPage pid) h
  | freePage io txId pid =>
    have heq := appendRecord_eq io wal txId (.freePage pid)
    rw [LogCall.run, LogCall.logged, logFreePage]
    exact (congrArg Prod.snd heq) ▸ log wal io txId (.freePage pid) h
  | commit io io' txId =>
    have hlog := log wal io txId .commit h
    rw [LogCall.run, LogCall.logged, logCommit, writeSimpleRecord_eq io _ _ .commit .commit rfl rfl]
    dsimp only
    split
    · exact hlog
    · exact flush _ _ io' (list _ _ _ hlog)
  | abort io txId =>
    have hlog := log wal io txId .abort h
    rw [LogCall.run, LogCall.logged, logAbort, writeSimpleRecord_eq io _ _ .abort .abort rfl rfl]
    dsimp only
    split
    · exact hlog
    · exact list _ _ _ hlog
  | flush io => exact flush wal [] io (skip wal h)

/-- The file and the buffer hold the records `rs` behind `durable`. -/
def Holds (wal : WalManager) (durable : List UInt8) (rs : List WalRecord) : Prop :=
  ∃ flushed kept, rs = flushed ++ kept ∧ wal.Carries (durable ++ logBytes flushed) kept

theorem Holds.congr {wal' : WalManager} {rs : List WalRecord} (h : Holds wal durable rs)
    (hoffset : wal'.fileOffset = wal.fileOffset) (hbuffer : wal'.buffer = wal.buffer)
    (hfile : wal'.file = wal.file) : Holds wal' durable rs := by
  obtain ⟨flushed, kept, hrs, hcarries⟩ := h
  exact ⟨flushed, kept, hrs, hcarries.congr hoffset hbuffer hfile⟩

theorem Holds.logRecord {rs : List WalRecord} (h : Holds wal durable rs) (io : WalIo)
    (txId : UInt32) (body : WalBody) :
    Holds (wal.logRecord io txId body).2 durable
      (rs ++ (wal.logRecord io txId body).1.toList) := by
  obtain ⟨flushed, kept, rfl, hcarries⟩ := h
  obtain ⟨flushed', kept', rfl, hcarries'⟩ := hcarries.logRecord io txId body
  refine ⟨flushed ++ flushed', kept' ++ (wal.logRecord io txId body).1.toList, ?_, ?_⟩
  · simp only [List.append_assoc]
  · rwa [logBytes_append, ← List.append_assoc]

theorem Holds.flush {rs : List WalRecord} (h : Holds wal durable rs) (io : WalIo) :
    Holds (wal.flush io).2 durable rs := by
  obtain ⟨flushed, kept, rfl, hcarries⟩ := h
  cases io with
  | none =>
    refine ⟨flushed ++ kept, [], (List.append_nil _).symm, ?_⟩
    rw [logBytes_append, ← List.append_assoc]
    exact hcarries.flush.2
  | some n => exact ⟨flushed, kept, rfl, hcarries.flush_some n⟩

/-- After a flush that succeeds the file is what was held. -/
theorem Holds.file_flush {rs : List WalRecord} (h : Holds wal durable rs) :
    (wal.flush none).2.file = durable ++ logBytes rs := by
  obtain ⟨flushed, kept, rfl, hcarries⟩ := h
  obtain ⟨n, hfile⟩ := hcarries.flush.2.file
  rw [hfile, logBytes_nil, List.take_nil, List.append_nil, List.append_assoc, logBytes_append]

/-- What a call logs stands behind what was there. -/
theorem LogCall.holds {rs : List WalRecord} (h : Holds wal durable rs) (call : LogCall) :
    Holds (call.run wal) durable (rs ++ call.logged wal) := by
  refine LogCall.run_induction (P := fun wal => Holds wal durable rs)
    (Q := fun wal new => Holds wal durable (rs ++ new)) ?_ ?_ ?_ ?_ ?_ h call
  · intro wal h
    rwa [List.append_nil]
  · exact fun wal h => h.congr rfl rfl rfl
  · exact fun wal io txId body h => h.logRecord io txId body
  · exact fun wal new active h => h.congr rfl rfl rfl
  · exact fun wal new io h => h.flush io

/-- **What any calls log stands behind what was there.** -/
theorem LogCall.holds_runAll (calls : List LogCall) {rs : List WalRecord}
    (h : Holds wal durable rs) :
    Holds (LogCall.runAll wal calls) durable (rs ++ LogCall.loggedAll wal calls) := by
  induction calls generalizing wal rs with
  | nil => rwa [LogCall.loggedAll, List.append_nil]
  | cons call calls ih =>
    have hcall := LogCall.holds h call
    rw [LogCall.loggedAll, ← List.append_assoc]
    exact ih hcall

end Calls

end OnionRelay.Db
