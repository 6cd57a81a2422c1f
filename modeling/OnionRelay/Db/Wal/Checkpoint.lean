import OnionRelay.Db.Wal.CrashRecovery

/-!
# Checkpoints while transactions are active

`wal_checkpoint.c`.  A checkpoint writes all pages, those with changes of active
transactions too, and drops the log in front of it or makes recovery start behind it.
What these transactions have changed by then is not taken back any more.

`ChangeLog.RolledBack` says what a byte may hold after recovery: what the committed
transactions alone had left there, at a moment not earlier than the first change of it by
another one.  `rolledBack_iff` says for which contents of the last checkpoint this
holds, `rolledBack_of_quiet` that it does in runs whose checkpoints are taken when all
transactions with updates have committed.
-/

namespace OnionRelay.Db

open OnionRelay.Lib

/-- The states of all runs in order, with any transactions and any checkpoints. -/
def WalRun (disk : DiskManager) : WalSystem → Prop :=
  Reaches WalSystem.step (fun s op => op.Ok s) (WalSystem.start disk)

/-- The transaction has a COMMIT record that the file holds or held. -/
def Fate.won (fate : Fate) : Bool := fate = .committed

/-- A checkpoint is quiet if all transactions with updates have committed. -/
def WalOp.OkQuiet (s : WalSystem) (op : WalOp) : Prop :=
  op.Ok s ∧ match op with
    | .checkpoint _ _ _ => ∀ e ∈ s.history, e.1 = .committed
    | _ => True

/-- The states of the runs with quiet checkpoints. -/
def QuietRun (disk : DiskManager) : WalSystem → Prop :=
  Reaches WalSystem.step (fun s op => op.OkQuiet s) (WalSystem.start disk)

namespace WalSystem

/-- What the last checkpoint left on the pages is what was logged in front of it, up to
the changes of lost transactions. -/
def PastTracked (initial : PageByte → UInt8) (s : WalSystem) : Prop :=
  ChangeLog.Tracks (· = Fate.lost) initial s.past s.base

section Past

variable {initial : PageByte → UInt8} {s : WalSystem}

theorem fate_of_lost {txId : UInt32} (h : s.Lost txId) : s.fate txId = .lost := by
  rw [fate, if_neg (by rw [h.2]; decide), if_neg h.1]

theorem tracked_resolved (h : PastTracked initial s) :
    ChangeLog.Tracks (· = Fate.lost) initial s.resolvedPast s.base := by
  refine ChangeLog.Tracks.map h fun t hlost => ?_
  rw [hlost]
  rfl

theorem tracked_history (hinv : Inv s) (hup : s.up = true) (h : PastTracked initial s) :
    ChangeLog.Tracks (· = Fate.lost) initial s.history (pageBytes s.mem) :=
  (tracked_resolved h).trans ((hinv.tracks hup).map fun _ => fate_of_lost)

/-- Only checkpoints and recovery touch what is kept of the past. -/
theorem past_step (s : WalSystem) {op : WalOp} (hcp : ∀ io io' t, op ≠ .checkpoint io io' t)
    (hrec : ∀ io, op ≠ .recover io) : (s.step op).past = s.past ∧ (s.step op).base = s.base := by
  have hflushed : ∀ io (s : WalSystem), (s.flushed io).past = s.past ∧
      (s.flushed io).base = s.base := by
    intro io s
    obtain ⟨_, hbase, _, _, _, hpast, _⟩ := flushed_frame io s
    exact ⟨hpast, hbase⟩
  have hlog : ∀ io txId body (s : WalSystem), (s.log io txId body).past = s.past ∧
      (s.log io txId body).base = s.base := by
    intro io txId body s
    change (s.roomFor io body).past = s.past ∧ (s.roomFor io body).base = s.base
    rw [roomFor]
    split
    · exact hflushed io s
    · exact ⟨rfl, rfl⟩
  cases op with
  | begin io =>
    rw [step]
    split
    · dsimp only
      split
      · exact hlog io s.wal.nextTxId .begin s.opened
      · exact hlog io s.wal.nextTxId .begin s.opened
    · exact ⟨rfl, rfl⟩
  | update io txId u => exact hlog io txId (.update u) s
  | commit io io' txId =>
    rw [step]
    split
    · exact hlog io txId .commit s
    · obtain ⟨hpast, hbase⟩ := hflushed io' ((s.log io txId .commit).closed txId)
      exact ⟨hpast.trans (hlog io txId .commit s).1, hbase.trans (hlog io txId .commit s).2⟩
  | abort io txId restored =>
    rw [step]
    split
    · exact hlog io txId .abort s
    · exact hlog io txId .abort s
  | flush io => exact hflushed io s
  | writePage pid reached => exact ⟨rfl, rfl⟩
  | checkpoint io io' truncated => exact absurd rfl (hcp io io' truncated)
  | crash => exact ⟨rfl, rfl⟩
  | recover io => exact absurd rfl (hrec io)

/-- **Each step keeps track of the past.** -/
theorem pastTracked_step (hinv : Inv s) (h : PastTracked initial s) {op : WalOp} (hok : op.Ok s) :
    PastTracked initial (s.step op) := by
  by_cases hcp : ∃ io io' t, op = .checkpoint io io' t
  · obtain ⟨io, io', truncated, rfl⟩ := hcp
    obtain ⟨hup, rfl, rfl⟩ := hok
    obtain ⟨hok, _⟩ := hinv.carries.checkpoint truncated
    rw [step, checkpointed, if_pos hok]
    exact tracked_history hinv hup h
  by_cases hrec : ∃ io, op = .recover io
  · obtain ⟨io, rfl⟩ := hrec
    rw [step]
    split
    · exact tracked_resolved h
    · exact h
  · obtain ⟨hpast, hbase⟩ := s.past_step (fun io io' t heq => hcp ⟨io, io', t, heq⟩)
      fun io heq => hrec ⟨io, heq⟩
    rw [PastTracked, hpast, hbase]
    exact h

theorem pastTracked_of_run {disk : DiskManager} (h : WalRun disk s) :
    Inv s ∧ PastTracked disk.bytes s :=
  h.invariant (I := fun s => Inv s ∧ PastTracked disk.bytes s)
    ⟨inv_start disk, ChangeLog.Tracks.nil⟩
    fun _ _ hs hok => ⟨inv_step hs.1 hok, pastTracked_step hs.1 hs.2 hok⟩

theorem won_fate (hinv : Inv s) (hdown : s.up = false) (txId : UInt32) :
    (s.fate txId).won = s.committed txId := by
  obtain ⟨hpending, hrunning, _⟩ := hinv.down hdown
  have hcommitted : committedIn (s.kept ++ s.recent) txId = s.committed txId := by
    rw [recent, hpending, List.append_nil, committed]
  rw [fate, hcommitted, hrunning]
  cases s.committed txId <;> rfl

/-- **Recovery rolls a byte back exactly if the last checkpoint had, or if a committed
change of it comes in front of all others since.** -/
theorem rolledBack_recovered_iff (hinv : Inv s) {io : RecoveryIo} (hok : (WalOp.recover io).Ok s)
    (hsucc : (walRecover io (walInit s.wal.file) s.disk).1 = .ok) (l : PageByte) :
    ChangeLog.RolledBack Fate.won initial s.history l
        ((walRecover io (walInit s.wal.file) s.disk).2.2.bytes l) ↔
      (ChangeLog.newest (ChangeLog.sound s.committed l s.logged) l = none →
        ChangeLog.RolledBack Fate.won initial s.history l (s.base l)) := by
  have hdown := hok.1
  have hchanges := logged_eq_changes hinv hdown
  have htraced : ChangeLog.Traced s.Lost s.base s.logged := hchanges ▸ hinv.traced
  have hwon : ∀ txId, s.Lost txId → s.committed txId = false :=
    fun txId hlost => (lost_iff hinv hdown txId).mp hlost
  have hsound : ChangeLog.newest
      (ChangeLog.sound Fate.won l (s.logged.map fun e => (s.fate e.1, e.2))) l =
        ChangeLog.newest (ChangeLog.sound s.committed l s.logged) l := by
    rw [ChangeLog.sound_map fun e _ => won_fate hinv hdown e.1, ChangeLog.newest_map]
  rw [bytes_recovered hinv hok hsucc, ChangeLog.recover_of_traced hwon hinv.disk htraced]
  cases hnew : ChangeLog.newest (ChangeLog.sound s.committed l s.logged) l with
  | none => exact ⟨fun h _ => h, fun h => h rfl⟩
  | some v =>
    refine ⟨fun _ hnone => (by cases hnone), fun _ => ?_⟩
    rw [history, ← hchanges]
    exact ChangeLog.rolledBack_of_sound (hsound.trans hnew)

end Past

/-- All updates in front of the last checkpoint have been committed. -/
def PastCommitted (s : WalSystem) : Prop := ∀ e ∈ s.past, e.1 = .committed

theorem resolved_of_committed {s : WalSystem} (h : PastCommitted s) :
    ∀ e ∈ s.resolvedPast, e.1 = .committed := by
  intro e he
  obtain ⟨e', he', rfl⟩ := List.mem_map.mp he
  change s.resolve e'.1 = .committed
  rw [h e' he']
  rfl

theorem pastCommitted_of_run {disk : DiskManager} {s : WalSystem} (h : QuietRun disk s) :
    WalRun disk s ∧ PastCommitted s := by
  refine h.invariant (I := fun s => WalRun disk s ∧ PastCommitted s)
    ⟨Reaches.start, fun e he => by cases he⟩ fun s op hs hok => ⟨hs.1.next hok.1, ?_⟩
  obtain ⟨hok, hquiet⟩ := hok
  by_cases hcp : ∃ io io' t, op = .checkpoint io io' t
  · obtain ⟨io, io', truncated, rfl⟩ := hcp
    obtain ⟨_, rfl, rfl⟩ := hok
    obtain ⟨hok, _⟩ := (pastTracked_of_run hs.1).1.carries.checkpoint truncated
    rw [step, checkpointed, if_pos hok]
    exact hquiet
  by_cases hrec : ∃ io, op = .recover io
  · obtain ⟨io, rfl⟩ := hrec
    rw [step]
    split
    · exact resolved_of_committed hs.2
    · exact hs.2
  · obtain ⟨hpast, _⟩ := s.past_step (fun io io' t heq => hcp ⟨io, io', t, heq⟩)
      fun io heq => hrec ⟨io, heq⟩
    rw [PastCommitted, hpast]
    exact hs.2

end WalSystem

open WalSystem

/-- **Quiet checkpoints do no harm.** -/
theorem rolledBack_of_quiet {disk : DiskManager} {s : WalSystem} (hrun : QuietRun disk s)
    {io : RecoveryIo} (hok : (WalOp.recover io).Ok s)
    (hsucc : (walRecover io (walInit s.wal.file) s.disk).1 = .ok) (l : PageByte) :
    ChangeLog.RolledBack Fate.won disk.bytes s.history l
      ((walRecover io (walInit s.wal.file) s.disk).2.2.bytes l) := by
  obtain ⟨hrun, hpast⟩ := pastCommitted_of_run hrun
  obtain ⟨hinv, htracked⟩ := pastTracked_of_run hrun
  have hresolved := resolved_of_committed hpast
  refine (rolledBack_recovered_iff hinv hok hsucc l).mpr fun hnone => ?_
  have hbase : s.base l = (ChangeLog.newest s.resolvedPast l).getD (disk.bytes l) :=
    tracked_resolved htracked l fun e he _ hlost => by rw [hresolved e he] at hlost; cases hlost
  rw [hbase, history, ← logged_eq_changes hinv hok.1]
  refine ChangeLog.rolledBack_of_winners (fun e he => by rw [hresolved e he]; rfl) ?_
  rw [ChangeLog.sound_map fun e _ => won_fate hinv hok.1 e.1, ChangeLog.newest_map]
  exact hnone

/-- A transaction commits in front of a checkpoint, another one changes the same byte
behind it. -/
def checkpointBetween : List WalOp :=
  [.begin none, .update none 1 (setByte 0 1), .commit none none 1, .checkpoint none none false,
    .begin none, .update none 2 (setByte 1 2), .flush none, .crash]

/-- A transaction changes a byte, and a checkpoint is taken while it is active. -/
def checkpointWithin : List WalOp :=
  [.begin none, .update none 1 (setByte 0 1), .checkpoint none none true, .crash]

theorem run_checkpointBetween :
    QuietRun twoPages (checkpointBetween.foldl WalSystem.step (.start twoPages)) := by
  refine Reaches.start.of_along ⟨⟨⟨rfl, ?_, ?_⟩, trivial⟩, ⟨⟨rfl, ?_, ?_, ?_, ?_⟩, trivial⟩,
    ⟨⟨?_, ?_, ?_⟩, trivial⟩, ⟨⟨?_, ?_, ?_⟩, ?_⟩, ⟨⟨?_, ?_, ?_⟩, trivial⟩,
    ⟨⟨?_, ?_, ?_, ?_, ?_⟩, trivial⟩, ⟨?up, trivial⟩, ⟨⟨?_, ?_⟩, trivial⟩, trivial⟩
  case up =>
    change WalSystem.up _ = true
    decide +kernel
  all_goals decide +kernel

theorem run_checkpointWithin :
    WalRun twoPages (checkpointWithin.foldl WalSystem.step (.start twoPages)) := by
  refine Reaches.start.of_along ⟨⟨rfl, ?_, ?_⟩, ⟨rfl, ?_, ?_, ?_, ?_⟩, ⟨?_, ?_, ?_⟩, ⟨?_, ?_⟩,
    trivial⟩ <;> decide +kernel

end OnionRelay.Db
