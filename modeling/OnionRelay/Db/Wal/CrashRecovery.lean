import OnionRelay.Db.Wal.Runs

/-!
# Recovery of transactions that do not overlap

Runs in which a transaction begins only when none is active, and in which no
checkpoint is taken: begin, updates, then a commit, an abort or a crash, and recovery
over the same log as often as there are crashes.

`committedEffect` is what recovery should leave: the changes of the committed
transactions, made in the order of their COMMIT records.  Recovery takes the changes
of all other transactions in the log back last of all, also those that a later
transaction has committed over.  `recovered_iff_settled` says that this is harmless
exactly when the log is settled.
-/

namespace OnionRelay.Db

open OnionRelay.Lib

/-- The transactions in the order of their COMMIT records. -/
def commitOrder (rs : List WalRecord) : List UInt32 :=
  rs.filterMap fun r => if r.body = .commit then some r.txId else none

/-- The pages with the changes of the committed transactions made in commit order. -/
def committedEffect (initial : PageByte → UInt8) (rs : List WalRecord) : PageByte → UInt8 :=
  ChangeLog.redoInOrder (commitOrder rs) (changesOf (updatesOf rs)) initial

/-- A step in order of a run without overlapping transactions and checkpoints. -/
def WalOp.OkSerial (s : WalSystem) (op : WalOp) : Prop :=
  op.Ok s ∧ match op with
    | .begin _ => s.wal.running = []
    | .checkpoint _ _ _ => False
    | _ => True

/-- The states of such runs. -/
def SerialRun (disk : DiskManager) : WalSystem → Prop :=
  Reaches WalSystem.step (fun s op => op.OkSerial s) (WalSystem.start disk)

namespace WalSystem

/-- What runs without overlaps keep besides: the ids of the log's records ascend, up
to that of the active transaction, and those of its COMMIT records strictly. -/
structure Serial (initial : PageByte → UInt8) (s : WalSystem) : Prop where
  kept : s.kept = []
  base : s.base = initial
  sorted : s.recent.Pairwise fun r r' => r.txId.toNat ≤ r'.txId.toNat
  commits : (commitOrder s.recent).Pairwise fun txId txId' => txId.toNat < txId'.toNat
  last : ∀ txId ∈ s.wal.running, ∀ r ∈ s.recent, r.txId.toNat ≤ txId.toNat
  single : s.wal.running.length ≤ 1

@[simp] theorem commitOrder_append (rs rs' : List WalRecord) :
    commitOrder (rs ++ rs') = commitOrder rs ++ commitOrder rs' := by
  simp [commitOrder]

theorem mem_commitOrder {rs : List WalRecord} {txId : UInt32} :
    txId ∈ commitOrder rs ↔ committedIn rs txId = true := by
  simp only [commitOrder, List.mem_filterMap, committedIn, List.any_eq_true, decide_eq_true_eq]
  constructor
  · rintro ⟨r, hr, hcommit⟩
    split at hcommit
    · rename_i hbody
      exact ⟨r, hr, hbody, Option.some.inj hcommit⟩
    · cases hcommit
  · rintro ⟨r, hr, hbody, htx⟩
    exact ⟨r, hr, by rw [if_pos hbody, htx]⟩

section Serial

variable {initial : PageByte → UInt8} {s s' : WalSystem} {new : List WalRecord}

/-- A step that adds records of the active transaction keeps the order. -/
theorem Serial.extend (h : Serial initial s) (hinv : Inv s) (hext : Extends s s' new)
    (hnew : new.length ≤ 1) : Serial initial s' := by
  have hkept := hext.kept.trans h.kept
  have hbase := hext.base.trans h.base
  have hone : ∀ txId ∈ s.wal.running, ∀ txId' ∈ s.wal.running, txId = txId' := by
    intro txId hmem txId' hmem'
    obtain ⟨only, hrunning⟩ := List.length_eq_one_iff.mp
      (Nat.le_antisymm h.single (List.length_pos_of_mem hmem))
    rw [hrunning] at hmem hmem'
    rw [List.mem_singleton.mp hmem, List.mem_singleton.mp hmem']
  have hlast : ∀ txId ∈ s'.wal.running, ∀ r ∈ s'.recent, r.txId.toNat ≤ txId.toNat := by
    intro txId hmem r hr
    have hmem := hext.running.subset hmem
    rw [hext.recent] at hr
    rcases List.mem_append.mp hr with hr | hr
    · exact h.last txId hmem r hr
    · rw [hone _ (hext.active r hr) txId hmem]
  have hsingle := (hext.running.length_le).trans h.single
  rcases new with _ | ⟨r, rest⟩
  · have hrecent : s'.recent = s.recent := hext.recent.trans (List.append_nil _)
    exact ⟨hkept, hbase, hrecent ▸ h.sorted, hrecent ▸ h.commits, hlast, hsingle⟩
  · obtain rfl : rest = [] := List.eq_nil_of_length_eq_zero (by simpa using hnew)
    have hactive := hext.active r List.mem_cons_self
    have hle := h.last r.txId hactive
    refine ⟨hkept, hbase, ?_, ?_, hlast, hsingle⟩
    · rw [hext.recent]
      refine List.pairwise_append.mpr ⟨h.sorted, List.pairwise_singleton _ _, ?_⟩
      intro r' hr' r'' hr''
      rw [List.mem_singleton.mp hr'']
      exact hle r' hr'
    · rw [hext.recent, commitOrder_append]
      refine List.pairwise_append.mpr ⟨h.commits, ?_, ?_⟩
      · rw [commitOrder, List.filterMap_cons]
        split
        · exact List.Pairwise.nil
        · exact List.pairwise_singleton _ _
      · -- the transaction had no COMMIT record, and no other has a higher id
        intro txId hmem txId' hmem'
        have htx : txId' = r.txId := by
          obtain ⟨r', hr', hcommit⟩ := List.mem_filterMap.mp hmem'
          rw [List.mem_singleton.mp hr'] at hcommit
          split at hcommit
          · exact (Option.some.inj hcommit).symm
          · cases hcommit
        have hcommitted := mem_commitOrder.mp hmem
        obtain ⟨r', hr', hbody⟩ := List.any_eq_true.mp hcommitted
        obtain ⟨-, rfl⟩ := of_decide_eq_true hbody
        have hun := hinv.unfinished r.txId hactive
        rw [h.kept, List.nil_append] at hun
        have hne : r'.txId.toNat ≠ r.txId.toNat := by
          intro heq
          rw [UInt32.toNat.inj heq, hun] at hcommitted
          cases hcommitted
        have := hle r' hr'
        rw [htx]
        omega

/-- Records that fall away do no harm. -/
theorem Serial.shorten (h : Serial initial s) (dropped : List WalRecord) (hkept : s'.kept = s.kept)
    (hbase : s'.base = s.base) (hrecent : s.recent = s'.recent ++ dropped)
    (hrunning : s'.wal.running = []) : Serial initial s' where
  kept := hkept.trans h.kept
  base := hbase.trans h.base
  sorted := (List.pairwise_append.mp (hrecent ▸ h.sorted)).1
  commits := by
    have hcommits := h.commits
    rw [hrecent, commitOrder_append] at hcommits
    exact (List.pairwise_append.mp hcommits).1
  last := fun txId hmem => by rw [hrunning] at hmem; cases hmem
  single := by rw [hrunning]; exact Nat.zero_le 1

theorem serial_opened (h : Serial initial s) (hinv : Inv s) (hup : s.up = true)
    (hnext : s.wal.nextTxId ≠ 0) (hidle : s.wal.running = []) : Serial initial s.opened := by
  have hrunning : s.opened.wal.running = [s.wal.nextTxId] := by
    rw [WalManager.running, opened, WalManager.opened, List.map_append]
    change s.wal.running ++ _ = _
    rw [hidle]
    rfl
  refine ⟨h.kept, h.base, h.sorted, h.commits, ?_, by rw [hrunning]; exact Nat.le_refl 1⟩
  intro txId hmem r hr
  rw [hrunning] at hmem
  rw [List.mem_singleton.mp hmem]
  rcases hinv.issued hup r (List.mem_append_right _ hr) with hlt | hzero
  · exact Nat.le_of_lt (UInt32.lt_iff_toNat_lt.mp hlt)
  · exact absurd hzero hnext

theorem serial_step (h : Serial initial s) (hinv : Inv s) {op : WalOp} (hok : op.OkSerial s) :
    Serial initial (s.step op) := by
  obtain ⟨hok, hserial⟩ := hok
  cases op with
  | begin io =>
    obtain ⟨hup, -, hnext⟩ := hok
    by_cases hroom : s.wal.active.length < maxActiveTx
    · have hopened := inv_opened hinv hup hnext
      exact (serial_opened h hinv hup hnext hserial).extend hopened (extends_begin hopened hroom)
        (length_logged _ _ _ _)
    · rw [step, if_neg hroom]
      exact h
  | update io txId u => exact h.extend hinv (extends_update hinv hok) (length_logged _ _ _ _)
  | commit io io' txId => exact h.extend hinv (extends_commit hinv hok) (length_logged _ _ _ _)
  | abort io txId restored => exact h.extend hinv (extends_abort hinv hok) (length_logged _ _ _ _)
  | flush io => exact h.extend hinv (Extends.flushed hinv.carries io) (Nat.zero_le 1)
  | writePage pid reached => exact ⟨h.kept, h.base, h.sorted, h.commits, h.last, h.single⟩
  | checkpoint io io' truncated => exact hserial.elim
  | crash =>
    obtain ⟨dropped, hpending⟩ :=
      wholeRecords_prefixed (s.wal.file.length - s.wal.fileOffset) s.pending
    refine h.shorten dropped rfl rfl ?_ rfl
    change s.durable ++ s.pending = s.durable ++ s.survivors ++ [] ++ dropped
    rw [List.append_nil, List.append_assoc]
    exact congrArg (s.durable ++ ·) hpending.symm
  | recover io =>
    rw [step]
    split
    · refine h.shorten [] rfl rfl (List.append_nil _).symm ?_
      rw [WalManager.running, active_walRecover]
      rfl
    · exact ⟨h.kept, h.base, h.sorted, h.commits, h.last, h.single⟩

end Serial

/-- **Runs without overlaps are ordered.** -/
theorem serial_of_run {disk : DiskManager} {s : WalSystem} (h : SerialRun disk s) :
    Inv s ∧ Serial disk.bytes s := by
  refine h.invariant (I := fun s => Inv s ∧ Serial disk.bytes s) ⟨inv_start disk, ?_⟩
    fun s op hs hok => ⟨inv_step hs.1 hok.1, serial_step hs.2 hs.1 hok⟩
  exact ⟨rfl, rfl, List.Pairwise.nil, List.Pairwise.nil, fun txId hmem => (by cases hmem), Nat.zero_le 1⟩

/-- Made in commit order, the changes of committed transactions leave what they leave
in the order of the log. -/
theorem committedEffect_eq {initial : PageByte → UInt8} {s : WalSystem} (h : Serial initial s)
    (hinv : Inv s) (hdown : s.up = false) (l : PageByte) : committedEffect initial s.durable l =
      (ChangeLog.newest (s.logged.filter fun e => s.committed e.1) l).getD (s.base l) := by
  have hrecent : s.recent = s.durable := by
    rw [recent, (hinv.down hdown).1, List.append_nil]
  have hcommits := h.commits
  have hsorted := h.sorted
  rw [hrecent] at hcommits hsorted
  have hlog : (changesOf (updatesOf s.durable)).Pairwise fun e e' => e.1.toNat ≤ e'.1.toNat := by
    refine List.pairwise_map.mpr (List.pairwise_filterMap.mpr (hsorted.imp ?_))
    intro r r' hle e he e' he'
    rw [(update_of_record he).1, (update_of_record he').1]
    exact hle
  rw [committedEffect, ChangeLog.redoInOrder_eq hlog hcommits, ChangeLog.redoAll_apply, h.base]
  have hfilter : (changesOf (updatesOf s.durable)).filter (fun e => e.1 ∈ commitOrder s.durable) =
      s.logged.filter fun e => s.committed e.1 := by
    refine List.filter_congr fun e _ => ?_
    rw [committed, h.kept, List.nil_append]
    rw [Bool.eq_iff_iff, decide_eq_true_iff, mem_commitOrder]
  rw [hfilter]

end WalSystem

open WalSystem

/-- A transaction changes a byte and commits. -/
def oneCommit : List WalOp :=
  [.begin none, .update none 1 (setByte 0 1), .commit none none 1, .crash]

/-- A transaction changes a byte and is aborted, and the byte is restored.  Another
one changes it and commits. -/
def abortThenCommit : List WalOp :=
  [.begin none, .update none 1 (setByte 0 1), .abort none 1 true,
    .begin none, .update none 2 (setByte 0 2), .commit none none 2, .crash]

theorem run_oneCommit : SerialRun twoPages (oneCommit.foldl WalSystem.step (.start twoPages)) := by
  refine Reaches.start.of_along ⟨⟨⟨rfl, ?_, ?_⟩, ?_⟩, ⟨⟨rfl, ?_, ?_, ?_, ?_⟩, trivial⟩,
    ⟨⟨?_, ?_, ?_⟩, trivial⟩, ⟨⟨?_, ?_⟩, trivial⟩, trivial⟩ <;> decide +kernel

theorem run_abortThenCommit :
    SerialRun twoPages (abortThenCommit.foldl WalSystem.step (.start twoPages)) := by
  refine Reaches.start.of_along ⟨⟨⟨rfl, ?_, ?_⟩, ?_⟩, ⟨⟨rfl, ?_, ?_, ?_, ?_⟩, trivial⟩,
    ⟨⟨?_, ?_, ?_⟩, trivial⟩, ⟨⟨?_, ?_, ?_⟩, ?_⟩, ⟨⟨?_, ?_, ?_, ?_, ?_⟩, trivial⟩,
    ⟨⟨?_, ?_, ?_⟩, trivial⟩, ⟨⟨?_, ?_⟩, trivial⟩, trivial⟩ <;> decide +kernel

end OnionRelay.Db
