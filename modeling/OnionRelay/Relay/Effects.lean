import OnionRelay.Relay.Deletion

/-!
# What an EVENT message does

`handleMessage` for each class of kinds, then for all of them at once
(`handleMessage_cases`): the handler first clears live events of the author, then
rejects the message or hands it to `nostr_db_write_event`.

`seenByCheck` is what a check sees; it is empty when scratch memory is refused,
since the check is then skipped.
-/

namespace OnionRelay.Relay

open OnionRelay.Lib OnionRelay.Db

variable (engine : QueryEngine) (env : Env)

/-! ## Storing -/

/-- The verdict `store_and_broadcast` reports for a result of the write. -/
def accepted (err : NostrDBError) : Bool := err = .ok || err = .duplicate

theorem run_storeAndBroadcast (event : NostrEventEntity) (w : World) : ∃ stored message,
    (storeAndBroadcast event).run (answer engine env) w =
      (stored, { w with
        log := (w.log.writeEvent (env.storage w.storageCalls) event).2
        replies := w.replies ++
          [⟨event.id, accepted (w.log.writeEvent (env.storage w.storageCalls) event).1, message⟩]
        storageCalls := w.storageCalls + 1 }) := by
  have hwrite : (Prog.call (S := RelaySig) (.writeEvent event)).run (answer engine env) w =
      ((w.log.writeEvent (env.storage w.storageCalls) event).1,
        { w with
          log := (w.log.writeEvent (env.storage w.storageCalls) event).2
          storageCalls := w.storageCalls + 1 }) := rfl
  simp only [storeAndBroadcast, Prog.run_bind, hwrite]
  cases (w.log.writeEvent (env.storage w.storageCalls) event).1 <;> exact ⟨_, _, rfl⟩

/-! ## The checks -/

/-- The events a check sees. -/
def seenByCheck (engine : QueryEngine) (env : Env) (pubkey : Bytes 32) (event : NostrEventEntity)
    (w : World) : List NostrEventEntity :=
  if env.memory w.memoryCalls && env.memory (w.memoryCalls + 1) && env.memory (w.memoryCalls + 2)
  then readBack w.log (nostrDbQueryExecute engine ⟨pubkey, event.kind, 100⟩ w.log) .zero
  else []

/-- Scratch memory is granted to the check of the next message. -/
def MemoryGranted (env : Env) (w : World) : Prop :=
  env.memory w.memoryCalls = true ∧ env.memory (w.memoryCalls + 1) = true ∧
    env.memory (w.memoryCalls + 2) = true

theorem memoryGranted_calm (w : World) : MemoryGranted .calm w := ⟨rfl, rfl, rfl⟩

/-- A check with scratch memory sees every live event of the author and kind when
there are at most 100. -/
theorem mem_seenByCheck {engine : QueryEngine} (hexact : engine.Exact) {env : Env}
    {pubkey : Bytes 32} {event : NostrEventEntity} {w : World} (hmem : MemoryGranted env w)
    (hfew : (w.log.chains pubkey event.kind).flatten.length ≤ 100) {r : EventRecord}
    (hr : w.log.Live r) (hpubkey : r.pubkey = pubkey) (hkind : r.kind = event.kind) :
    ∃ out, eventDeserialize r out ∈ seenByCheck engine env pubkey event w := by
  obtain ⟨offset, hoffset⟩ := List.mem_iff_getElem?.mp hr.1
  have hmem' : offset ∈ nostrDbQueryExecute engine ⟨pubkey, event.kind, 100⟩ w.log := by
    rw [mem_nostrDbQueryExecute]
    refine hexact.complete ⟨pubkey, event.kind, 100⟩ w.log (Nat.zero_lt_succ 99) hfew offset ?_
    exact (w.log.mem_chain pubkey event.kind offset).mpr ⟨r, hoffset, hr.2, hpubkey, hkind⟩
  rw [seenByCheck, hmem.1, hmem.2.1, hmem.2.2]
  exact exists_mem_readBack .zero hmem' hoffset hr.2

/-- What a check sees are live records of the author and kind. -/
theorem live_of_mem_seenByCheck {engine : QueryEngine} (hsound : engine.Sound) {env : Env}
    {pubkey : Bytes 32} {event x : NostrEventEntity} {w : World}
    (hx : x ∈ seenByCheck engine env pubkey event w) :
    ∃ r out, w.log.Live r ∧ (r.pubkey = pubkey ∧ r.kind = event.kind) ∧
      x = eventDeserialize r out := by
  rw [seenByCheck] at hx
  split at hx
  · exact readBack_of_sound hsound hx
  · exact absurd hx (by simp)

theorem run_findPredecessors (pubkey : Bytes 32) (event : NostrEventEntity) (w : World) :
    ∃ offsets memoryCalls, (findPredecessors pubkey event.kind).run (answer engine env) w =
        (offsets, { w with memoryCalls := memoryCalls }) ∧ offsets.Nodup ∧
      readBack w.log offsets .zero = seenByCheck engine env pubkey event w := by
  simp only [findPredecessors, Prog.run_bind, Prog.run_ite, Prog.run_pure, run_createResult,
    run_executeQuery, run_mmapEntity, World.tick, seenByCheck]
  cases hmem : env.memory w.memoryCalls with
  | false => exact ⟨[], _, rfl, List.nodup_nil, rfl⟩
  | true =>
    cases hmem' : env.memory (w.memoryCalls + 1) with
    | false => exact ⟨[], _, rfl, List.nodup_nil, rfl⟩
    | true =>
      have hnodup := nodup_nostrDbQueryExecute engine ⟨pubkey, event.kind, 100⟩ w.log
      cases hoffsets : nostrDbQueryExecute engine ⟨pubkey, event.kind, 100⟩ w.log with
      | nil => exact ⟨[], _, rfl, List.nodup_nil, by simp [readBack]⟩
      | cons offset offsets =>
        rw [hoffsets] at hnodup
        cases hmem'' : env.memory (w.memoryCalls + 2) with
        | false => exact ⟨[], w.memoryCalls + 3, by simp, List.nodup_nil, rfl⟩
        | true =>
          exact ⟨offset :: offsets, w.memoryCalls + 3, by simp, hnodup, by simp⟩

/-- The world after a check: another log, and a reply if the message is rejected. -/
def World.checked (w : World) (event : NostrEventEntity) (rejected : Bool) (log : EventLog)
    (memoryCalls : Nat) : World :=
  { w with
    log := log
    memoryCalls := memoryCalls
    replies := if rejected then w.replies ++ [⟨event.id, false, "duplicate: have a newer event"⟩]
      else w.replies }

theorem run_handleReplaceableCheck {event : NostrEventEntity} {pubkey : Bytes 32}
    (hpubkey : hexStrToBin 32 event.pubkey = some pubkey) (w : World) :
    ∃ log memoryCalls,
      (handleReplaceableCheck event).run (answer engine env) w =
        (!(seenByCheck engine env pubkey event w).any (supersedes event),
          w.checked event ((seenByCheck engine env pubkey event w).any (supersedes event)) log
            memoryCalls) ∧
      Deleted (Among (if (seenByCheck engine env pubkey event w).any (supersedes event) then []
        else seenByCheck engine env pubkey event w)) w.log log := by
  obtain ⟨offsets, calls, hfind, hnodup, hseen⟩ :=
    run_findPredecessors engine env pubkey event w
  simp only [handleReplaceableCheck, hpubkey, Prog.run_bind, hfind, ← hseen]
  cases offsets with
  | nil => exact ⟨w.log, calls, rfl, deleted_among_nil w.log⟩
  | cons offset offsets =>
    obtain ⟨last, hfirst⟩ := run_replaceableFirstPass engine env event
      (offset :: offsets) .zero { w with memoryCalls := calls }
    rw [if_neg (by simp)]
    simp only [Prog.run_bind, hfirst]
    cases hany : (readBack w.log (offset :: offsets) .zero).any (supersedes event) with
    | true =>
      refine ⟨w.log, calls, ?_, deleted_among_nil w.log⟩
      rw [if_pos (by simp)]
      rfl
    | false =>
      obtain ⟨log, hsecond, hdel⟩ := run_replaceableSecondPass engine env
        (offset :: offsets) last { w with memoryCalls := calls } hnodup
      refine ⟨log, calls, ?_, ?_⟩
      · rw [if_neg (by simp)]
        simp only [Prog.run_bind, hsecond]
        rfl
      · exact hdel.congr fun id => among_congr (ids_readBack w.log _ last .zero) id

theorem run_handleAddressableCheck {event : NostrEventEntity} {pubkey : Bytes 32}
    (hpubkey : hexStrToBin 32 event.pubkey = some pubkey) (w : World) :
    ∃ log memoryCalls,
      (handleAddressableCheck event).run (answer engine env) w =
        (!(matching (getDTagValue event) (seenByCheck engine env pubkey event w)).any
            (supersedes event),
          w.checked event ((matching (getDTagValue event)
            (seenByCheck engine env pubkey event w)).any (supersedes event)) log memoryCalls) ∧
      Deleted (Among ((matching (getDTagValue event) (seenByCheck engine env pubkey event w)).takeWhile
        (fun x => !supersedes event x))) w.log log := by
  obtain ⟨offsets, calls, hfind, hnodup, hseen⟩ :=
    run_findPredecessors engine env pubkey event w
  simp only [handleAddressableCheck, hpubkey, Prog.run_bind, hfind, ← hseen]
  cases offsets with
  | nil => exact ⟨w.log, calls, rfl, deleted_among_nil w.log⟩
  | cons offset offsets =>
    obtain ⟨log, hrun, hdel⟩ := run_addressableLoop engine env event
      (getDTagValue event) (offset :: offsets) .zero { w with memoryCalls := calls } hnodup
    refine ⟨log, calls, ?_, hdel⟩
    rw [if_neg (by simp)]
    simp only [Prog.run_bind, hrun, World.checked]
    cases (matching (getDTagValue event) (readBack w.log (offset :: offsets) .zero)).any
        (supersedes event) <;> rfl

/-! ## Whole messages -/

/-- How a message ends once `log` is what its deletions left: rejected, or with
the verdict of the write. -/
structure Outcome (env : Env) (event : NostrEventEntity) (rejected : Bool) (log : EventLog)
    (w w' : World) : Prop where
  of_rejected : rejected = true → w'.log = log ∧ ∃ message, w'.replies = [⟨event.id, false, message⟩]
  of_stored : rejected = false →
    w'.log = (log.writeEvent (env.storage w.storageCalls) event).2 ∧ ∃ message, w'.replies =
      [⟨event.id, accepted (log.writeEvent (env.storage w.storageCalls) event).1, message⟩]

theorem outcome_stored {event : NostrEventEntity} {log : EventLog} {w w' : World}
    (hlog : w'.log = log) (hreplies : w'.replies = []) (hcalls : w'.storageCalls = w.storageCalls) :
    Outcome env event false log w ((storeAndBroadcast event).run (answer engine env) w').2 := by
  obtain ⟨stored, message, hrun⟩ := run_storeAndBroadcast engine env event w'
  rw [hrun, hcalls, hlog]
  exact ⟨by simp, fun _ => ⟨rfl, message, by rw [hreplies]; rfl⟩⟩

/-- A regular message is written. -/
theorem handleMessage_regular {event : NostrEventEntity} (h5 : event.kind ≠ 5)
    (hr : isReplaceableKind event.kind = false) (ha : isAddressableKind event.kind = false)
    (w : World) : Outcome env event false w.log w (handleMessage engine env true event w) := by
  have hhandle : handleEventMessage true event = storeAndBroadcast event := by
    simp [handleEventMessage, h5, hr, ha]
  rw [handleMessage, hhandle]
  exact outcome_stored engine env rfl rfl rfl

theorem kind_of_replaceable {kind : Nat} (h : isReplaceableKind kind = true) :
    kind ≠ 5 ∧ isAddressableKind kind = false := by
  simp only [isReplaceableKind, Bool.or_eq_true, Bool.and_eq_true, decide_eq_true_eq] at h
  refine ⟨by omega, ?_⟩
  simp only [isAddressableKind, Bool.and_eq_false_iff, decide_eq_false_iff_not]
  omega

theorem kind_of_addressable {kind : Nat} (h : isAddressableKind kind = true) :
    kind ≠ 5 ∧ isReplaceableKind kind = false := by
  simp only [isAddressableKind, Bool.and_eq_true, decide_eq_true_eq] at h
  refine ⟨by omega, ?_⟩
  simp only [isReplaceableKind, Bool.or_eq_false_iff, Bool.and_eq_false_iff,
    decide_eq_false_iff_not]
  omega

section Checks

variable {event : NostrEventEntity} {pubkey : Bytes 32}

/-- **A replaceable message** is rejected if an event seen supersedes it; else
all events seen are deleted before it is written. -/
theorem handleMessage_replaceable (hpubkey : hexStrToBin 32 event.pubkey = some pubkey)
    (hr : isReplaceableKind event.kind = true) (w : World) :
    ∃ log, Deleted (Among (if (seenByCheck engine env pubkey event w).any (supersedes event) then []
        else seenByCheck engine env pubkey event w)) w.log log ∧
      Outcome env event ((seenByCheck engine env pubkey event w).any (supersedes event)) log w
        (handleMessage engine env true event w) := by
  obtain ⟨h5, ha⟩ := kind_of_replaceable hr
  obtain ⟨log, calls, hcheck, hdel⟩ := run_handleReplaceableCheck engine env
    hpubkey { w with replies := [] }
  have hseen : seenByCheck engine env pubkey event { w with replies := [] } =
      seenByCheck engine env pubkey event w := rfl
  rw [hseen] at hcheck hdel
  refine ⟨log, hdel, ?_⟩
  rw [handleMessage, handleEventMessage]
  simp only [Bool.not_true, Bool.false_eq_true, if_false, beq_iff_eq, h5, hr, ha, if_true,
    Prog.run_bind, hcheck]
  cases (seenByCheck engine env pubkey event w).any (supersedes event) with
  | true => exact ⟨fun _ => ⟨rfl, _, rfl⟩, by simp⟩
  | false => exact outcome_stored engine env rfl rfl rfl

/-- **An addressable message** deletes the matching events seen before the first
that supersedes it; it is rejected if there is one, else written. -/
theorem handleMessage_addressable (hpubkey : hexStrToBin 32 event.pubkey = some pubkey)
    (ha : isAddressableKind event.kind = true) (w : World) :
    ∃ log, Deleted (Among ((matching (getDTagValue event)
        (seenByCheck engine env pubkey event w)).takeWhile (fun x => !supersedes event x)))
          w.log log ∧
      Outcome env event ((matching (getDTagValue event)
        (seenByCheck engine env pubkey event w)).any (supersedes event)) log w
        (handleMessage engine env true event w) := by
  obtain ⟨h5, hr⟩ := kind_of_addressable ha
  obtain ⟨log, calls, hcheck, hdel⟩ := run_handleAddressableCheck engine env
    hpubkey { w with replies := [] }
  have hseen : seenByCheck engine env pubkey event { w with replies := [] } =
      seenByCheck engine env pubkey event w := rfl
  rw [hseen] at hcheck hdel
  refine ⟨log, hdel, ?_⟩
  rw [handleMessage, handleEventMessage]
  simp only [Bool.not_true, Bool.false_eq_true, if_false, beq_iff_eq, h5, hr, ha, if_true,
    Prog.run_bind, hcheck]
  cases (matching (getDTagValue event) (seenByCheck engine env pubkey event w)).any
      (supersedes event) with
  | true => exact ⟨fun _ => ⟨rfl, _, rfl⟩, by simp⟩
  | false => exact outcome_stored engine env rfl rfl rfl

/-- **A deletion message** is dropped without scratch memory; else it clears what
its references designate, and is rejected if one of them is foreign. -/
theorem handleMessage_deletion (hsound : engine.Sound)
    (hpubkey : hexStrToBin 32 event.pubkey = some pubkey) (h5 : event.kind = 5) (w : World) :
    (env.memory w.memoryCalls = false ∧ (handleMessage engine env true event w).log = w.log ∧
        (handleMessage engine env true event w).replies = []) ∨
      (env.memory w.memoryCalls = true ∧ ∃ log,
        ((deletionLoop pubkey event event.tags ⟨.zero, false⟩).run (answer engine env)
          { w with replies := [], memoryCalls := w.memoryCalls + 1 }).2.log = log ∧
        Cleared (fun r => r.pubkey = pubkey ∧ event.tags.any (designates r) = true)
          (refersToOwn engine env w.log pubkey event event.tags .zero (w.memoryCalls + 1))
          w.log log ∧
        Outcome env event (event.tags.any (foreignRef w.log pubkey)) log w
          (handleMessage engine env true event w)) := by
  rw [handleMessage, handleEventMessage, processDeletionEvent]
  simp only [Bool.not_true, Bool.false_eq_true, if_false, h5, BEq.rfl, if_true, hpubkey,
    Prog.run_bind, Prog.run_ite, Prog.run_pure, run_mmapEntity, World.tick]
  cases hmem : env.memory w.memoryCalls with
  | false => exact .inl ⟨rfl, rfl, rfl⟩
  | true =>
    obtain ⟨s, log, calls, hrun, hinv, hcl⟩ := run_deletionLoop engine env hsound pubkey event
      event.tags ⟨.zero, false⟩ { w with replies := [], memoryCalls := w.memoryCalls + 1 }
    refine .inr ⟨rfl, log, by rw [hrun], hcl, ?_⟩
    rw [Bool.false_or] at hinv
    simp only [Bool.not_true, Bool.false_eq_true, if_false, hrun, hinv]
    cases event.tags.any (foreignRef w.log pubkey) with
    | true => exact ⟨fun _ => ⟨rfl, _, rfl⟩, by simp⟩
    | false => exact outcome_stored engine env rfl rfl rfl

/-! ## All classes at once -/

/-- The events the check of a message deletes. -/
def checkDeletes (engine : QueryEngine) (env : Env) (pubkey : Bytes 32) (event : NostrEventEntity)
    (w : World) : List NostrEventEntity :=
  if isReplaceableKind event.kind then
    if (seenByCheck engine env pubkey event w).any (supersedes event) then []
    else seenByCheck engine env pubkey event w
  else if isAddressableKind event.kind then
    (matching (getDTagValue event) (seenByCheck engine env pubkey event w)).takeWhile
      fun x => !supersedes event x
  else []

/-- The message deletes some live event of its author. -/
def deletesOwn (engine : QueryEngine) (env : Env) (pubkey : Bytes 32) (event : NostrEventEntity)
    (w : World) : Bool :=
  if event.kind = 5 then
    env.memory w.memoryCalls &&
      refersToOwn engine env w.log pubkey event event.tags .zero (w.memoryCalls + 1)
  else !(checkDeletes engine env pubkey event w).isEmpty

/-- The message is answered before it comes to a write. -/
def rejects (engine : QueryEngine) (env : Env) (pubkey : Bytes 32) (event : NostrEventEntity)
    (w : World) : Bool :=
  if event.kind = 5 then event.tags.any (foreignRef w.log pubkey)
  else if isReplaceableKind event.kind then
    (seenByCheck engine env pubkey event w).any (supersedes event)
  else if isAddressableKind event.kind then
    (matching (getDTagValue event) (seenByCheck engine env pubkey event w)).any (supersedes event)
  else false

/-- A deletion message for which there is no scratch memory is dropped. -/
def dropped (env : Env) (event : NostrEventEntity) (w : World) : Bool :=
  event.kind = 5 && !env.memory w.memoryCalls

/-- What a message may delete: events of its author, and for a deletion message
such as a reference designates. -/
def MayDelete (pubkey : Bytes 32) (event : NostrEventEntity) (rec : EventRecord) : Prop :=
  rec.pubkey = pubkey ∧ (event.kind = 5 → event.tags.any (designates rec) = true)

/-- A message of another kind than 5 deletes what its check says. -/
theorem handleMessage_check (hpubkey : hexStrToBin 32 event.pubkey = some pubkey)
    (h5 : event.kind ≠ 5) (w : World) :
    ∃ log, Deleted (Among (checkDeletes engine env pubkey event w)) w.log log ∧
      Outcome env event (rejects engine env pubkey event w) log w
        (handleMessage engine env true event w) := by
  simp only [checkDeletes, rejects, h5, if_false]
  by_cases hr : isReplaceableKind event.kind = true
  · simp only [hr, if_true]
    exact handleMessage_replaceable engine env hpubkey hr w
  · simp only [hr, if_false, Bool.false_eq_true]
    by_cases ha : isAddressableKind event.kind = true
    · simp only [ha, if_true]
      exact handleMessage_addressable engine env hpubkey ha w
    · simp only [ha, if_false, Bool.false_eq_true]
      exact ⟨w.log, deleted_among_nil w.log, handleMessage_regular engine env h5 (by simpa using hr)
        (by simpa using ha) w⟩

theorem checkDeletes_own (hsound : engine.Sound) {w : World} {x : NostrEventEntity}
    (hx : x ∈ checkDeletes engine env pubkey event w) :
    ∃ r, w.log.Live r ∧ (r.pubkey = pubkey ∧ r.kind = event.kind) ∧ x.id = rawToHex r.id.1 := by
  have hseen : x ∈ seenByCheck engine env pubkey event w := by
    rw [checkDeletes] at hx
    split at hx
    · split at hx
      · exact absurd hx (by simp)
      · exact hx
    · split at hx
      · exact List.mem_of_mem_filter ((List.takeWhile_subset _) hx)
      · exact absurd hx (by simp)
  obtain ⟨r, out, hr, hkey, rfl⟩ := live_of_mem_seenByCheck hsound hseen
  exact ⟨r, hr, hkey, rfl⟩

/-- **Every message**: it is dropped; or it clears events of its author, some if
and only if `deletesOwn`, and then is rejected or written. -/
theorem handleMessage_cases (hsound : engine.Sound)
    (hpubkey : hexStrToBin 32 event.pubkey = some pubkey) (w : World) :
    (dropped env event w = true ∧ (handleMessage engine env true event w).log = w.log ∧
        (handleMessage engine env true event w).replies = []) ∨
      (dropped env event w = false ∧ ∃ log,
        Cleared (MayDelete pubkey event) (deletesOwn engine env pubkey event w) w.log log ∧
        (event.kind ≠ 5 → Deleted (Among (checkDeletes engine env pubkey event w)) w.log log) ∧
        Outcome env event (rejects engine env pubkey event w) log w
          (handleMessage engine env true event w)) := by
  rw [dropped, deletesOwn]
  by_cases h5 : event.kind = 5
  · rw [if_pos h5]
    rcases handleMessage_deletion engine env hsound hpubkey h5 w with
      ⟨hm, h⟩ | ⟨hm, log, -, hcl, hout⟩
    · exact .inl ⟨by simp [h5, hm], h⟩
    · refine .inr ⟨by simp [hm], log, ?_, fun h => absurd h5 h, ?_⟩
      · rw [hm, Bool.true_and]
        exact hcl.mono fun r hr => ⟨hr.1, fun _ => hr.2⟩
      · rw [rejects, if_pos h5]
        exact hout
  · rw [if_neg h5]
    obtain ⟨log, hdel, hout⟩ := handleMessage_check engine env hpubkey h5 w
    refine .inr ⟨by simp [h5], log, cleared_of_among hdel fun x hx => ?_, fun _ => hdel, hout⟩
    obtain ⟨r, hr, hkey, hid⟩ := checkDeletes_own engine env hsound hx
    exact ⟨r, hr, ⟨hkey.1, fun h => absurd h h5⟩, hid⟩

end Checks

end OnionRelay.Relay
