import OnionRelay.Relay.AuthorIsolation

/-!
# Messages that are refused

A refused message, one answered with `OK` false, should leave the live events as
they are.  It may be refused after it has deleted some: by a foreign reference
behind a good one, by an event further down the results that supersedes, or by
the final write.  `SafelyRefusable` is the way out of this: the message deletes
nothing, or it is certain to be accepted.

Whether a deletion message finds its own id deleted by its own references is
told by `mayDeleteItself` from one side only: when a reference names the stored
event of that id, or its kind.
-/

namespace OnionRelay.Relay

open OnionRelay.Lib OnionRelay.Db

variable {engine : QueryEngine} {env : Env} {pubkey : Bytes 32} {event : NostrEventEntity}

/-- The relay answers with `OK` false. -/
def Refused (w : World) : Prop := ∃ reply ∈ w.replies, reply.ok = false

/-- The deletions of the message may take the live record of its own id. -/
def mayDeleteItself (engine : QueryEngine) (env : Env) (pubkey : Bytes 32)
    (event : NostrEventEntity) (rec : EventRecord) (w : World) : Bool :=
  if event.kind = 5 then decide (rec.pubkey = pubkey) && event.tags.any (designates rec)
  else (checkDeletes engine env pubkey event w).any fun x => x.id = event.id

/-- `nostr_db_write_event` is certain to report the message as stored. -/
def writeAccepted (engine : QueryEngine) (env : Env) (pubkey : Bytes 32)
    (event : NostrEventEntity) (w : World) : Bool :=
  match eventSerialize event with
  | none => false
  | some rec =>
    match w.log.idLookup rec.id with
    | none =>
      match env.storage w.storageCalls with
      | none => true
      | some err => err.1 = .duplicate
    | some _ =>
      (w.log.liveById rec.id).any fun existing =>
        !mayDeleteItself engine env pubkey event existing w

/-- The message deletes nothing of its author, or it is certain to be accepted. -/
def SafelyRefusable (engine : QueryEngine) (env : Env) (pubkey : Bytes 32)
    (event : NostrEventEntity) (w : World) : Prop :=
  deletesOwn engine env pubkey event w = false ∨
    (rejects engine env pubkey event w = false ∧ writeAccepted engine env pubkey event w = true)

/-- The id of the message is live, as an event that one of its own references
names or whose kind it names. -/
def RefersToItself (pubkey : Bytes 32) (event : NostrEventEntity) (w : World) : Prop :=
  event.kind = 5 ∧ ∃ rec, w.log.Live rec ∧ rawToHex rec.id.1 = event.id ∧ rec.pubkey = pubkey ∧
    event.tags.any (designates rec) = true

/-! ## The record of the message's own id -/

theorem accepted_writeEvent {failure : Option EventLog.Failure} {log : EventLog} {rec : EventRecord}
    (hrec : eventSerialize event = some rec) :
    accepted (log.writeEvent failure event).1 = true ↔
      (log.idLookup rec.id = none ∧ ∀ err, failure = some err → err.1 = .duplicate) ∨
        ∃ existing, log.Live existing ∧ existing.id = rec.id := by
  rw [EventLog.writeEvent]
  split
  · rename_i hnone
    exact absurd (hnone.symm.trans hrec) (by simp)
  · rename_i rec' hrec'
    obtain rfl := Option.some.inj (hrec'.symm.trans hrec)
    split
    · rename_i rid hid
      obtain ⟨existing, hget, heq⟩ := EventLog.idLookup_eq_some.mp hid
      rw [hget]
      simp only [hid, reduceCtorEq, false_and, false_or]
      cases hd : existing.deleted with
      | false =>
        simp only [Bool.false_eq_true, if_false]
        exact ⟨fun _ => ⟨existing, ⟨List.mem_of_getElem? hget, hd⟩, heq⟩, fun _ => rfl⟩
      | true =>
        simp only [if_true]
        refine ⟨fun h => absurd h (by decide), ?_⟩
        rintro ⟨r, hr, hid'⟩
        obtain rfl := EventLog.eq_of_id_eq hr.1 (List.mem_of_getElem? hget) (hid'.trans heq.symm)
        exact absurd hr.2 (by simp [hd])
    · rename_i hid
      have hno : ¬ ∃ existing, log.Live existing ∧ existing.id = rec'.id := by
        rintro ⟨r, hr, heq⟩
        exact EventLog.idLookup_eq_none.mp hid r hr.1 heq
      simp only [hid, hno, or_false, true_and]
      cases failure with
      | none => simp [accepted]
      | some err =>
        obtain ⟨err, herr⟩ := err
        simp [accepted, herr]

/-- If nothing the message deletes may be the live record of its id, that record
stays; for the checks, only then. -/
theorem live_own_id {w : World} {log : EventLog} {rec : EventRecord} (hrec : w.log.Live rec)
    (hid : rawToHex rec.id.1 = event.id)
    (hcleared : Cleared (MayDelete pubkey event) (deletesOwn engine env pubkey event w) w.log log)
    (hchecks : event.kind ≠ 5 → Deleted (Among (checkDeletes engine env pubkey event w)) w.log log) :
    (mayDeleteItself engine env pubkey event rec w = false → log.Live rec) ∧
      (event.kind ≠ 5 → log.Live rec → mayDeleteItself engine env pubkey event rec w = false) := by
  by_cases h5 : event.kind = 5
  · refine ⟨fun hmay => ?_, fun h => absurd h5 h⟩
    rw [mayDeleteItself, if_pos h5] at hmay
    by_contra hgone
    obtain ⟨hown, hdes⟩ := hcleared.own rec hrec hgone
    rw [hdes h5] at hmay
    simp [hown] at hmay
  · have hlive : log.Live rec ↔ mayDeleteItself engine env pubkey event rec w = false := by
      rw [(hchecks h5).live, mayDeleteItself, if_neg h5, List.any_eq_false]
      simp only [hrec, true_and, Among, hid, decide_eq_true_eq, not_exists, not_and]
    exact ⟨hlive.mpr, fun _ => hlive.mp⟩

/-- A certain acceptance is one; outside `RefersToItself` there is no other. -/
theorem writeAccepted_iff {w : World} {log : EventLog} (hevent : event.Parsed)
    (hcleared : Cleared (MayDelete pubkey event) (deletesOwn engine env pubkey event w) w.log log)
    (hchecks : event.kind ≠ 5 → Deleted (Among (checkDeletes engine env pubkey event w)) w.log log) :
    (writeAccepted engine env pubkey event w = true →
      accepted (log.writeEvent (env.storage w.storageCalls) event).1 = true) ∧
    (¬ RefersToItself pubkey event w →
      accepted (log.writeEvent (env.storage w.storageCalls) event).1 = true →
        writeAccepted engine env pubkey event w = true) := by
  rw [writeAccepted]
  cases hrec : eventSerialize event with
  | none =>
    refine ⟨by simp, fun _ h => ?_⟩
    rw [EventLog.writeEvent] at h
    split at h
    · exact absurd h (by simp [accepted])
    · rename_i hsome
      exact absurd (hsome.symm.trans hrec) (by simp)
  | some rec =>
    have hid := (storedAs_of_eventSerialize hevent hrec).id
    have hknown := EventLog.idLookup_congr hcleared.ids rec.id
    rw [accepted_writeEvent hrec]
    dsimp only
    cases hlook : w.log.idLookup rec.id with
    | none =>
      have hno : ¬ ∃ existing, log.Live existing ∧ existing.id = rec.id := by
        rintro ⟨r, hr, heq⟩
        exact EventLog.idLookup_eq_none.mp (hknown.mpr hlook) r hr.1 heq
      simp only [hknown.mpr hlook, hno, or_false, true_and]
      cases env.storage w.storageCalls with
      | none => simp
      | some err => simp
    | some rid =>
      have hne : log.idLookup rec.id ≠ none := fun h => by simp [hknown.mp h] at hlook
      simp only [hne, false_and, false_or]
      cases hlive : w.log.liveById rec.id with
      | none =>
        refine ⟨by simp, ?_⟩
        rintro - ⟨r, hr, heq⟩
        rw [EventLog.liveById_eq_some.mpr ⟨hcleared.sub r hr, heq⟩] at hlive
        exact absurd hlive (by simp)
      | some existing =>
        obtain ⟨hex, hexid⟩ := EventLog.liveById_eq_some.mp hlive
        have hprint : rawToHex existing.id.1 = event.id := by rw [hexid, hid]
        obtain ⟨hstays, honly⟩ := live_own_id hex hprint hcleared hchecks
        simp only [Option.any_some, Bool.not_eq_true']
        refine ⟨fun h => ⟨existing, hstays h, hexid⟩, ?_⟩
        rintro hself ⟨r, hr, heq⟩
        obtain rfl := EventLog.eq_of_id_eq (hcleared.sub r hr).1 hex.1 (heq.trans hexid.symm)
        by_cases h5 : event.kind = 5
        · rw [mayDeleteItself, if_pos h5]
          by_contra hmay
          rw [Bool.not_eq_false, Bool.and_eq_true, decide_eq_true_eq] at hmay
          exact hself ⟨h5, r, hex, hprint, hmay.1, hmay.2⟩
        · exact honly h5 hr

/-! ## Refusals -/

/-- A write that is not accepted leaves the log. -/
theorem writeEvent_of_not_accepted {failure : Option EventLog.Failure} {log : EventLog}
    (h : accepted (log.writeEvent failure event).1 = false) :
    (log.writeEvent failure event).2 = log := by
  rcases log.writeEvent_cases failure event with ⟨err, -, heq⟩ | ⟨rec, hnew, hlive, -, -, heq⟩
  · rw [heq]
  · rw [heq] at h
    exact absurd h (by simp [accepted])

/-- What a refused message leaves is what its deletions left. -/
theorem Outcome.log_of_refused {rejected : Bool} {log : EventLog} {w w' : World}
    (h : Outcome env event rejected log w w') (hrefused : Refused w') : w'.log = log := by
  cases rejected with
  | true => exact (h.of_rejected rfl).1
  | false =>
    obtain ⟨hlog, message, hreplies⟩ := h.of_stored rfl
    obtain ⟨reply, hmem, hfalse⟩ := hrefused
    rw [hreplies, List.mem_singleton] at hmem
    rw [hmem] at hfalse
    rw [hlog, writeEvent_of_not_accepted hfalse]

/-- A deletion event of one author for two events, the second another's. -/
def mixedDeletion : NostrEventEntity :=
  digitEvent 52 49 5 9 [⟨[101], [List.replicate 64 48]⟩, ⟨[101], [List.replicate 64 50]⟩]

end OnionRelay.Relay
