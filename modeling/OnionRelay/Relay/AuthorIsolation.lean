import OnionRelay.Relay.Effects

/-!
# A message takes away only events of its author

All three deletion paths end in `nostr_db_delete_event`, and what leads there is
bound to the author: an `e` tag by the comparison of public keys, an `a` tag and
both checks by the author in the filter.  `Cleared` carries this through the
loops; what is left here is that neither a rejection nor the write takes away
anything more.
-/

namespace OnionRelay.Relay

open OnionRelay.Lib OnionRelay.Db

variable (engine : QueryEngine) (env : Env)

/-- Beyond its deletions a message keeps what is live. -/
theorem Outcome.live {event : NostrEventEntity} {rejected : Bool} {log : EventLog} {w w' : World}
    (h : Outcome env event rejected log w w') {r : EventRecord} (hr : log.Live r) :
    w'.log.Live r := by
  cases rejected with
  | true =>
    rw [(h.of_rejected rfl).1]
    exact hr
  | false =>
    rw [(h.of_stored rfl).1]
    exact EventLog.live_writeEvent hr

theorem handleMessage_uninitialized (event : NostrEventEntity) (w : World) :
    handleMessage engine env false event w =
      { w with replies := [⟨event.id, false, "error: database not initialized"⟩] } := rfl

/-- **Author isolation.**  An event that was live and is no more has the public
key of the message. -/
theorem author_isolation (hsound : engine.Sound) (dbInitialized : Bool) {event : NostrEventEntity}
    (hevent : event.Parsed) (w : World) {rec : EventRecord} (hlive : w.log.Live rec)
    (hgone : ¬ (handleMessage engine env dbInitialized event w).log.Live rec) :
    rawToHex rec.pubkey.1 = event.pubkey := by
  obtain ⟨pubkey, hpubkey, hprint⟩ := hexStrToBin_of_lowerHex 32 event.pubkey hevent.pubkey
  cases dbInitialized with
  | false => exact absurd hlive hgone
  | true =>
    rcases handleMessage_cases engine env hsound hpubkey w with
      ⟨-, hlog, -⟩ | ⟨-, log, hcleared, -, hout⟩
    · rw [hlog] at hgone
      exact absurd hlive hgone
    · rw [(hcleared.own rec hlive fun hr => hgone (hout.live env hr)).1, hprint]

/-- A profile sent twice: the second message takes away the stored event. -/
theorem author_isolation_profile :
    rawToHex ((eventSerialize (digitEvent 48 49 0 1 [])).get (by decide +kernel)).pubkey.1 =
      (digitEvent 48 49 0 1 []).pubkey :=
  author_isolation queryExecute .calm sound_queryExecute true
    (parsed_digitEvent (by decide) (by decide) (by decide) (by decide) (by decide) (by decide))
    (runMessages queryExecute .calm .init [digitEvent 48 49 0 1 []])
    (by decide +kernel) (by decide +kernel)

end OnionRelay.Relay
