import OnionRelay.Lib.Reach
import OnionRelay.Relay.AuthorIsolation

/-!
# One live event per slot

The live events of a replaceable kind should be at most one for each author and
kind, those of an addressable kind at most one for each author, kind and stored
`d` value (`Unique`).  A message keeps this when its check compares it with every
live event it is to replace (`SeesPredecessors`).

Three things make a check miss one: scratch memory is refused; the author has
more than 100 live events of the kind; or the event has no tags and is read after
one that has, whose tags it then shows.  `seesPredecessors_of_few` says that there
is nothing else.
-/

namespace OnionRelay.Relay

open OnionRelay.Lib OnionRelay.Db

variable (engine : QueryEngine) (env : Env)

/-- One of two such records replaces the other. -/
def SameSlot (r s : EventRecord) : Prop :=
  r.pubkey = s.pubkey ∧ r.kind = s.kind ∧
    (isReplaceableKind r.kind = true ∨ (isAddressableKind r.kind = true ∧ r.dValue = s.dValue))

theorem SameSlot.symm {r s : EventRecord} (h : SameSlot r s) : SameSlot s r := by
  obtain ⟨hp, hk, hd⟩ := h
  refine ⟨hp.symm, hk.symm, ?_⟩
  rw [← hk]
  exact hd.imp id fun h => ⟨h.1, h.2.symm⟩

/-- No two live records share a slot. -/
def Unique (log : EventLog) : Prop := ∀ r s, log.Live r → log.Live s → SameSlot r s → r = s

/-- The events a check compares the message with. -/
def comparedWith (pubkey : Bytes 32) (event : NostrEventEntity) (w : World) :
    List NostrEventEntity :=
  if isReplaceableKind event.kind then seenByCheck engine env pubkey event w
  else matching (getDTagValue event) (seenByCheck engine env pubkey event w)

/-- The check of the message compares it with every live event in the slot the
message is stored under. -/
def SeesPredecessors (event : NostrEventEntity) (w : World) : Prop :=
  ∀ rec, eventSerialize event = some rec → ∀ r, w.log.Live r → SameSlot rec r →
    Among (comparedWith engine env rec.pubkey event w) r.id

/-- Of a message that is not rejected, a check deletes all it compares with. -/
theorem checkDeletes_of_stored {pubkey : Bytes 32} {event : NostrEventEntity} {w : World}
    (hkind : isReplaceableKind event.kind = true ∨ isAddressableKind event.kind = true)
    (hrej : rejects engine env pubkey event w = false) :
    event.kind ≠ 5 ∧
      checkDeletes engine env pubkey event w = comparedWith engine env pubkey event w := by
  rcases hkind with hr | ha
  · have h5 := (kind_of_replaceable hr).1
    rw [rejects, if_neg h5, if_pos hr] at hrej
    refine ⟨h5, ?_⟩
    rw [checkDeletes, comparedWith, if_pos hr, if_pos hr, hrej]
    rfl
  · obtain ⟨h5, hr⟩ := kind_of_addressable ha
    rw [rejects, if_neg h5, hr, if_neg (by decide), if_pos ha, List.any_eq_false] at hrej
    refine ⟨h5, ?_⟩
    simp only [checkDeletes, comparedWith, hr, ha, if_true, Bool.false_eq_true, if_false]
    rw [List.takeWhile_eq_self_iff]
    intro x hx
    simpa using hrej x hx

/-- **When a check sees enough**: scratch memory is granted, the author has at
most 100 live events of the kind, and for an addressable message its tags are
stored and either it has a `d` value or none of those events is without tags. -/
theorem seesPredecessors_of_few {event : NostrEventEntity} (hevent : event.Parsed) {w : World}
    (hmem : MemoryGranted env w)
    (hfew : ∀ pubkey, (w.log.chains pubkey event.kind).flatten.length ≤ 100)
    (haddressable : isAddressableKind event.kind = true →
      (serializeTags event.tags 8192).isSome = true ∧
        (getDTagValue event ≠ [] ∨
          ∀ r, w.log.Live r → r.kind = event.kind → r.storedTags ≠ [])) :
    SeesPredecessors queryExecute env event w := by
  intro rec hrec r hr hslot
  have hstored := storedAs_of_eventSerialize hevent hrec
  obtain ⟨hpub, hkind, hvalue⟩ := hslot
  rw [hstored.kind] at hkind hvalue
  obtain ⟨out, hseen⟩ := mem_seenByCheck exact_queryExecute hmem (hfew rec.pubkey) hr hpub.symm
    hkind.symm
  refine ⟨eventDeserialize r out, ?_, rfl⟩
  rcases hvalue with hrepl | ⟨ha, hd⟩
  · rw [comparedWith, if_pos hrepl]
    exact hseen
  · obtain ⟨-, hrepl⟩ := kind_of_addressable ha
    obtain ⟨hfits, htagged⟩ := haddressable ha
    have hown : rec.dValue = getDTagValue event := by
      rw [EventRecord.dValue, hstored.tags, if_pos hfits, getDTagValue]
    have htags : r.storedTags ≠ [] := by
      rcases htagged with hne | hall
      · intro hnil
        rw [← hown, hd, EventRecord.dValue, hnil] at hne
        exact hne rfl
      · exact hall r hr hkind.symm
    rw [comparedWith, hrepl, if_neg Bool.false_ne_true, matching, List.mem_filter]
    refine ⟨hseen, ?_⟩
    rw [getDTagValue_eventDeserialize htags, strEqual_iff, ← hd, hown]

/-- **One message.** -/
theorem unique_handleMessage (hsound : engine.Sound) {event : NostrEventEntity}
    (hevent : event.Parsed) {w : World} (hsees : SeesPredecessors engine env event w)
    (hunique : Unique w.log) : Unique (handleMessage engine env true event w).log := by
  obtain ⟨pubkey, hpubkey, -⟩ := hexStrToBin_of_lowerHex 32 event.pubkey hevent.pubkey
  rcases handleMessage_cases engine env hsound hpubkey w with
    ⟨-, hlog, -⟩ | ⟨-, log, hcleared, hchecks, hout⟩
  · rw [hlog]
    exact hunique
  · have hrest : Unique log := fun r s hr hs => hunique r s (hcleared.sub r hr) (hcleared.sub s hs)
    cases hrej : rejects engine env pubkey event w with
    | true =>
      rw [(hout.of_rejected hrej).1]
      exact hrest
    | false =>
      rw [(hout.of_stored hrej).1]
      rcases log.writeEvent_cases (env.storage w.storageCalls) event with
        ⟨err, -, heq⟩ | ⟨rec, hnew, hlive, hrec, -, heq⟩
      · rw [heq]
        exact hrest
      · rw [heq]
        have hstored := storedAs_of_eventSerialize hevent hrec
        have hpub : rec.pubkey = pubkey := by
          rw [← hstored.pubkey, hexStrToBin_rawToHex] at hpubkey
          exact Option.some.inj hpubkey
        -- what is left shares no slot with the new record
        have hfree : ∀ r, log.Live r → ¬ SameSlot rec r := by
          intro r hr hslot
          have hkind : isReplaceableKind event.kind = true ∨ isAddressableKind event.kind = true := by
            rw [← hstored.kind]
            exact hslot.2.2.imp id fun h => h.1
          obtain ⟨h5, hdel⟩ := checkDeletes_of_stored engine env hkind hrej
          have hgone := hchecks h5
          rw [hdel, ← hpub] at hgone
          exact ((hgone.live r).mp hr).2 (hsees rec hrec r (hcleared.sub r hr) hslot)
        intro r s hr hs hslot
        rcases (EventLog.live_append hnew hlive).mp hr with hr' | rfl
        · rcases (EventLog.live_append hnew hlive).mp hs with hs' | rfl
          · exact hrest r s hr' hs' hslot
          · exact absurd hslot.symm (hfree r hr')
        · rcases (EventLog.live_append hnew hlive).mp hs with hs' | rfl
          · exact absurd hslot (hfree s hs')
          · rfl

/-- **One live event per slot** in every state of a run whose messages each see
their predecessors. -/
theorem unique_of_run {w : World}
    (hrun : Reaches (fun w event => handleMessage queryExecute env true event w)
      (fun w event => event.Parsed ∧ SeesPredecessors queryExecute env event w) .init w) :
    Unique w.log := by
  refine hrun.invariant (I := fun w => Unique w.log) ?_ ?_
  · intro r s hr
    exact absurd hr.1 (by simp [World.init, EventLog.empty])
  · intro w event hunique hok
    exact unique_handleMessage queryExecute env sound_queryExecute hok.1 hok.2 hunique

/-- A message adds at most one record. -/
theorem length_handleMessage (hsound : engine.Sound) {event : NostrEventEntity}
    (hevent : event.Parsed) (w : World) :
    (handleMessage engine env true event w).log.records.length ≤ w.log.records.length + 1 := by
  obtain ⟨pubkey, hpubkey, -⟩ := hexStrToBin_of_lowerHex 32 event.pubkey hevent.pubkey
  rcases handleMessage_cases engine env hsound hpubkey w with
    ⟨-, hlog, -⟩ | ⟨-, log, hcleared, -, hout⟩
  · rw [hlog]
    exact Nat.le_succ _
  · have hlen : log.records.length = w.log.records.length := by
      simpa using congrArg List.length hcleared.ids
    cases hrej : rejects engine env pubkey event w with
    | true =>
      rw [(hout.of_rejected hrej).1, hlen]
      exact Nat.le_succ _
    | false =>
      rw [(hout.of_stored hrej).1, ← hlen]
      rcases log.writeEvent_cases (env.storage w.storageCalls) event with
        ⟨err, -, heq⟩ | ⟨rec, hnew, hlive, -, -, heq⟩
      · rw [heq]
        exact Nat.le_succ _
      · rw [heq]
        exact (List.length_append ..).le

/-- A profile and then a newer one. -/
theorem unique_of_profiles :
    Unique (handleMessage queryExecute .calm true (digitEvent 50 49 0 2 [])
      (handleMessage queryExecute .calm true (digitEvent 48 49 0 1 []) .init)).log := by
  have hparsed : ∀ id ∈ [(48 : UInt8), 50], ∀ t < 3, (digitEvent id 49 0 t []).Parsed := by
    intro id hid t ht
    refine parsed_digitEvent ?_ (by decide) (by decide) (by omega) (by decide) (by decide)
    simp only [List.mem_cons, List.not_mem_nil, or_false] at hid
    rcases hid with rfl | rfl <;> decide
  have hfirst := hparsed 48 (by simp) 1 (by decide)
  have hkind : ∀ id t, ¬ isAddressableKind (digitEvent id 49 0 t []).kind = true := fun _ _ => by
    simp [digitEvent, isAddressableKind]
  refine unique_of_run .calm (((Reaches.start).next ⟨hfirst, ?_⟩).next
    ⟨hparsed 50 (by simp) 2 (by decide), ?_⟩)
  · refine seesPredecessors_of_few .calm (hparsed 50 (by simp) 2 (by decide))
      (memoryGranted_calm _) (fun pubkey => ?_) (fun h => absurd h (hkind 50 2))
    have hone := length_handleMessage queryExecute .calm sound_queryExecute hfirst .init
    have hempty : World.init.log.records.length = 0 := rfl
    have hchain := EventLog.length_chain_le (handleMessage queryExecute .calm true
      (digitEvent 48 49 0 1 []) .init).log pubkey (digitEvent 50 49 0 2 []).kind
    omega
  · exact seesPredecessors_of_few .calm hfirst (memoryGranted_calm _)
      (fun _ => Nat.zero_le 100) (fun h => absurd h (hkind 48 1))

/-- **The slot of an addressable event may hold two.**  The second and third
event have no tags; when the third arrives, the second is read behind the first
and shows its `d` value. -/
theorem not_unique_of_stale_tags :
    ¬ ∀ events : List NostrEventEntity, (∀ e ∈ events, e.Parsed) →
      Unique (runMessages queryExecute .calm .init events).log := by
  intro h
  have hunique := h [digitEvent 48 49 30000 2 [⟨[100], [[120]]⟩], digitEvent 50 49 30000 1 [],
    digitEvent 51 49 30000 3 []] (by
      intro e he
      simp only [List.mem_cons, List.not_mem_nil, or_false] at he
      rcases he with rfl | rfl | rfl <;>
        exact parsed_digitEvent (by decide) (by decide) (by decide) (by decide) (by decide)
          (by decide))
  have heq := hunique ((eventSerialize (digitEvent 50 49 30000 1 [])).get (by decide +kernel))
    ((eventSerialize (digitEvent 51 49 30000 3 [])).get (by decide +kernel))
    (by decide +kernel) (by decide +kernel) (by unfold SameSlot; decide +kernel)
  revert heq
  decide +kernel

end OnionRelay.Relay
