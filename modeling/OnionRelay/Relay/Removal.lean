import OnionRelay.Relay.AuthorIsolation

/-!
# Which message takes an event away

A live event goes for one of two reasons only: a deletion of its author that designates it,
or another version of its author and kind that is no older (`removes_of_gone`).
-/

namespace OnionRelay.Relay

open OnionRelay.Lib OnionRelay.Db

structure Removes (rec : EventRecord) (e : NostrEventEntity) : Prop where
  pubkey : e.pubkey = rawToHex rec.pubkey.1
  designated : e.kind = 5 → e.tags.any (designates rec) = true
  version : e.kind ≠ 5 → (isReplaceableKind e.kind || isAddressableKind e.kind) = true ∧
    rec.kind = e.kind ∧ rec.createdAt ≤ e.createdAt

variable (engine : QueryEngine) (env : Env) {e x : NostrEventEntity} {pubkey : Bytes 32}

/-- What a check deletes does not supersede the event. -/
theorem mem_checkDeletes {w : World} (h : x ∈ checkDeletes engine env pubkey e w) :
    x ∈ seenByCheck engine env pubkey e w ∧ (isReplaceableKind e.kind || isAddressableKind e.kind) = true ∧
      supersedes e x = false := by
  rw [checkDeletes] at h
  split at h
  · next hreplaceable =>
    split at h
    · cases h
    · next hany =>
      rw [List.any_eq_true, not_exists] at hany
      exact ⟨h, by rw [hreplaceable, Bool.true_or], Bool.eq_false_iff.mpr fun hx => hany x ⟨h, hx⟩⟩
  · split at h
    · next haddressable =>
      refine ⟨List.mem_of_mem_filter (List.takeWhile_subset _ h), by rw [haddressable, Bool.or_true], ?_⟩
      rw [← Bool.not_eq_true']
      exact List.mem_takeWhile_imp (p := fun x => !supersedes e x) h
    · cases h

theorem createdAt_le_of_supersedes (h : supersedes e x = false) : x.createdAt ≤ e.createdAt := by
  rw [supersedes, Bool.or_eq_false_iff, decide_eq_false_iff_not] at h
  exact Nat.le_of_not_lt h.1

/-- **Only the author makes an event disappear**, and only by these messages. -/
theorem removes_of_gone (hsound : engine.Sound) (dbInitialized : Bool) (he : e.Parsed) (w : World) {rec : EventRecord}
    (hlive : w.log.Live rec) (hgone : ¬ (handleMessage engine env dbInitialized e w).log.Live rec) : Removes rec e := by
  obtain ⟨pubkey, hpubkey, hprint⟩ := hexStrToBin_of_lowerHex 32 e.pubkey he.pubkey
  cases dbInitialized with
  | false => exact absurd hlive hgone
  | true =>
    by_cases h5 : e.kind = 5
    · rcases handleMessage_deletion engine env hsound hpubkey h5 w with ⟨-, hlog, -⟩ | ⟨-, log, -, hcleared, hout⟩
      · rw [hlog] at hgone
        exact absurd hlive hgone
      · obtain ⟨hown, hnamed⟩ := hcleared.own rec hlive fun hr => hgone (hout.live env hr)
        exact ⟨by rw [hown, hprint], fun _ => hnamed, fun hne => absurd h5 hne⟩
    · obtain ⟨log, hdeleted, hout⟩ := handleMessage_check engine env hpubkey h5 w
      have hcleared := cleared_of_among
        (p := fun r => r.pubkey = pubkey ∧ (isReplaceableKind e.kind || isAddressableKind e.kind) = true ∧
          r.kind = e.kind ∧ r.createdAt ≤ e.createdAt) hdeleted fun x hx => by
        obtain ⟨hseen, hclass, hnewer⟩ := mem_checkDeletes engine env hx
        obtain ⟨r, out, hr, ⟨hkey, hkind⟩, rfl⟩ := live_of_mem_seenByCheck hsound hseen
        exact ⟨r, hr, ⟨hkey, hclass, hkind, createdAt_le_of_supersedes hnewer⟩, rfl⟩
      obtain ⟨hown, hversion⟩ := hcleared.own rec hlive fun hr => hgone (hout.live env hr)
      exact ⟨by rw [hown, hprint], fun heq => absurd heq h5, fun _ => hversion⟩

end OnionRelay.Relay
