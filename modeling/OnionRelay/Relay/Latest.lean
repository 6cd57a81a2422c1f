import OnionRelay.Relay.Effects

/-!
# The order of arrival

`Precedes` is the order in which one event is to be kept over another: the newer
one, and of two equally old the one with the lower id.  The comparison of the
handlers is this order on parsed events (`supersedes_iff`), so of the events of
one author and one replaceable kind the first in it is left, in whatever order
they arrive (`latest_of_any_order`).

`Kept` is the invariant: after some of the messages, the live events of the
author and kind are the first of these messages, and no other id came in.
-/

namespace OnionRelay.Relay

open OnionRelay.Lib OnionRelay.Db

/-- `e` is to be kept over `e'`. -/
def Precedes (e e' : NostrEventEntity) : Prop :=
  e'.createdAt < e.createdAt ∨ (e'.createdAt = e.createdAt ∧ e.id < e'.id)

instance (e e' : NostrEventEntity) : Decidable (Precedes e e') :=
  inferInstanceAs (Decidable (_ ∨ _))

theorem Precedes.trans {a b c : NostrEventEntity} (h : Precedes a b) (h' : Precedes b c) :
    Precedes a c := by
  rcases h with h | ⟨h, hid⟩ <;> rcases h' with h' | ⟨h', hid'⟩
  · exact .inl (Nat.lt_trans h' h)
  · exact .inl (h' ▸ h)
  · exact .inl (h ▸ h')
  · exact .inr ⟨h'.trans h, List.lt_trans hid hid'⟩

theorem Precedes.irrefl (e : NostrEventEntity) : ¬ Precedes e e := by
  rintro (h | ⟨-, h⟩)
  · exact Nat.lt_irrefl _ h
  · exact List.lt_irrefl _ h

/-- Of two events with different ids one precedes. -/
theorem Precedes.of_not {e e' : NostrEventEntity} (hid : e.id ≠ e'.id) (h : ¬ Precedes e e') :
    Precedes e' e := by
  rw [Precedes, not_or, not_and] at h
  rcases Nat.lt_trichotomy e.createdAt e'.createdAt with hlt | heq | hgt
  · exact .inl hlt
  · exact .inr ⟨heq, Std.lt_of_le_of_ne (Std.not_lt.mp (h.2 heq.symm)) hid.symm⟩
  · exact absurd hgt h.1

/-! ## The comparison of the handlers -/

theorem toInt8_lt_iff {a b : UInt8} (ha : isLowerHex a = true) (hb : isLowerHex b = true) :
    a.toInt8 < b.toInt8 ↔ a < b := by
  have hascii : ∀ c : UInt8, isLowerHex c = true → c.toInt8.toInt = c.toNat :=
    forall_uint8 (by decide +kernel)
  rw [Int8.lt_iff_toInt_lt, hascii a ha, hascii b hb, UInt8.lt_iff_toNat_lt]
  omega

/-- On lower-case hexadecimal the loop compares lexicographically. -/
theorem existingLower_iff : ∀ (n : Nat) (a b : CStr), LowerHex n a → LowerHex n b →
    (existingLower n a b = true ↔ a < b) := by
  intro n
  induction n with
  | zero =>
    intro a b ha hb
    obtain rfl := List.eq_nil_of_length_eq_zero ha.length
    obtain rfl := List.eq_nil_of_length_eq_zero hb.length
    simp [existingLower]
  | succ n ih =>
    intro a b ha hb
    obtain ⟨x, xs, rfl⟩ := List.exists_cons_of_length_eq_add_one ha.length
    obtain ⟨y, ys, rfl⟩ := List.exists_cons_of_length_eq_add_one hb.length
    have hx := ha.digits x List.mem_cons_self
    have hy := hb.digits y List.mem_cons_self
    have hrest := ih xs ys
      ⟨by simpa using ha.length, fun c hc => ha.digits c (List.mem_cons_of_mem x hc)⟩
      ⟨by simpa using hb.length, fun c hc => hb.digits c (List.mem_cons_of_mem y hc)⟩
    rw [existingLower, List.getD_cons_zero, List.getD_cons_zero, List.cons_lt_cons_iff]
    by_cases hlt : x < y
    · rw [if_pos ((toInt8_lt_iff hx hy).mpr hlt)]
      exact ⟨fun _ => .inl hlt, fun _ => rfl⟩
    · rw [if_neg (fun h => hlt ((toInt8_lt_iff hx hy).mp h))]
      by_cases hgt : y < x
      · rw [if_pos ((toInt8_lt_iff hy hx).mpr hgt)]
        have hne : x ≠ y := fun h => UInt8.lt_irrefl y (h ▸ hgt)
        simp [hlt, hne]
      · rw [if_neg (fun h => hgt ((toInt8_lt_iff hy hx).mp h)), List.tail_cons, List.tail_cons,
          hrest]
        have heq : x = y := UInt8.le_antisymm (UInt8.not_lt.mp hgt) (UInt8.not_lt.mp hlt)
        simp [heq]

/-- **The comparison of the handlers is `Precedes`.** -/
theorem supersedes_iff {event existing : NostrEventEntity} (hevent : LowerHex 64 event.id)
    (hexisting : LowerHex 64 existing.id) :
    supersedes event existing = true ↔ Precedes existing event := by
  simp only [supersedes, Precedes, Bool.or_eq_true, Bool.and_eq_true, decide_eq_true_eq,
    existingLower_iff 64 existing.id event.id hexisting hevent]
  constructor
  · exact Or.imp id fun h => ⟨h.1.symm, h.2⟩
  · exact Or.imp id fun h => ⟨h.1.symm, h.2⟩

/-! ## What is left -/

variable {engine : QueryEngine} {pubkey : Bytes 32} {kind : Nat}

/-- A live record of the author and kind. -/
def LiveOf (log : EventLog) (pubkey : Bytes 32) (kind : Nat) (r : EventRecord) : Prop :=
  log.Live r ∧ r.pubkey = pubkey ∧ r.kind = kind

theorem length_chain_le_one {log : EventLog}
    (hone : ∀ r s, LiveOf log pubkey kind r → LiveOf log pubkey kind s → r = s) :
    (log.chains pubkey kind).flatten.length ≤ 1 := by
  cases hchain : (log.chains pubkey kind).flatten with
  | nil => exact Nat.zero_le 1
  | cons rid rids =>
    have hlive : ∀ i, i ∈ rid :: rids → ∃ r, log.records[i]? = some r ∧
        LiveOf log pubkey kind r := by
      intro i hi
      obtain ⟨r, hr, hd, hp, hk⟩ := (log.mem_chain pubkey kind i).mp (hchain ▸ hi)
      exact ⟨r, hr, ⟨List.mem_of_getElem? hr, hd⟩, hp, hk⟩
    have hsub : rid :: rids ⊆ [rid] := by
      intro i hi
      obtain ⟨r, hr, hlr⟩ := hlive i hi
      obtain ⟨s, hs, hls⟩ := hlive rid List.mem_cons_self
      obtain rfl := hone r s hlr hls
      exact List.mem_singleton.mpr (EventLog.rid_eq_of_id_eq hr hs rfl)
    exact (List.subperm_of_subset (hchain ▸ log.chain_nodup pubkey kind) hsub).length_le

/-- An event of the author and kind that the store does not know and can hold. -/
structure Submitted (log : EventLog) (pubkey : Bytes 32) (kind : Nat) (e : NostrEventEntity) :
    Prop where
  parsed : e.Parsed
  pubkey : e.pubkey = rawToHex pubkey.1
  kind : e.kind = kind
  fits : (eventSerialize e).isSome = true
  new : ∀ r ∈ log.records, rawToHex r.id.1 ≠ e.id

/-- The state once the messages `l` have come to a store with `log`. -/
structure Kept (log : EventLog) (pubkey : Bytes 32) (kind : Nat) (l : List NostrEventEntity)
    (w : World) : Prop where
  first : ∀ r, LiveOf w.log pubkey kind r →
    ∃ e ∈ l, eventSerialize e = some r ∧ ∀ e' ∈ l, e' ≠ e → Precedes e e'
  exists_live : l ≠ [] → ∃ r, LiveOf w.log pubkey kind r
  ids : ∀ r ∈ w.log.records,
    (∃ r₀ ∈ log.records, r₀.id = r.id) ∨ ∃ e ∈ l, e.id = rawToHex r.id.1

theorem eq_of_first {l : List NostrEventEntity} {e e' : NostrEventEntity} (he : e ∈ l) (he' : e' ∈ l)
    (h : ∀ x ∈ l, x ≠ e → Precedes e x) (h' : ∀ x ∈ l, x ≠ e' → Precedes e' x) : e = e' := by
  by_contra hne
  exact Precedes.irrefl e ((h e' he' (Ne.symm hne)).trans (h' e he hne))

variable {log : EventLog} {l : List NostrEventEntity} {w : World}

theorem Kept.unique (h : Kept log pubkey kind l w) {r s : EventRecord}
    (hr : LiveOf w.log pubkey kind r) (hs : LiveOf w.log pubkey kind s) : r = s := by
  obtain ⟨e, he, hrec, hfirst⟩ := h.first r hr
  obtain ⟨e', he', hrec', hfirst'⟩ := h.first s hs
  obtain rfl := eq_of_first he he' hfirst hfirst'
  exact Option.some.inj (hrec.symm.trans hrec')

/-- **One message.** -/
theorem kept_handleMessage (hexact : engine.Exact) (hkind : isReplaceableKind kind = true)
    (h : Kept log pubkey kind l w) (hl : ∀ e ∈ l, e.Parsed) {event : NostrEventEntity}
    (hevent : Submitted log pubkey kind event) (hid : ∀ e ∈ l, e.id ≠ event.id) :
    Kept log pubkey kind (l ++ [event]) (handleMessage engine .calm true event w) := by
  have hpubkey : hexStrToBin 32 event.pubkey = some pubkey := by
    rw [hevent.pubkey, hexStrToBin_rawToHex]
  obtain ⟨rec, hrec⟩ := Option.isSome_iff_exists.mp hevent.fits
  have hstored := storedAs_of_eventSerialize hevent.parsed hrec
  obtain rfl := hevent.kind
  have hrepl : isReplaceableKind event.kind = true := hkind
  obtain ⟨log', hdel, hout⟩ := handleMessage_replaceable engine .calm hpubkey hrepl w
  -- what the check compares with is the event kept so far
  have hcompare : ∀ r e, LiveOf w.log pubkey event.kind r → e ∈ l → eventSerialize e = some r →
      ∀ out, supersedes event (eventDeserialize r out) = true ↔ Precedes e event := by
    intro r e hr he hrec out
    have hs := storedAs_of_eventSerialize (hl e he) hrec
    have hlow : LowerHex 64 (eventDeserialize r out).id := by
      rw [eventDeserialize_id, hs.id]
      exact (hl e he).id
    rw [supersedes_iff hevent.parsed.id hlow, Precedes, Precedes, eventDeserialize_createdAt,
      eventDeserialize_id, hs.id, hs.createdAt]
  have hids : ∀ r ∈ log'.records, (∃ r₀ ∈ log.records, r₀.id = r.id) ∨
      ∃ e ∈ l, e.id = rawToHex r.id.1 := by
    intro r hr
    have hmem : r.id ∈ w.log.records.map EventRecord.id := hdel.ids ▸ List.mem_map_of_mem hr
    obtain ⟨s, hs, hsid⟩ := List.mem_map.mp hmem
    rw [← hsid]
    exact h.ids s hs
  have hone : (w.log.chains pubkey event.kind).flatten.length ≤ 100 :=
    (length_chain_le_one fun r s hr hs => h.unique hr hs).trans (Nat.le_add_left 1 99)
  cases hrej : (seenByCheck engine .calm pubkey event w).any (supersedes event) with
  | true =>
    rw [hrej, if_pos rfl] at hdel
    have hlog := (hout.of_rejected hrej).1
    have hlive : ∀ r, LiveOf log' pubkey event.kind r ↔ LiveOf w.log pubkey event.kind r := by
      intro r
      rw [LiveOf, LiveOf, hdel.live]
      simp [among_nil]
    -- the event kept so far precedes the new one
    obtain ⟨x, hx, hsup⟩ := List.any_eq_true.mp hrej
    obtain ⟨s, out, hs, hkey, rfl⟩ := live_of_mem_seenByCheck hexact.sound hx
    obtain ⟨e, he, hserialize, hfirst⟩ := h.first s ⟨hs, hkey⟩
    have hbefore := (hcompare s e ⟨hs, hkey⟩ he hserialize out).mp hsup
    refine ⟨fun r hr => ?_, fun _ => ⟨s, ?_⟩, fun r hr => ?_⟩
    · rw [hlog, hlive] at hr
      obtain rfl := h.unique hr ⟨hs, hkey⟩
      refine ⟨e, List.mem_append_left _ he, hserialize, fun e' he' hne => ?_⟩
      rcases List.mem_append.mp he' with he' | he'
      · exact hfirst e' he' hne
      · rw [List.mem_singleton.mp he']
        exact hbefore
    · rw [hlog, hlive]
      exact ⟨hs, hkey⟩
    · rw [hlog] at hr
      exact (hids r hr).imp id fun ⟨e, he, heq⟩ => ⟨e, List.mem_append_left _ he, heq⟩
  | false =>
    rw [hrej, if_neg (by decide)] at hdel
    have hlog := (hout.of_stored hrej).1
    -- all events of the author and kind are gone before the write
    have hgone : ∀ r, ¬ LiveOf log' pubkey event.kind r := by
      rintro r ⟨hr, hkey⟩
      rw [hdel.live] at hr
      obtain ⟨out, hseen⟩ := mem_seenByCheck hexact (memoryGranted_calm w) hone hr.1 hkey.1 hkey.2
      exact hr.2 ⟨_, hseen, rfl⟩
    have hprecedes : ∀ e' ∈ l, Precedes event e' := by
      intro e' he'
      obtain ⟨s, hs⟩ := h.exists_live (List.ne_nil_of_mem he')
      obtain ⟨e, he, hserialize, hfirst⟩ := h.first s hs
      obtain ⟨out, hseen⟩ :=
        mem_seenByCheck hexact (memoryGranted_calm w) hone hs.1 hs.2.1 hs.2.2
      have hnot : ¬ Precedes e event := by
        rw [← hcompare s e hs he hserialize out]
        exact List.any_eq_false.mp hrej _ hseen
      have hbefore := Precedes.of_not (hid e he) hnot
      by_cases heq : e' = e
      · exact heq ▸ hbefore
      · exact hbefore.trans (hfirst e' he' heq)
    have hnew : log'.idLookup rec.id = none := by
      rw [EventLog.idLookup_eq_none]
      intro r hr heq
      rcases hids r hr with ⟨r₀, hr₀, heq₀⟩ | ⟨e, he, heqe⟩
      · exact hevent.new r₀ hr₀ (by rw [heq₀, heq, hstored.id])
      · exact hid e he (by rw [heqe, heq, hstored.id])
    rw [show Env.calm.storage w.storageCalls = none from rfl,
      EventLog.writeEvent_of_new hrec hnew] at hlog
    have hlive : ∀ r, LiveOf (handleMessage engine .calm true event w).log pubkey event.kind r ↔
        r = rec := by
      intro r
      rw [LiveOf, hlog, EventLog.live_append]
      constructor
      · rintro ⟨hr | hr, hkey⟩
        · exact absurd ⟨hr, hkey⟩ (hgone r)
        · exact hr
      · rintro rfl
        refine ⟨.inr rfl, rawToHex_injective ?_, hstored.kind⟩
        rw [hstored.pubkey, hevent.pubkey]
    refine ⟨fun r hr => ?_, fun _ => ⟨rec, (hlive rec).mpr rfl⟩, fun r hr => ?_⟩
    · obtain rfl := (hlive r).mp hr
      refine ⟨event, by simp, hrec, fun e' he' hne => ?_⟩
      rcases List.mem_append.mp he' with he' | he'
      · exact hprecedes e' he'
      · exact absurd (List.mem_singleton.mp he') hne
    · rw [hlog] at hr
      rcases List.mem_append.mp hr with hr | hr
      · exact (hids r hr).imp id fun ⟨e, he, heq⟩ => ⟨e, List.mem_append_left _ he, heq⟩
      · exact .inr ⟨event, by simp, by rw [List.mem_singleton.mp hr, hstored.id]⟩

/-- **All messages.** -/
theorem kept_runMessages (hexact : engine.Exact) (hkind : isReplaceableKind kind = true)
    (hnone : ∀ r, ¬ LiveOf w.log pubkey kind r) : ∀ l : List NostrEventEntity,
      (∀ e ∈ l, Submitted w.log pubkey kind e) → (l.map NostrEventEntity.id).Nodup →
        Kept w.log pubkey kind l (runMessages engine .calm w l) := by
  intro l
  induction l using List.reverseRecOn with
  | nil =>
    intro _ _
    exact ⟨fun r hr => absurd hr (hnone r), fun h => absurd rfl h, fun r hr => .inl ⟨r, hr, rfl⟩⟩
  | append_singleton l event ih =>
    intro hall hdistinct
    have hl : ∀ e ∈ l, Submitted w.log pubkey kind e := fun e he =>
      hall e (List.mem_append_left _ he)
    rw [List.map_append, List.nodup_append] at hdistinct
    rw [runMessages, List.foldl_append, List.foldl_cons, List.foldl_nil]
    refine kept_handleMessage hexact hkind (ih hl hdistinct.1) (fun e he => (hl e he).parsed)
      (hall event (by simp)) fun e he => ?_
    exact hdistinct.2.2 e.id (List.mem_map_of_mem he) event.id (by simp)

/-- **The first of the events is left, whatever the order of arrival.** -/
theorem latest_of_any_order (hexact : engine.Exact) (hkind : isReplaceableKind kind = true)
    (hnone : ∀ r, ¬ LiveOf w.log pubkey kind r) {events : List NostrEventEntity}
    (hne : events ≠ []) (hall : ∀ e ∈ events, Submitted w.log pubkey kind e)
    (hdistinct : (events.map NostrEventEntity.id).Nodup) :
    ∃ e ∈ events, (∀ e' ∈ events, e' ≠ e → Precedes e e') ∧
      ∃ rec, eventSerialize e = some rec ∧ ∀ arrival : List NostrEventEntity,
        arrival.Perm events → ∀ r,
          LiveOf (runMessages engine .calm w arrival).log pubkey kind r ↔ r = rec := by
  have hkept : ∀ arrival : List NostrEventEntity, arrival.Perm events →
      Kept w.log pubkey kind arrival (runMessages engine .calm w arrival) := fun arrival hperm =>
    kept_runMessages hexact hkind hnone arrival (fun e he => hall e (hperm.mem_iff.mp he))
      ((hperm.map NostrEventEntity.id).nodup_iff.mpr hdistinct)
  have hself := hkept events (List.Perm.refl _)
  obtain ⟨s, hs⟩ := hself.exists_live hne
  obtain ⟨e, he, hserialize, hfirst⟩ := hself.first s hs
  refine ⟨e, he, hfirst, s, hserialize, fun arrival hperm => ?_⟩
  have hk := hkept arrival hperm
  have honly : ∀ r, LiveOf (runMessages engine .calm w arrival).log pubkey kind r → r = s := by
    intro r hr
    obtain ⟨e', he', hserialize', hfirst'⟩ := hk.first r hr
    obtain rfl := eq_of_first he (hperm.mem_iff.mp he') hfirst fun x hx =>
      hfirst' x (hperm.mem_iff.mpr hx)
    exact Option.some.inj (hserialize'.symm.trans hserialize)
  refine fun r => ⟨honly r, ?_⟩
  rintro rfl
  obtain ⟨r', hr'⟩ := hk.exists_live fun hnil => hne (by simpa [hnil] using hperm)
  exact honly r' hr' ▸ hr'

/-- Three profiles, two of them equally old. -/
theorem latest_of_profiles :
    ∃ e ∈ [digitEvent 50 49 0 7 [], digitEvent 48 49 0 7 [], digitEvent 51 49 0 3 []],
      (∀ e' ∈ [digitEvent 50 49 0 7 [], digitEvent 48 49 0 7 [], digitEvent 51 49 0 3 []],
        e' ≠ e → Precedes e e') ∧
      ∃ rec, eventSerialize e = some rec ∧ ∀ arrival : List NostrEventEntity,
        arrival.Perm [digitEvent 50 49 0 7 [], digitEvent 48 49 0 7 [], digitEvent 51 49 0 3 []] →
          ∀ r, LiveOf (runMessages queryExecute .calm .init arrival).log
            ⟨List.replicate 32 17, rfl⟩ 0 r ↔ r = rec := by
  refine latest_of_any_order exact_queryExecute rfl (fun r hr => ?_) (by simp) ?_ (by decide +kernel)
  · exact absurd hr.1.1 (by simp [World.init, EventLog.empty])
  · intro e he
    simp only [List.mem_cons, List.not_mem_nil, or_false] at he
    rcases he with rfl | rfl | rfl
    all_goals exact ⟨parsed_digitEvent (by decide) (by decide) (by decide) (by decide) (by decide)
      (by decide), by decide +kernel, rfl, by decide +kernel, by simp [World.init, EventLog.empty]⟩

end OnionRelay.Relay
