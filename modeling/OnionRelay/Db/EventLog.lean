import Mathlib.Data.List.Nodup
import Mathlib.Data.List.Perm.Subperm
import OnionRelay.Db.DupChain
import OnionRelay.Db.EventRecord

/-!
# The event log

The database of `db_event.c` as a log of records.  A record id is a position in
the log; the ID index finds a record, live or deleted, by its id, and the
pubkey+kind index keeps for each key the chain of the live records of that
author and kind.  The other indexes are not consulted by the message handlers.

`EventLog` carries the two laws every operation keeps: no two records have one
id, and each chain holds the live records of its key, each once.
-/

namespace OnionRelay.Db

/-- The database, as far as ids, deletion flags and the pubkey+kind index go. -/
structure EventLog where
  records : List EventRecord
  chains : Bytes 32 → Nat → List (List Nat)
  ids_nodup : (records.map EventRecord.id).Nodup
  chain_nodup : ∀ pubkey kind, (chains pubkey kind).flatten.Nodup
  mem_chain : ∀ pubkey kind rid, rid ∈ (chains pubkey kind).flatten ↔
    ∃ rec, records[rid]? = some rec ∧ rec.deleted = false ∧ rec.pubkey = pubkey ∧ rec.kind = kind

namespace EventLog

/-- A record is live: it is in the log and not flagged. -/
def Live (log : EventLog) (rec : EventRecord) : Prop := rec ∈ log.records ∧ rec.deleted = false

instance (log : EventLog) (rec : EventRecord) : Decidable (log.Live rec) :=
  inferInstanceAs (Decidable (_ ∧ _))

/-- The log after `nostr_db_init` on new files. -/
def empty : EventLog where
  records := []
  chains := fun _ _ => []
  ids_nodup := List.nodup_nil
  chain_nodup := fun _ _ => List.nodup_nil
  mem_chain := fun _ _ _ => by simp

/-- `index_id_lookup`. -/
def idLookup (log : EventLog) (id : Bytes 32) : Option Nat :=
  log.records.findIdx? (fun rec => rec.id = id)

/-- An id occurs at one place only. -/
theorem rid_eq_of_id_eq {log : EventLog} {i j : Nat} {r s : EventRecord}
    (hi : log.records[i]? = some r) (hj : log.records[j]? = some s) (h : r.id = s.id) : i = j := by
  obtain ⟨hi', rfl⟩ := List.getElem?_eq_some_iff.mp hi
  obtain ⟨hj', rfl⟩ := List.getElem?_eq_some_iff.mp hj
  have hij : (log.records.map EventRecord.id)[i]? = (log.records.map EventRecord.id)[j]? := by
    simp [hi', hj', h]
  exact (List.getElem?_inj (by simpa) log.ids_nodup).mp hij

/-- Two records of one id are one. -/
theorem eq_of_id_eq {log : EventLog} {r s : EventRecord} (hr : r ∈ log.records)
    (hs : s ∈ log.records) (h : r.id = s.id) : r = s := by
  obtain ⟨i, hi⟩ := List.mem_iff_getElem?.mp hr
  obtain ⟨j, hj⟩ := List.mem_iff_getElem?.mp hs
  obtain rfl := rid_eq_of_id_eq hi hj h
  exact Option.some.inj (hi.symm.trans hj)

/-- A chain is no longer than the log. -/
theorem length_chain_le (log : EventLog) (pubkey : Bytes 32) (kind : Nat) :
    (log.chains pubkey kind).flatten.length ≤ log.records.length := by
  have hsub : (log.chains pubkey kind).flatten ⊆ List.range log.records.length := by
    intro rid hrid
    obtain ⟨rec, hrec, -⟩ := (log.mem_chain pubkey kind rid).mp hrid
    exact List.mem_range.mpr (List.getElem?_eq_some_iff.mp hrec).1
  simpa using (List.subperm_of_subset (log.chain_nodup pubkey kind) hsub).length_le

theorem idLookup_eq_some {log : EventLog} {id : Bytes 32} {rid : Nat} :
    log.idLookup id = some rid ↔ ∃ rec, log.records[rid]? = some rec ∧ rec.id = id := by
  constructor
  · intro h
    obtain ⟨hlt, hp, -⟩ := List.findIdx?_eq_some_iff_getElem.mp h
    exact ⟨log.records[rid], List.getElem?_eq_getElem hlt, by simpa using hp⟩
  · rintro ⟨rec, hget, rfl⟩
    obtain ⟨hlt, hrec⟩ := List.getElem?_eq_some_iff.mp hget
    refine List.findIdx?_eq_some_iff_getElem.mpr ⟨hlt, by simp [hrec], fun j hj => ?_⟩
    simp only [decide_eq_true_eq]
    intro hid
    have := rid_eq_of_id_eq (List.getElem?_eq_getElem (by omega)) hget hid
    omega

theorem idLookup_eq_none {log : EventLog} {id : Bytes 32} :
    log.idLookup id = none ↔ ∀ rec ∈ log.records, rec.id ≠ id := by
  simp [idLookup, List.findIdx?_eq_none_iff]

/-- Which ids are known depends on the ids alone. -/
theorem idLookup_congr {log log' : EventLog}
    (h : log'.records.map EventRecord.id = log.records.map EventRecord.id) (id : Bytes 32) :
    log'.idLookup id = none ↔ log.idLookup id = none := by
  have hmem : ∀ l : EventLog, l.idLookup id = none ↔ id ∉ l.records.map EventRecord.id := by
    intro l
    rw [idLookup_eq_none, List.mem_map]
    simp only [not_exists, not_and, ne_eq]
  rw [hmem, hmem, h]

/-! ## Writing -/

/-- What is at a position of the log with a new record behind the last. -/
theorem exists_getElem?_append_singleton {records : List EventRecord} {rec : EventRecord} {rid : Nat}
    {p : EventRecord → Prop} : (∃ r, (records ++ [rec])[rid]? = some r ∧ p r) ↔
      (rid = records.length ∧ p rec) ∨ ∃ r, records[rid]? = some r ∧ p r := by
  rcases Nat.lt_trichotomy rid records.length with hlt | rfl | hgt
  · rw [List.getElem?_append_left hlt]
    simp [Nat.ne_of_lt hlt]
  · simp
  · rw [List.getElem?_eq_none (by simp; omega), List.getElem?_eq_none (by omega)]
    simp [Nat.ne_of_gt hgt]

theorem nodup_ids_append {log : EventLog} {rec : EventRecord} (hnew : log.idLookup rec.id = none) :
    ((log.records ++ [rec]).map EventRecord.id).Nodup := by
  rw [List.map_append, List.nodup_append]
  refine ⟨log.ids_nodup, by simp, fun id hid id' hid' => ?_⟩
  obtain ⟨r, hr, rfl⟩ := List.mem_map.mp hid
  obtain rfl : id' = rec.id := by simpa using hid'
  exact idLookup_eq_none.mp hnew r hr

theorem length_not_mem_chain (log : EventLog) (pubkey : Bytes 32) (kind : Nat) :
    log.records.length ∉ (log.chains pubkey kind).flatten := by
  rw [log.mem_chain]
  rintro ⟨r, hr, -⟩
  simp at hr

/-- The log with a new record behind the last. -/
def append (log : EventLog) (rec : EventRecord) (hnew : log.idLookup rec.id = none)
    (hlive : rec.deleted = false) : EventLog where
  records := log.records ++ [rec]
  chains := fun pubkey kind =>
    if rec.pubkey = pubkey ∧ rec.kind = kind then
      chainInsert log.records.length (log.chains pubkey kind)
    else log.chains pubkey kind
  ids_nodup := nodup_ids_append hnew
  chain_nodup := by
    intro pubkey kind
    split
    · rw [(perm_chainInsert _ _).nodup_iff]
      exact List.nodup_cons.mpr ⟨log.length_not_mem_chain pubkey kind, log.chain_nodup pubkey kind⟩
    · exact log.chain_nodup pubkey kind
  mem_chain := by
    intro pubkey kind rid
    rw [exists_getElem?_append_singleton, ← log.mem_chain, hlive]
    split
    · rename_i hkey
      rw [(perm_chainInsert _ _).mem_iff, List.mem_cons, and_iff_left ⟨rfl, hkey⟩]
    · rename_i hkey
      rw [or_iff_right (fun h => hkey h.2.2)]

/-- The error of a step that did not succeed. -/
abbrev Failure := { err : NostrDBError // err ≠ .ok }

/-- `nostr_db_write_event`.  `failure` is what storing the record or indexing it
returns when it cannot be done; the record is then taken back. -/
def writeEvent (failure : Option Failure) (event : NostrEventEntity) (log : EventLog) :
    NostrDBError × EventLog :=
  match hrec : eventSerialize event with
  | none => (.invalidEvent, log)
  | some rec =>
    match hid : log.idLookup rec.id with
    | some rid =>
      match log.records[rid]? with
      | some existing => (if existing.deleted then .deleted else .duplicate, log)
      | none => (.duplicate, log)
    | none =>
      match failure with
      | some err => (err.1, log)
      | none => (.ok, log.append rec hid (eventSerialize_deleted hrec))

/-! ## Deleting -/

theorem map_id_set_deleted {records : List EventRecord} {rid : Nat} {rec : EventRecord}
    (hrec : records[rid]? = some rec) :
    (records.set rid { rec with deleted := true }).map EventRecord.id =
      records.map EventRecord.id := by
  refine List.ext_getElem? fun i => ?_
  by_cases hi : rid = i
  · subst hi
    obtain ⟨hlt, rfl⟩ := List.getElem?_eq_some_iff.mp hrec
    simp [hlt]
  · rw [List.getElem?_map, List.getElem?_map, List.getElem?_set_ne hi]

/-- The log with one live record flagged and taken out of its chain. -/
def flagDeleted (log : EventLog) (rid : Nat) (rec : EventRecord)
    (hrec : log.records[rid]? = some rec) : EventLog where
  records := log.records.set rid { rec with deleted := true }
  chains := fun pubkey kind =>
    if rec.pubkey = pubkey ∧ rec.kind = kind then chainDelete rid (log.chains pubkey kind)
    else log.chains pubkey kind
  ids_nodup := by
    rw [map_id_set_deleted hrec]
    exact log.ids_nodup
  chain_nodup := by
    intro pubkey kind
    split
    · rw [(perm_chainDelete _ _).nodup_iff]
      exact (log.chain_nodup pubkey kind).erase _
    · exact log.chain_nodup pubkey kind
  mem_chain := by
    intro pubkey kind rid'
    obtain ⟨hlt, -⟩ := List.getElem?_eq_some_iff.mp hrec
    have hset : (∃ r, (log.records.set rid { rec with deleted := true })[rid']? = some r ∧
        r.deleted = false ∧ r.pubkey = pubkey ∧ r.kind = kind) ↔
        rid' ≠ rid ∧ rid' ∈ (log.chains pubkey kind).flatten := by
      rw [log.mem_chain]
      by_cases hr : rid' = rid
      · subst hr
        simp [hlt]
      · rw [List.getElem?_set_ne (Ne.symm hr)]
        simp [hr]
    rw [hset]
    split
    · rw [(perm_chainDelete _ _).mem_iff, (log.chain_nodup pubkey kind).mem_erase_iff]
    · rename_i hkey
      refine ⟨fun h => ⟨?_, h⟩, fun h => h.2⟩
      rintro rfl
      obtain ⟨r, hr, -, hp, hk⟩ := (log.mem_chain pubkey kind rid').mp h
      obtain rfl : rec = r := Option.some.inj (hrec.symm.trans hr)
      exact hkey ⟨hp, hk⟩

/-- `nostr_db_delete_event`. -/
def deleteEvent (id : Bytes 32) (log : EventLog) : NostrDBError × EventLog :=
  match log.idLookup id with
  | none => (.notFound, log)
  | some rid =>
    match hrec : log.records[rid]? with
    | none => (.notFound, log)
    | some rec =>
      if rec.deleted then (.notFound, log)
      else (.ok, log.flagDeleted rid rec hrec)

/-! ## Reading -/

/-- `nostr_db_get_event_at_offset`, with the record id for the packed offset. -/
def getEventAtOffset (rid : Nat) (out : NostrEventEntity) (log : EventLog) :
    NostrDBError × NostrEventEntity :=
  match log.records[rid]? with
  | none => (.notFound, out)
  | some rec => if rec.deleted then (.notFound, out) else (.ok, eventDeserialize rec out)

/-- `nostr_db_get_event_by_id`. -/
def getEventById (id : Bytes 32) (out : NostrEventEntity) (log : EventLog) :
    NostrDBError × NostrEventEntity :=
  match log.idLookup id with
  | none => (.notFound, out)
  | some rid => log.getEventAtOffset rid out

/-- The live record of an id. -/
def liveById (log : EventLog) (id : Bytes 32) : Option EventRecord :=
  match log.idLookup id with
  | none => none
  | some rid => (log.records[rid]?).filter (fun rec => !rec.deleted)

theorem liveById_eq_some {log : EventLog} {id : Bytes 32} {rec : EventRecord} :
    log.liveById id = some rec ↔ log.Live rec ∧ rec.id = id := by
  rw [liveById]
  constructor
  · intro h
    split at h
    · exact absurd h (by simp)
    · rename_i rid hid
      obtain ⟨rec', hrec', rfl⟩ := idLookup_eq_some.mp hid
      rw [hrec', Option.filter_eq_some_iff, Option.some.injEq] at h
      obtain ⟨rfl, hd⟩ := h
      exact ⟨⟨List.mem_of_getElem? hrec', by simpa using hd⟩, rfl⟩
  · rintro ⟨⟨hmem, hd⟩, rfl⟩
    obtain ⟨rid, hrid⟩ := List.mem_iff_getElem?.mp hmem
    rw [idLookup_eq_some.mpr ⟨rec, hrid, rfl⟩]
    simp [hrid, hd]

theorem getEventById_eq (log : EventLog) (id : Bytes 32) (out : NostrEventEntity) :
    log.getEventById id out = match log.liveById id with
      | none => (.notFound, out)
      | some rec => (.ok, eventDeserialize rec out) := by
  rw [getEventById, liveById]
  cases log.idLookup id with
  | none => rfl
  | some rid =>
    simp only [getEventAtOffset]
    cases log.records[rid]? with
    | none => rfl
    | some rec => cases hd : rec.deleted <;> simp [hd, Option.filter]

/-! ## What the operations do to the live records -/

theorem live_append {log : EventLog} {rec : EventRecord} (hnew : log.idLookup rec.id = none)
    (hlive : rec.deleted = false) {r : EventRecord} : (log.append rec hnew hlive).Live r ↔ log.Live r ∨ r = rec := by
  simp only [Live, append, List.mem_append, List.mem_singleton]
  constructor
  · rintro ⟨h | rfl, hd⟩
    · exact .inl ⟨h, hd⟩
    · exact .inr rfl
  · rintro (⟨h, hd⟩ | rfl)
    · exact ⟨.inl h, hd⟩
    · exact ⟨.inr rfl, hlive⟩

theorem live_flagDeleted {log : EventLog} {rid : Nat} {rec : EventRecord}
    (hrec : log.records[rid]? = some rec) {r : EventRecord} : (log.flagDeleted rid rec hrec).Live r ↔ log.Live r ∧ r.id ≠ rec.id := by
  obtain ⟨hlt, hget⟩ := List.getElem?_eq_some_iff.mp hrec
  have hmem : rec ∈ log.records := List.mem_of_getElem? hrec
  simp only [Live, flagDeleted]
  constructor
  · rintro ⟨hr, hd⟩
    obtain ⟨i, hi⟩ := List.mem_iff_getElem?.mp hr
    by_cases hne : i = rid
    · subst hne
      rw [List.getElem?_set_self hlt] at hi
      obtain rfl := Option.some.inj hi
      exact absurd hd (by simp)
    · rw [List.getElem?_set_ne (Ne.symm hne)] at hi
      exact ⟨⟨List.mem_of_getElem? hi, hd⟩, fun hid => hne (rid_eq_of_id_eq hi hrec hid)⟩
  · rintro ⟨⟨hr, hd⟩, hid⟩
    obtain ⟨i, hi⟩ := List.mem_iff_getElem?.mp hr
    have hne : rid ≠ i := by
      rintro rfl
      exact hid (congrArg EventRecord.id (Option.some.inj (hi.symm.trans hrec)))
    refine ⟨List.mem_of_getElem? (i := i) ?_, hd⟩
    rw [List.getElem?_set_ne hne, hi]

/-- A deletion finds no live record of the id, or flags the one there is. -/
theorem deleteEvent_cases (log : EventLog) (id : Bytes 32) :
    ((∀ r, log.Live r → r.id ≠ id) ∧ log.deleteEvent id = (.notFound, log)) ∨
      ∃ rid rec hrec, rec.id = id ∧ rec.deleted = false ∧
        log.deleteEvent id = (.ok, log.flagDeleted rid rec hrec) := by
  rw [deleteEvent]
  split
  · rename_i hid
    exact .inl ⟨fun r hr => idLookup_eq_none.mp hid r hr.1, rfl⟩
  · rename_i rid hid
    obtain ⟨rec, hrec, rfl⟩ := idLookup_eq_some.mp hid
    split
    · rename_i hnone
      exact absurd (hnone.symm.trans hrec) (by simp)
    · rename_i rec' hrec'
      obtain rfl := Option.some.inj (hrec'.symm.trans hrec)
      split
      · rename_i hdel
        refine .inl ⟨fun r hr hid => ?_, rfl⟩
        obtain rfl := eq_of_id_eq hr.1 (List.mem_of_getElem? hrec') hid
        exact absurd hr.2 (by simp [hdel])
      · rename_i hdel
        exact .inr ⟨rid, rec', hrec', rfl, by simpa using hdel, rfl⟩

/-- **A deletion takes away the live record of the id, if any, and no other.** -/
theorem live_deleteEvent {log : EventLog} {id : Bytes 32} {r : EventRecord} :
    (log.deleteEvent id).2.Live r ↔ log.Live r ∧ r.id ≠ id := by
  rcases log.deleteEvent_cases id with ⟨hno, heq⟩ | ⟨rid, rec, hrec, rfl, -, heq⟩
  · rw [heq]
    exact ⟨fun h => ⟨h, hno r h⟩, fun h => h.1⟩
  · rw [heq]
    exact live_flagDeleted hrec

/-- A deletion keeps the ids. -/
theorem ids_deleteEvent (log : EventLog) (id : Bytes 32) :
    (log.deleteEvent id).2.records.map EventRecord.id = log.records.map EventRecord.id := by
  rcases log.deleteEvent_cases id with ⟨-, heq⟩ | ⟨rid, rec, hrec, -, -, heq⟩
  · rw [heq]
  · rw [heq]
    exact map_id_set_deleted hrec

/-- A deletion keeps the records of other ids where they are. -/
theorem getElem?_deleteEvent {log : EventLog} {id : Bytes 32} {i : Nat} {r : EventRecord}
    (hr : r.id ≠ id) : (log.deleteEvent id).2.records[i]? = some r ↔ log.records[i]? = some r := by
  rcases log.deleteEvent_cases id with ⟨-, heq⟩ | ⟨rid, rec, hrec, rfl, -, heq⟩
  · rw [heq]
  · rw [heq]
    simp only [flagDeleted]
    by_cases hi : rid = i
    · subst hi
      rw [List.getElem?_set_self (List.getElem?_eq_some_iff.mp hrec).1, hrec]
      constructor
      · intro h
        exact absurd (congrArg EventRecord.id (Option.some.inj h)).symm hr
      · intro h
        exact absurd (congrArg EventRecord.id (Option.some.inj h)).symm hr
    · rw [List.getElem?_set_ne hi]

/-- A write leaves the log, or it reports success and appends the record. -/
theorem writeEvent_cases (failure : Option Failure) (event : NostrEventEntity) (log : EventLog) :
    (∃ err, err ≠ .ok ∧ log.writeEvent failure event = (err, log)) ∨
      ∃ rec hnew hlive, eventSerialize event = some rec ∧ failure = none ∧
        log.writeEvent failure event = (.ok, log.append rec hnew hlive) := by
  rw [writeEvent]
  split
  · exact .inl ⟨_, by decide, rfl⟩
  · rename_i rec hrec
    split
    · refine .inl ?_
      split
      · rename_i existing _
        cases existing.deleted
        · exact ⟨_, by decide, rfl⟩
        · exact ⟨_, by decide, rfl⟩
      · exact ⟨_, by decide, rfl⟩
    · rename_i hid
      cases failure with
      | some err => exact .inl ⟨err.1, err.2, rfl⟩
      | none => exact .inr ⟨rec, hid, eventSerialize_deleted hrec, hrec, rfl, rfl⟩

/-- A write of a known id changes nothing. -/
theorem writeEvent_of_known {failure : Option Failure} {event : NostrEventEntity} {log : EventLog}
    {rec : EventRecord} (hrec : eventSerialize event = some rec) (hid : log.idLookup rec.id ≠ none) :
    (log.writeEvent failure event).2 = log := by
  rcases log.writeEvent_cases failure event with ⟨err, -, heq⟩ | ⟨rec', hnew, -, hrec', -, -⟩
  · rw [heq]
  · obtain rfl := Option.some.inj (hrec'.symm.trans hrec)
    exact absurd hnew hid

/-- A write of a new id appends the record, if there is room. -/
theorem writeEvent_of_new {event : NostrEventEntity} {log : EventLog} {rec : EventRecord}
    (hrec : eventSerialize event = some rec) (hnew : log.idLookup rec.id = none) :
    log.writeEvent none event = (.ok, log.append rec hnew (eventSerialize_deleted hrec)) := by
  rw [writeEvent]
  split
  · rename_i hnone
    exact absurd (hnone.symm.trans hrec) (by simp)
  · rename_i rec' hrec'
    obtain rfl := Option.some.inj (hrec'.symm.trans hrec)
    split
    · rename_i hid
      exact absurd (hid.symm.trans hnew) (by simp)
    · rfl

theorem idLookup_of_live {log : EventLog} {rec : EventRecord} (h : log.Live rec) :
    log.idLookup rec.id ≠ none :=
  fun hnone => idLookup_eq_none.mp hnone rec h.1 rfl

/-- A write keeps what is live. -/
theorem live_writeEvent {failure : Option Failure} {event : NostrEventEntity} {log : EventLog}
    {r : EventRecord} (hr : log.Live r) : (log.writeEvent failure event).2.Live r := by
  rcases log.writeEvent_cases failure event with ⟨err, -, heq⟩ | ⟨rec, hnew, hlive, -, -, heq⟩
  · rw [heq]
    exact hr
  · rw [heq]
    exact (live_append hnew hlive).mpr (.inl hr)

end EventLog

end OnionRelay.Db
