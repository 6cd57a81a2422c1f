import OnionRelay.Db.EventLog
import OnionRelay.Db.EventSerializer

/-!
# What the log keeps

A record of the log only ever changes by being flagged as deleted, and new records come
behind the last (`Ages`).  So what is read of a record does not change until it is deleted,
and then no more of it is read.

`rec.Shows event` says that what is read of the record is a copy of the event.  A copy has
all of the event but tags that do not fit a record and what a content of 65536 bytes and
more loses.  An event without tags is read with those in the buffer, so a copy may have others.
-/

namespace OnionRelay.Db

open OnionRelay.Lib

structure Copy (event copy : NostrEventEntity) : Prop where
  id : copy.id = event.id
  pubkey : copy.pubkey = event.pubkey
  sig : copy.sig = event.sig
  createdAt : copy.createdAt = event.createdAt
  kind : copy.kind = event.kind
  content : event.content.length < 65536 → copy.content = event.content
  tags : event.tags ≠ [] → 2 + (tagListBytes event.tags).length ≤ 8192 → copy.tags = event.tags

theorem Copy.refl (event : NostrEventEntity) : Copy event event :=
  ⟨rfl, rfl, rfl, rfl, rfl, fun _ => rfl, fun _ _ => rfl⟩

/-- Whatever the buffer has before. -/
def EventRecord.Shows (rec : EventRecord) (event : NostrEventEntity) : Prop :=
  ∀ out, Copy event (eventDeserialize rec out)

theorem EventRecord.Shows.id {rec : EventRecord} {event : NostrEventEntity} (h : rec.Shows event) :
    rawToHex rec.id.1 = event.id := (h .zero).id

theorem tags_eventDeserialize (rec : EventRecord) (out : NostrEventEntity)
    (h : (eventDeserialize rec .zero).tags ≠ []) :
    (eventDeserialize rec out).tags = (eventDeserialize rec .zero).tags := by
  rw [eventDeserialize, eventDeserialize]
  rw [eventDeserialize] at h
  generalize deserializeTags rec.tags 2048 = read at h ⊢
  rcases read with _ | _ | ⟨tag, tags⟩
  · exact (h rfl).elim
  · exact (h rfl).elim
  · rfl

/-- A record is read as what it is read as over an empty buffer. -/
theorem shows_eventDeserialize (rec : EventRecord) : rec.Shows (eventDeserialize rec .zero) := fun out =>
  ⟨rfl, rfl, rfl, rfl, rfl, fun _ => rfl, fun h _ => tags_eventDeserialize rec out h⟩

/-- **What is written is read back.** -/
theorem shows_of_eventSerialize {event : NostrEventEntity} (hevent : event.Parsed) (hcontent : 0 ∉ event.content)
    {rec : EventRecord} (hrec : eventSerialize event = some rec) : rec.Shows event := by
  rw [eventSerialize_eq] at hrec
  split at hrec
  · cases hrec
  obtain ⟨rec', hrec', -, -, -, hread⟩ := recordOf_eq hevent
  obtain rfl := Option.some.inj (hrec'.symm.trans hrec)
  intro out
  have hcopy := shows_eventDeserialize rec' out
  rw [hread] at hcopy
  refine ⟨hcopy.id, hcopy.pubkey, hcopy.sig, hcopy.createdAt, hcopy.kind, fun hlength => ?_, fun htags hsize => ?_⟩
  · have hwhole : cstr (event.content.take (event.content.length % 2 ^ 16)) = event.content := by
      rw [Nat.mod_eq_of_lt, List.take_length, cstr_of_noNul hcontent]
      exact hlength
    exact (hcopy.content (by rwa [hwhole])).trans hwhole
  · have hcopied := hcopy.tags
    dsimp only at hcopied
    rw [if_pos hsize] at hcopied
    exact hcopied htags hsize

namespace EventLog

variable {log log' log'' : EventLog}

/-- A record is what it was, or has been flagged. -/
inductive Aged : EventRecord → EventRecord → Prop
  | same {rec : EventRecord} : Aged rec rec
  | flagged {rec : EventRecord} : Aged rec { rec with deleted := true }

theorem Aged.id {rec rec' : EventRecord} (h : Aged rec rec') : rec'.id = rec.id := by
  cases h <;> rfl

theorem Aged.trans {rec rec' rec'' : EventRecord} (h : Aged rec rec') (h' : Aged rec' rec'') : Aged rec rec'' := by
  cases h' with
  | same => exact h
  | flagged =>
    cases h with
    | same => exact .flagged
    | flagged => exact .flagged

theorem Aged.of_deleted {rec rec' : EventRecord} (h : Aged rec rec') (hdeleted : rec.deleted = true) : rec' = rec := by
  cases h with
  | same => rfl
  | flagged =>
    cases rec
    cases hdeleted
    rfl

theorem Aged.shows_iff {rec rec' : EventRecord} (h : Aged rec rec') {event : NostrEventEntity} :
    rec'.Shows event ↔ rec.Shows event := by
  cases h <;> exact Iff.rfl

/-- The same records, some of them flagged since. -/
def Ages (log log' : EventLog) : Prop := List.Forall₂ Aged log.records log'.records

theorem Ages.refl (log : EventLog) : Ages log log := List.forall₂_same.mpr fun _ _ => .same

theorem Ages.trans (h : Ages log log') (h' : Ages log' log'') : Ages log log'' := by
  refine List.forall₂_iff_get.mpr ⟨h.length_eq.trans h'.length_eq, fun i hi hi'' => ?_⟩
  have hi' : i < log'.records.length := h.length_eq ▸ hi
  exact (h.get hi hi').trans (h'.get hi' hi'')

theorem Ages.exists_new (h : Ages log log') {rec : EventRecord} (hrec : rec ∈ log.records) :
    ∃ rec' ∈ log'.records, Aged rec rec' := by
  obtain ⟨i, hi, rfl⟩ := List.getElem_of_mem hrec
  have hi' : i < log'.records.length := h.length_eq ▸ hi
  exact ⟨_, List.getElem_mem hi', h.get hi hi'⟩

theorem Ages.exists_old (h : Ages log log') {rec' : EventRecord} (hrec : rec' ∈ log'.records) :
    ∃ rec ∈ log.records, Aged rec rec' := by
  obtain ⟨i, hi', rfl⟩ := List.getElem_of_mem hrec
  have hi : i < log.records.length := h.length_eq ▸ hi'
  exact ⟨_, List.getElem_mem hi, h.get hi hi'⟩

/-- A record that is not deleted was not before. -/
theorem Ages.exists_live (h : Ages log log') {rec' : EventRecord} (hrec : log'.Live rec') :
    ∃ rec, log.Live rec ∧ rec.id = rec'.id := by
  obtain ⟨rec, hold, hage⟩ := h.exists_old hrec.1
  cases hage with
  | same => exact ⟨_, ⟨hold, hrec.2⟩, rfl⟩
  | flagged => exact absurd hrec.2 (by simp)

/-- The records stay where they are. -/
def Grows (log log' : EventLog) : Prop :=
  ∀ (i : Nat) (rec : EventRecord), log.records[i]? = some rec → ∃ rec', log'.records[i]? = some rec' ∧ Aged rec rec'

theorem Grows.refl (log : EventLog) : Grows log log := fun _ rec h => ⟨rec, h, .same⟩

theorem Grows.trans (h : Grows log log') (h' : Grows log' log'') : Grows log log'' := by
  intro i rec hrec
  obtain ⟨rec', hrec', hage⟩ := h i rec hrec
  obtain ⟨rec'', hrec'', hage'⟩ := h' i rec' hrec'
  exact ⟨rec'', hrec'', hage.trans hage'⟩

theorem Ages.grows (h : Ages log log') : Grows log log' := by
  intro i rec hrec
  obtain ⟨hi, rfl⟩ := List.getElem?_eq_some_iff.mp hrec
  have hi' : i < log'.records.length := h.length_eq ▸ hi
  exact ⟨_, List.getElem?_eq_getElem hi', h.get hi hi'⟩

theorem grows_of_append {more : List EventRecord} (h : log'.records = log.records ++ more) : Grows log log' := by
  intro i rec hrec
  refine ⟨rec, ?_, .same⟩
  rw [h, List.getElem?_append_left (List.getElem?_eq_some_iff.mp hrec).1, hrec]

/-- There is an event of this id, and it was deleted. -/
def Buried (log : EventLog) (id : CStr) : Prop :=
  ∃ rec ∈ log.records, rec.deleted = true ∧ rawToHex rec.id.1 = id

/-- **What is deleted stays deleted.** -/
theorem Grows.buried (h : Grows log log') {id : CStr} (hid : Buried log id) : Buried log' id := by
  obtain ⟨rec, hrec, hdeleted, hid⟩ := hid
  obtain ⟨i, hi⟩ := List.mem_iff_getElem?.mp hrec
  obtain ⟨rec', hrec', hage⟩ := h i rec hi
  obtain rfl := hage.of_deleted hdeleted
  exact ⟨rec', List.mem_of_getElem? hrec', hdeleted, hid⟩

/-- What is live was not deleted. -/
theorem Buried.ne_of_live {id : CStr} (hid : Buried log id) {rec : EventRecord} (hrec : log.Live rec) :
    rawToHex rec.id.1 ≠ id := by
  rintro rfl
  obtain ⟨rec', hrec', hdeleted, hsame⟩ := hid
  rw [eq_of_id_eq hrec' hrec.1 (rawToHex_injective hsame), hrec.2] at hdeleted
  cases hdeleted

/-- **A deletion only flags.** -/
theorem ages_deleteEvent (log : EventLog) (id : Bytes 32) : Ages log (log.deleteEvent id).2 := by
  rcases log.deleteEvent_cases id with ⟨-, heq⟩ | ⟨rid, rec, hrec, -, -, heq⟩
  · rw [heq]
    exact Ages.refl log
  · rw [heq]
    refine List.forall₂_iff_get.mpr ⟨(List.length_set ..).symm, fun i hi hi' => ?_⟩
    obtain ⟨hrid, rfl⟩ := List.getElem?_eq_some_iff.mp hrec
    simp only [List.get_eq_getElem, flagDeleted, List.getElem_set]
    split
    · next heq =>
      subst heq
      exact .flagged
    · exact .same

/-- The ids of the records, as the messages have them. -/
def storedIds (log : EventLog) : Set CStr := {id | ∃ rec ∈ log.records, rawToHex rec.id.1 = id}

theorem Ages.storedIds (h : Ages log log') : storedIds log' = storedIds log := by
  ext id
  constructor
  · rintro ⟨rec', hrec', rfl⟩
    obtain ⟨rec, hrec, hage⟩ := h.exists_old hrec'
    exact ⟨rec, hrec, by rw [hage.id]⟩
  · rintro ⟨rec, hrec, rfl⟩
    obtain ⟨rec', hrec', hage⟩ := h.exists_new hrec
    exact ⟨rec', hrec', by rw [hage.id]⟩

/-- **What a write does to the log**: it adds a record of the event, which was not known, or
says why not. -/
theorem writeEvent_records {event : NostrEventEntity} (hevent : event.Parsed) {failure : Option Failure}
    (hunknown : ∀ err, failure = some err → err.1 ≠ .duplicate ∧ err.1 ≠ .deleted) (log : EventLog) :
    ((log.writeEvent failure event).1 = .ok ∧ event.id ∉ storedIds log ∧ ∃ rec, eventSerialize event = some rec ∧
        (log.writeEvent failure event).2.records = log.records ++ [rec]) ∨
      ((log.writeEvent failure event).1 ≠ .ok ∧ (log.writeEvent failure event).2 = log ∧
        ((log.writeEvent failure event).1 = .duplicate → ∃ rec, log.Live rec ∧ rawToHex rec.id.1 = event.id) ∧
        ((log.writeEvent failure event).1 = .deleted → event.id ∈ storedIds log)) := by
  rw [EventLog.writeEvent]
  split
  · exact .inr ⟨by simp, rfl, by simp, by simp⟩
  · next rec hrec =>
    have hid := (storedAs_of_eventSerialize hevent hrec).id
    have hmem : event.id ∈ storedIds log ↔ ∃ rec' ∈ log.records, rec'.id = rec.id := by
      rw [← hid]
      exact exists_congr fun rec' => and_congr_right fun _ => ⟨rawToHex_injective, fun h => by rw [h]⟩
    split
    · next rid hlookup =>
      obtain ⟨rec', hrec', hsame⟩ := EventLog.idLookup_eq_some.mp hlookup
      rw [hrec']
      dsimp only
      have hmem' := List.mem_of_getElem? hrec'
      cases hdeleted : rec'.deleted with
      | true => exact .inr ⟨by decide, rfl, by simp, fun _ => hmem.mpr ⟨rec', hmem', hsame⟩⟩
      | false => exact .inr ⟨by decide, rfl, fun _ => ⟨rec', ⟨hmem', hdeleted⟩, hsame ▸ hid⟩, by simp⟩
    · next hlookup =>
      split
      · next err =>
        obtain ⟨hduplicate, hdeleted⟩ := hunknown err rfl
        exact .inr ⟨err.2, rfl, fun h => absurd h hduplicate, fun h => absurd h hdeleted⟩
      · refine .inl ⟨rfl, fun h => ?_, rec, hrec, rfl⟩
        obtain ⟨rec', hrec', hsame⟩ := hmem.mp h
        exact EventLog.idLookup_eq_none.mp hlookup rec' hrec' hsame

end EventLog

end OnionRelay.Db
