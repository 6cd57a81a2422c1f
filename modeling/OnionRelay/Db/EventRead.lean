import OnionRelay.Db.Btree.Ops
import OnionRelay.Db.EventMemory
import OnionRelay.Db.Record.UpdateFailure

/-!
# Events read into a used entity

`nostr_db_get_event_at_offset` and `nostr_db_get_event_by_id` read a record into a
buffer on the stack and deserialize it into the entity of the caller, which the loop of
`handle_req_message` uses for all results of a filter.

All fields are written on a successful call but the tags of a record that has none:
those of the event before stay.  `readsAlike_iff` says that this is the only way in
which an entity shows what was in it.
-/

namespace OnionRelay.Db

open OnionRelay.Lib

/-! ## The functions -/

/-- What is left to do once the record is in the buffer: `length` is the length that
`record_read` returned. -/
def openRecord (buf : Mem) (length : UInt16) (out : EventMemory) : NostrDBError × EventMemory :=
  if (EventHeader.read buf).flags &&& 1 ≠ 0 then (.notFound, out)
  else eventDeserializeInto buf length out

/-- `record_read` into the 8192 bytes of `buf`, which held what `stack` says. -/
def readRecord (rid : RecordId) (stack : Mem) : RecordM (Except NostrDBError (Mem × UInt16)) := do
  match ← recordRead rid 8192 with
  | .error err => return .error err
  | .ok (length, bytes) => return .ok (writeAt stack 0 bytes, UInt16.ofNat length)

/-- The part of `nostr_db_get_event_at_offset` in front of the entity. -/
def recordAtOffset (offset : UInt64) (stack : Mem) : RecordM (Except NostrDBError (Mem × UInt16)) :=
  let rid : RecordId := ⟨(offset >>> 16).toUInt32, offset.toUInt16⟩
  if rid.pageId = 0 then return .error .notFound
  else do
    match ← readRecord rid stack with
    | .error _ => return .error .notFound
    | .ok record => return .ok record

/-- The part of `nostr_db_get_event_by_id` in front of the entity. -/
def recordById (idIndex : BTree) (id : Bytes 32) (stack : Mem) :
    RecordM (Except NostrDBError (Mem × UInt16)) := do
  match ← (btreeSearch idIndex id.1).inl with
  | (.ok, some value) =>
    readRecord ⟨UInt32.ofNat (ofLE (value.take 4)), UInt16.ofNat (ofLE ((value.drop 4).take 2))⟩ stack
  | _ => return .error .notFound

/-- The end of both functions. -/
def answer (record : Except NostrDBError (Mem × UInt16)) (out : EventMemory) :
    NostrDBError × EventMemory :=
  match record with
  | .error err => (err, out)
  | .ok (buf, length) => openRecord buf length out

/-- `nostr_db_get_event_at_offset` -/
def nostrDbGetEventAtOffset (offset : UInt64) (stack : Mem) (out : EventMemory) :
    RecordM (NostrDBError × EventMemory) := do
  let record ← recordAtOffset offset stack
  return answer record out

/-- `nostr_db_get_event_by_id` -/
def nostrDbGetEventById (idIndex : BTree) (id : Bytes 32) (stack : Mem) (out : EventMemory) :
    RecordM (NostrDBError × EventMemory) := do
  let record ← recordById idIndex id stack
  return answer record out

/-- The loop of `handle_req_message` over the offsets of a result set: the events passed
to `nostr_response_event`.  Each call finds something else on the stack. -/
def sendResults : List (UInt64 × Mem) → EventMemory → RecordM (List NostrEventEntity)
  | [], _ => return []
  | (offset, stack) :: calls, event => do
    let (err, event) ← nostrDbGetEventAtOffset offset stack event
    let sent ← sendResults calls event
    return if err = .ok then event.event :: sent else sent

/-! ## Records with tags and without -/

/-- The bytes hold a tag count and, if it is not zero, a first tag up to its name. -/
def HoldsTag (tagsData : List UInt8) : Prop :=
  ofLE (tagsData.take 2) ≠ 0 ∧ 4 + (tagsData.getD 3 0).toNat ≤ tagsData.length

instance (tagsData : List UInt8) : Decidable (HoldsTag tagsData) := inferInstanceAs (Decidable (_ ∧ _))

/-- The lengths in the header fit the length of the record. -/
def LengthsFit (buf : Mem) (length : UInt16) : Prop :=
  152 + (EventHeader.read buf).contentLength.toNat + (EventHeader.read buf).tagsLength.toNat ≤ length.toNat

/-- The serialized tags of the record. -/
def tagsOf (buf : Mem) : List UInt8 :=
  readAt buf (152 + (EventHeader.read buf).contentLength.toNat) (EventHeader.read buf).tagsLength.toNat

/-- There is no record, it is deleted or malformed, or it has a tag. -/
def Tagged : Except NostrDBError (Mem × UInt16) → Prop
  | .error _ => True
  | .ok (buf, length) =>
    (EventHeader.read buf).flags &&& 1 = 0 → LengthsFit buf length → HoldsTag (tagsOf buf)

/-- A successful call leaves the same event in every entity. -/
def ReadsAlike (get : EventMemory → NostrDBError × EventMemory) : Prop :=
  ∀ out out', (get out).1 = .ok → (get out').1 = .ok → (get out).2.event = (get out').2.event

theorem deserializeTags_ne_nil_iff {tagsData : List UInt8} :
    (deserializeTags tagsData 2048).getD [] ≠ [] ↔ HoldsTag tagsData := by
  rw [HoldsTag, deserializeTags]
  by_cases hshort : tagsData.length < 2
  · rw [if_pos hshort]
    exact iff_of_false (fun h => h rfl) fun h => by omega
  rw [if_neg hshort, Option.getD_some]
  rcases hcount : min (ofLE (tagsData.take 2)) 2048 with - | n
  · exact iff_of_false (fun h => h rfl) fun h => by omega
  rw [deserializeTagList, List.length_drop]
  by_cases hhead : tagsData.length - 2 < 2
  · rw [if_pos hhead]
    exact iff_of_false (fun h => h rfl) fun h => by omega
  have hname : (tagsData.drop 2).getD 1 0 = tagsData.getD 3 0 := by
    rw [List.getD_eq_getElem?_getD, List.getElem?_drop, List.getD_eq_getElem?_getD]
  rw [if_neg hhead]
  dsimp only
  rw [List.length_drop, List.length_drop, hname]
  by_cases hcut : tagsData.length - 2 - 2 < (tagsData.getD 3 0).toNat
  · rw [if_pos hcut]
    exact iff_of_false (fun h => h rfl) fun h => by omega
  rw [if_neg hcut]
  refine iff_of_true ?_ ⟨by omega, by omega⟩
  split <;> exact List.cons_ne_nil _ _

/-- The event in a record. -/
def recordEvent (buf : Mem) : NostrEventEntity where
  id := rawToHex (EventHeader.read buf).id.1
  pubkey := rawToHex (EventHeader.read buf).pubkey.1
  sig := rawToHex (EventHeader.read buf).sig.1
  createdAt := (EventHeader.read buf).createdAt.toNat
  kind := (EventHeader.read buf).kind.toNat
  content := cstr (readAt buf 152 (EventHeader.read buf).contentLength.toNat)
  tags := (deserializeTags (tagsOf buf) 2048).getD []

theorem eventDeserializeFrom_of_fit {buf : Mem} {length : UInt16} (h : LengthsFit buf length)
    (event : NostrEventEntity) :
    eventDeserializeFrom buf length event =
      (.ok, { recordEvent buf with
        tags := if HoldsTag (tagsOf buf) then (recordEvent buf).tags else event.tags }) := by
  have hsize := (EventHeader.read buf).contentLength.toNat_lt
  have htags : (recordEvent buf).tags = (deserializeTags (tagsOf buf) 2048).getD [] := rfl
  have hholds := @deserializeTags_ne_nil_iff (tagsOf buf)
  rw [LengthsFit] at h
  rw [eventDeserializeFrom, if_neg (show ¬ length.toNat < 152 by omega)]
  dsimp only
  rw [if_neg (show ¬ length.toNat < 152 + (EventHeader.read buf).contentLength.toNat by omega),
    if_neg (Nat.not_lt.mpr h), ← tagsOf,
    if_neg (show ¬ 1048576 ≤ (EventHeader.read buf).contentLength.toNat by omega), htags]
  rcases hread : deserializeTags (tagsOf buf) 2048 with _ | _ | ⟨tag, tags⟩
  · rw [hread] at hholds
    rw [if_neg fun hholds' => hholds.mpr hholds' rfl]
    rfl
  · rw [hread] at hholds
    rw [if_neg fun hholds' => hholds.mpr hholds' rfl]
    rfl
  · rw [hread] at hholds
    rw [if_pos (hholds.mp (List.cons_ne_nil _ _))]
    rfl

theorem eventDeserializeFrom_of_not_fit {buf : Mem} {length : UInt16} (h : ¬ LengthsFit buf length)
    (event : NostrEventEntity) : (eventDeserializeFrom buf length event).1 ≠ .ok := by
  rw [LengthsFit, Nat.not_le] at h
  rw [eventDeserializeFrom]
  dsimp only
  split
  · exact NostrDBError.noConfusion
  split
  · exact NostrDBError.noConfusion
  · exact NostrDBError.noConfusion

/-- The two ways in which `openRecord` can end. -/
theorem openRecord_cases (buf : Mem) (length : UInt16) (out : EventMemory) :
    (openRecord buf length out).1 = .ok ↔
      (EventHeader.read buf).flags &&& 1 = 0 ∧ LengthsFit buf length := by
  rw [openRecord]
  by_cases hflags : (EventHeader.read buf).flags &&& 1 = 0
  · rw [if_neg (not_not.mpr hflags), and_iff_right hflags]
    have hevent := congrArg Prod.fst (eventDeserializeInto_event buf length out)
    dsimp only at hevent
    rw [hevent]
    by_cases hfit : LengthsFit buf length
    · rw [eventDeserializeFrom_of_fit hfit]
      exact iff_of_true rfl hfit
    · exact iff_of_false (eventDeserializeFrom_of_not_fit hfit _) hfit
  · rw [if_pos hflags]
    exact iff_of_false NostrDBError.noConfusion fun h => hflags h.1

/-- **What a successful call shows**: the event of the record, but for its tags. -/
theorem openRecord_event {buf : Mem} {length : UInt16} {out : EventMemory}
    (h : (openRecord buf length out).1 = .ok) :
    (openRecord buf length out).2.event =
      { recordEvent buf with
        tags := if HoldsTag (tagsOf buf) then (recordEvent buf).tags else out.event.tags } := by
  obtain ⟨hflags, hfit⟩ := (openRecord_cases buf length out).mp h
  have hevent := congrArg Prod.snd (eventDeserializeInto_event buf length out)
  rw [eventDeserializeFrom_of_fit hfit] at hevent
  rw [openRecord, if_neg (not_not.mpr hflags)]
  exact hevent

/-- An entity with one tag, which has no name and no value. -/
def EventMemory.oneTag : EventMemory := { EventMemory.zero with tagCount := 1 }

/-- **A record is read alike into every entity** unless it can be read and has no tag. -/
theorem readsAlike_answer_iff (record : Except NostrDBError (Mem × UInt16))
    (herr : record ≠ .error .ok) : ReadsAlike (answer record) ↔ Tagged record := by
  cases record with
  | error err =>
    refine iff_of_true (fun out out' hout => ?_) trivial
    exact absurd (congrArg Except.error hout) herr
  | ok record =>
    obtain ⟨buf, length⟩ := record
    constructor
    · intro halike hflags hfit
      by_contra hholds
      have hok := fun out => (openRecord_cases buf length out).mpr ⟨hflags, hfit⟩
      have hsame := congrArg NostrEventEntity.tags
        (halike .zero .oneTag (hok .zero) (hok .oneTag))
      rw [answer, answer] at hsame
      rw [openRecord_event (hok .zero), openRecord_event (hok .oneTag), if_neg hholds,
        if_neg hholds] at hsame
      exact absurd (congrArg List.length hsame) Nat.zero_ne_one
    · intro htagged out out' hout hout'
      obtain ⟨hflags, hfit⟩ := (openRecord_cases buf length out).mp hout
      have hholds := htagged hflags hfit
      rw [answer, answer, openRecord_event hout, openRecord_event hout', if_pos hholds, if_pos hholds]

/-! ## What is read out of the store -/

section

variable {σ : Type} (handler : Handler (PageSig.sum RecordSig) σ) (s : σ)

/-- `record_read` has a code for every failure. -/
theorem recordRead_ne_ok (rid : RecordId) (capacity : Nat) :
    ((recordRead rid capacity).run handler s).1 ≠ .error .ok := by
  rw [recordRead]
  split
  · simp
  simp only [Prog.run_bind]
  split
  · simp
  next page _ =>
  by_cases hspanned : overflowIsSpanned page rid.slotIndex.toNat
  · simp only [if_pos hspanned, Prog.run_bind, Prog.run_pure, overflowRead]
    split
    · simp
    split
    · simp
    · simp
  · simp only [if_neg hspanned, slotPageRead]
    split
    · simp
    split
    · simp
    · simp

theorem readRecord_ne_ok (rid : RecordId) (stack : Mem) :
    ((readRecord rid stack).run handler s).1 ≠ .error .ok := by
  have hread := recordRead_ne_ok handler s rid 8192
  rw [readRecord, Prog.run_bind]
  split
  · next err herr =>
    rw [herr] at hread
    simpa using hread
  · simp

theorem recordAtOffset_ne_ok (offset : UInt64) (stack : Mem) :
    ((recordAtOffset offset stack).run handler s).1 ≠ .error .ok := by
  rw [recordAtOffset]
  dsimp only
  split
  · simp
  rw [Prog.run_bind]
  split
  · simp
  · simp

theorem recordById_ne_ok (idIndex : BTree) (id : Bytes 32) (stack : Mem) :
    ((recordById idIndex id stack).run handler s).1 ≠ .error .ok := by
  rw [recordById, Prog.run_bind]
  split
  · exact readRecord_ne_ok handler _ _ stack
  · simp

/-- The records that the loop reads. -/
def recordsOf : List (UInt64 × Mem) → RecordM (List (Except NostrDBError (Mem × UInt16)))
  | [] => return []
  | (offset, stack) :: calls => do
    let record ← recordAtOffset offset stack
    let records ← recordsOf calls
    return record :: records

/-- The event a record shows in a fresh entity. -/
def freshEvent (record : Except NostrDBError (Mem × UInt16)) : Option NostrEventEntity :=
  if (answer record .zero).1 = .ok then some (answer record .zero).2.event else none

/-- A record that is read alike shows the same event in a fresh entity. -/
theorem freshEvent_eq {record : Except NostrDBError (Mem × UInt16)} (herr : record ≠ .error .ok)
    (htagged : Tagged record) (out : EventMemory) :
    freshEvent record = if (answer record out).1 = .ok then some (answer record out).2.event else none := by
  have halike := (readsAlike_answer_iff record herr).mpr htagged
  have hcode : (answer record .zero).1 = .ok ↔ (answer record out).1 = .ok := by
    cases record with
    | error err => exact Iff.rfl
    | ok record => exact (openRecord_cases _ _ _).trans (openRecord_cases _ _ _).symm
  rw [freshEvent]
  by_cases hok : (answer record .zero).1 = .ok
  · rw [if_pos hok, if_pos (hcode.mp hok), halike _ _ hok (hcode.mp hok)]
  · rw [if_neg hok, if_neg fun h => hok (hcode.mpr h)]

/-- **The loop** sends each event as it shows in a fresh entity, if all records it reads
have tags. -/
theorem run_sendResults : ∀ (calls : List (UInt64 × Mem)) (out : EventMemory) (s : σ),
    (∀ record ∈ ((recordsOf calls).run handler s).1, Tagged record) →
      ((sendResults calls out).run handler s).1 =
        ((recordsOf calls).run handler s).1.filterMap freshEvent := by
  intro calls
  induction calls with
  | nil => intro out s _; rfl
  | cons call calls ih =>
    obtain ⟨offset, stack⟩ := call
    intro out s htagged
    simp only [recordsOf, Prog.run_bind, Prog.run_pure, List.forall_mem_cons] at htagged ⊢
    obtain ⟨hrecord, hrecords⟩ := htagged
    have herr := recordAtOffset_ne_ok handler s offset stack
    simp only [sendResults, nostrDbGetEventAtOffset, Prog.run_bind, Prog.run_pure, ih _ _ hrecords]
    have hfresh := freshEvent_eq herr hrecord out
    by_cases hok : (answer ((recordAtOffset offset stack).run handler s).1 out).1 = .ok
    · rw [if_pos hok] at hfresh ⊢
      rw [List.filterMap_cons_some hfresh]
    · rw [if_neg hok] at hfresh ⊢
      rw [List.filterMap_cons_none hfresh]

/-- **Where nothing leaks.**  Both functions leave the same event in every entity exactly
where the record, if it can be read, has a tag.  The loop of a REQ message that reads
such records only sends what a fresh entity would show. -/
theorem readsAlike_iff :
    (∀ offset stack, ReadsAlike (fun out => ((nostrDbGetEventAtOffset offset stack out).run handler s).1) ↔
      Tagged ((recordAtOffset offset stack).run handler s).1) ∧
    (∀ idIndex id stack,
      ReadsAlike (fun out => ((nostrDbGetEventById idIndex id stack out).run handler s).1) ↔
        Tagged ((recordById idIndex id stack).run handler s).1) ∧
    ∀ calls, (∀ record ∈ ((recordsOf calls).run handler s).1, Tagged record) →
      ∀ out, ((sendResults calls out).run handler s).1 =
        ((recordsOf calls).run handler s).1.filterMap freshEvent := by
  refine ⟨fun offset stack => ?_, fun idIndex id stack => ?_,
    fun calls htagged out => run_sendResults handler calls out s htagged⟩
  · simp only [nostrDbGetEventAtOffset, Prog.run_bind, Prog.run_pure]
    exact readsAlike_answer_iff _ (recordAtOffset_ne_ok handler s offset stack)
  · simp only [nostrDbGetEventById, Prog.run_bind, Prog.run_pure]
    exact readsAlike_answer_iff _ (recordById_ne_ok handler s idIndex id stack)

end

/-! ## Stored events -/

/-- The record of an event in the buffer. -/
theorem tagged_toBytes_iff {rec : EventRecord} (hsize : rec.size ≤ 8192) (stack : Mem) :
    Tagged (.ok (writeAt stack 0 (rec.toBytes.take 8192), UInt16.ofNat rec.size)) ↔
      rec.deleted = true ∨ HoldsTag rec.tags := by
  have hlength := rec.length_toBytes
  rw [List.take_of_length_le (by omega)]
  have hread : readAt (writeAt stack 0 rec.toBytes) 0 rec.size = rec.toBytes :=
    readAt_writeAt_same _ _ _ hlength.symm
  obtain ⟨hhead, hbody⟩ := readAt_eq_append hread
  obtain ⟨-, htags⟩ := readAt_eq_append hbody
  rw [EventHeader.length_toBytes] at hhead htags
  rw [EventRecord.size] at hsize
  have hc : (UInt16.ofNat rec.content.length).toNat = rec.content.length := by
    rw [UInt16.toNat_ofNat', Nat.mod_eq_of_lt (by omega)]
  have ht : (UInt16.ofNat rec.tags.length).toNat = rec.tags.length := by
    rw [UInt16.toNat_ofNat', Nat.mod_eq_of_lt (by omega)]
  have hs : (UInt16.ofNat rec.size).toNat = 152 + rec.content.length + rec.tags.length := by
    rw [UInt16.toNat_ofNat', EventRecord.size, Nat.mod_eq_of_lt (by omega)]
  rw [Nat.zero_add] at htags
  rw [Tagged, LengthsFit, tagsOf, EventHeader.read_toBytes hhead, EventRecord.header]
  dsimp only
  rw [hc, ht, hs, htags]
  cases rec.deleted with
  | true => exact iff_of_true (fun h => absurd h (by decide)) (.inl rfl)
  | false => simp

section

variable {s : RecordStore} {rec : EventRecord} {offset : UInt64} {rid : RecordId} {layer : PageLayer}
  (hrid : rid = ⟨(offset >>> 16).toUInt32, offset.toUInt16⟩)
  (hstored : HoldsRecord s.flat rid.pageId.toNat rid.slotIndex.toNat rec.toBytes)
  (hlayer : layer.Grants) (stack : Mem)

include hrid hstored hlayer

theorem run_recordAtOffset_stored : ((recordAtOffset offset stack).run (recordStore layer) s).1 =
    .ok (writeAt stack 0 (rec.toBytes.take 8192), UInt16.ofNat rec.size) := by
  have hread := hstored.readsBack layer hlayer 8192
  rw [recordAtOffset, ← hrid, if_neg (pageId_ne_zero hstored.live)]
  simp only [readRecord, Prog.run_bind, hread, Prog.run_pure, rec.length_toBytes]

/-- **A stored event** leaks what was there before exactly if it has no tags. -/
theorem readsAlike_stored_iff (hsize : rec.size ≤ 8192) :
    ReadsAlike (fun out => ((nostrDbGetEventAtOffset offset stack out).run (recordStore layer) s).1) ↔
      rec.deleted = true ∨ HoldsTag rec.tags := by
  simp only [nostrDbGetEventAtOffset, Prog.run_bind, Prog.run_pure]
  rw [readsAlike_answer_iff _ (recordAtOffset_ne_ok _ _ _ _),
    run_recordAtOffset_stored hrid hstored hlayer, tagged_toBytes_iff hsize]

end

/-- Nothing but zero bytes. -/
def blankBytes (n : Nat) : Bytes n := ⟨List.replicate n 0, List.length_replicate⟩

/-- A record with these serialized tags, which is otherwise zero. -/
def blankRecord (tags : List UInt8) : EventRecord :=
  ⟨blankBytes 32, blankBytes 32, blankBytes 64, 0, 0, false, [], tags⟩

/-- A store with that record in the first slot of page 1. -/
def blankStore (tags : List UInt8) : RecordStore :=
  ⟨⟨fun _ => insertedPage (blankRecord tags).toBytes (slotPageInit 1), [1], 0⟩, [], 0, []⟩

/-- The page layer that grants everything and caches nothing. -/
def plainLayer : PageLayer := .granting .lowest fun frames _ => frames

theorem holdsRecord_blankStore {tags : List UInt8} (htags : tags.length ≤ 100) :
    HoldsRecord (blankStore tags).flat (recordId 1 0).pageId.toNat (recordId 1 0).slotIndex.toNat
      (blankRecord tags).toBytes := by
  have hlength : (blankRecord tags).toBytes.length = 152 + 0 + tags.length :=
    (blankRecord tags).length_toBytes
  obtain ⟨-, hlayout⟩ := (layout_slotPageInit 1).slotPageInsert_of_le
    (List.ne_nil_of_length_pos (show 0 < (blankRecord tags).toBytes.length by omega)) (by omega)
    (show (blankRecord tags).toBytes.length + 4 ≤ 4072 by omega)
  exact .inline ⟨List.mem_cons_self, by decide, by decide⟩ hlayout rfl

/-- One tag without a name and a value. -/
theorem readsAlike_iff_oneTag :
    ReadsAlike (fun out => ((nostrDbGetEventAtOffset 65536 (fun _ => 0) out).run (recordStore plainLayer)
      (blankStore [1, 0, 0, 0])).1) := by
  have hrid : recordId 1 0 = ⟨((65536 : UInt64) >>> 16).toUInt32, (65536 : UInt64).toUInt16⟩ := rfl
  refine ((readsAlike_iff (recordStore plainLayer) _).1 65536 (fun _ => 0)).mpr ?_
  rw [run_recordAtOffset_stored hrid (holdsRecord_blankStore (by decide)) ⟨fun _ => rfl, fun _ => rfl⟩,
    tagged_toBytes_iff (by decide)]
  exact .inr (by decide)

/-- A record without tags leaves the tags of the event before. -/
theorem leaks_noTag :
    ¬ ReadsAlike (fun out => ((nostrDbGetEventAtOffset 65536 (fun _ => 0) out).run (recordStore plainLayer)
      (blankStore [0, 0])).1) := by
  have hrid : recordId 1 0 = ⟨((65536 : UInt64) >>> 16).toUInt32, (65536 : UInt64).toUInt16⟩ := rfl
  rw [readsAlike_stored_iff hrid (holdsRecord_blankStore (by decide)) ⟨fun _ => rfl, fun _ => rfl⟩ _
    (by decide)]
  decide

end OnionRelay.Db
